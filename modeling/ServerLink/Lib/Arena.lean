import Mathlib.Logic.Function.Basic
import Mathlib.Tactic.Common

/-!
# Arenas

Objects on a heap, addressed by numbers that are never used twice: `cell` is `none`
for an object that was freed or never allocated. A program that uses a freed object, or
frees one twice, looks up an empty cell.
-/

/-- The objects that are alive, and the address the next one gets. -/
structure Arena (α : Type) where
  cell : Nat → Option α := fun _ => none
  next : Nat := 0

namespace Arena

variable {α : Type}
variable {h : Arena α} {i j : Nat} {x : α}

/-- Store a new object; its address is `next`. -/
def alloc (h : Arena α) (x : α) : Arena α :=
  { cell := Function.update h.cell h.next (some x), next := h.next + 1 }

/-- Overwrite the object at an address. -/
def set (h : Arena α) (i : Nat) (x : α) : Arena α :=
  { h with cell := Function.update h.cell i (some x) }

/-- Give an object back. -/
def free (h : Arena α) (i : Nat) : Arena α :=
  { h with cell := Function.update h.cell i none }

/-- The object at an address is alive. -/
def Live (h : Arena α) (i : Nat) : Prop := (h.cell i).isSome

theorem live_iff : h.Live i ↔ ∃ x, h.cell i = some x :=
  Option.isSome_iff_exists

@[simp] theorem alloc_next (h : Arena α) (x : α) : (h.alloc x).next = h.next + 1 := rfl
@[simp] theorem cell_alloc_next (h : Arena α) (x : α) : (h.alloc x).cell h.next = some x := by
  simp [alloc]

theorem cell_alloc_of_ne (h : Arena α) (x : α) (hi : i ≠ h.next) :
    (h.alloc x).cell i = h.cell i := by
  simp [alloc, hi]

@[simp] theorem cell_set (h : Arena α) (i : Nat) (x : α) : (h.set i x).cell i = some x := by
  simp [set]

theorem cell_set_of_ne (h : Arena α) (x : α) (hj : j ≠ i) : (h.set i x).cell j = h.cell j := by
  simp [set, hj]

theorem set_self (hx : h.cell i = some x) : h.set i x = h := by
  simp [set, ← hx]

@[simp] theorem set_set (h : Arena α) (i : Nat) (x y : α) : (h.set i x).set i y = h.set i y := by
  simp [set]

theorem set_comm (h : Arena α) (hij : i ≠ j) (x y : α) :
    (h.set i x).set j y = (h.set j y).set i x := by
  simp only [set, Function.update_comm hij]

@[simp] theorem cell_free (h : Arena α) (i : Nat) : (h.free i).cell i = none := by
  simp [free]

theorem cell_free_of_ne (h : Arena α) (hj : j ≠ i) : (h.free i).cell j = h.cell j := by
  simp [free, hj]

/-- Freeing an object does not change the ones that are left. -/
theorem cell_of_cell_free (hx : (h.free i).cell j = some x) : h.cell j = some x := by
  by_cases hj : j = i
  · rw [hj, cell_free] at hx
    cases hx
  · rwa [cell_free_of_ne h hj] at hx

theorem live_alloc : (h.alloc x).Live i ↔ i = h.next ∨ h.Live i := by
  by_cases hi : i = h.next
  · simp [hi, Live]
  · simp [Live, cell_alloc_of_ne h x hi, hi]

theorem live_set (hi : h.Live i) : (h.set i x).Live j ↔ h.Live j := by
  by_cases hj : j = i
  · subst hj
    simpa [Live] using hi
  · simp [Live, cell_set_of_ne h x hj]

theorem live_free : (h.free i).Live j ↔ j ≠ i ∧ h.Live j := by
  by_cases hj : j = i
  · simp [hj, Live]
  · simp [Live, cell_free_of_ne h hj, hj]

end Arena

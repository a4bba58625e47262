import Mathlib.Tactic.Common

/-!
# Buffers that hold the path of a walk

A walk through a tree keeps the path to the current node in a buffer that grows when it
is full. A byte of the buffer that was never set is `none`. The walk passes the size that
it believes the buffer to have; the buffer may be larger, because a deeper part of the
walk has made it grow.

`Holds path max buff` says that the buffer begins with the path and is as large as
believed. The rules say that making room keeps it, that one more byte makes the path
longer, and that a path can be cut.
-/

namespace PathBuffer

open List

variable {α ε : Type}

/-- The cells of a buffer. -/
abbrev Buffer (α : Type) := List (Option α)

def realloc (buff : Buffer α) (n : Nat) : Buffer α :=
  buff.take n ++ replicate (n - buff.length) none

/-- `buff[i] = a`. -/
def store (fault : ε) (buff : Buffer α) (i : Nat) (a : α) : Except ε (Buffer α) :=
  if i < buff.length then .ok (buff.set i (some a)) else .error fault

/-- Make room behind the first `size` cells: the buffer, and its size. -/
def adjust (step : Nat) (buff : Buffer α) (max size : Nat) : Buffer α × Nat :=
  if max ≤ size then (realloc buff (size + step), size + step) else (buff, max)

/-- The buffer begins with the path, and is as large as it is believed to be. -/
structure Holds (path : List α) (max : Nat) (buff : Buffer α) : Prop where
  path : buff.take path.length = path.map some
  room : max ≤ buff.length

variable {path q : List α} {max : Nat} {buff : Buffer α}

theorem holds_nil (buff : Buffer α) : Holds [] 0 buff := ⟨rfl, Nat.zero_le _⟩

theorem Holds.mono {max' : Nat} (h : Holds path max buff) (hle : max' ≤ max) :
    Holds path max' buff :=
  ⟨h.path, Nat.le_trans hle h.room⟩

theorem Holds.cut (h : Holds (path ++ q) max buff) : Holds path max buff := by
  refine ⟨?_, h.room⟩
  have htake := congrArg (take path.length) h.path
  rw [take_take, length_append, Nat.min_eq_left (Nat.le_add_right _ _),
    ← map_take, take_left' rfl] at htake
  exact htake

theorem Holds.length_le (h : Holds path max buff) : path.length ≤ buff.length := by
  have hlen := congrArg length h.path
  rw [length_take, length_map] at hlen
  omega

theorem length_realloc (buff : Buffer α) (n : Nat) : (realloc buff n).length = n := by
  rw [realloc, length_append, length_take, length_replicate]
  omega

theorem Holds.adjust (h : Holds path max buff) {step : Nat} (hstep : 0 < step) :
    Holds path (adjust step buff max path.length).2 (adjust step buff max path.length).1 ∧
      path.length < (adjust step buff max path.length).2 ∧
      max ≤ (adjust step buff max path.length).2 := by
  unfold PathBuffer.adjust
  by_cases hfull : max ≤ path.length
  · rw [if_pos hfull]
    refine ⟨⟨?_, ?_⟩, by dsimp only; omega, by dsimp only; omega⟩
    · have hle := h.length_le
      rw [realloc, take_append_of_le_length (by rw [length_take]; omega),
        take_take, Nat.min_eq_left (by omega)]
      exact h.path
    · exact Nat.le_of_eq (length_realloc _ _).symm
  · rw [if_neg hfull]
    exact ⟨h, by dsimp only; omega, Nat.le_refl _⟩

theorem Holds.store (h : Holds path max buff) (hroom : path.length < max) (fault : ε) (a : α) :
    ∃ buff', store fault buff path.length a = .ok buff' ∧ Holds (path ++ [a]) max buff' := by
  have hlt : path.length < buff.length := Nat.lt_of_lt_of_le hroom h.room
  refine ⟨buff.set path.length (some a), by rw [PathBuffer.store, if_pos hlt], ?_, ?_⟩
  · have hset : (buff.set path.length (some a))[path.length]? = some (some a) := by
      rw [getElem?_set_self hlt]
    rw [length_append, length_singleton, take_add_one, hset, take_set_of_le
      (Nat.le_refl _), h.path, map_append]
    rfl
  · rw [length_set]
    exact h.room

end PathBuffer

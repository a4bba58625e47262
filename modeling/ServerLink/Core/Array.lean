import Mathlib.Data.List.Nodup

/-!
# ServerLink.Core.Array

The array of pointers with constant-time removal (`array.hpp`). An item stores its own
position (`_array_index`); the array keeps that up to date in every move. Positions are
in range wherever the source uses them, and so they are in the lemmas below.
-/

namespace ServerLink

open List

/-- `array_t`, with the `_array_index` of the items. -/
structure ArrayT (α : Type) where
  items : List α
  index : α → Nat

namespace ArrayT

variable {α : Type} [DecidableEq α]
variable {i j : Nat}

def empty : ArrayT α := ⟨[], fun _ => 0⟩

def size (a : ArrayT α) : Nat := a.items.length

def pushBack (a : ArrayT α) (x : α) : ArrayT α :=
  ⟨a.items ++ [x], fun y => if y = x then a.items.length else a.index y⟩

def swap (a : ArrayT α) (i j : Nat) : ArrayT α :=
  match a.items[i]?, a.items[j]? with
  | some x, some y =>
    ⟨(a.items.set i y).set j x,
      -- The index of the second item is written last.
      fun z => if z = y then i else if z = x then j else a.index z⟩
  | _, _ => a

def erase (a : ArrayT α) (x : α) : ArrayT α :=
  match a.items.getLast? with
  | none => a
  | some back =>
    ⟨(a.items.set (a.index x) back).dropLast, fun y => if y = back then a.index x else a.index y⟩

/-- Every item stores its position. -/
def Ok (a : ArrayT α) : Prop := ∀ i x, a.items[i]? = some x → a.index x = i

variable {a : ArrayT α}

omit [DecidableEq α] in
/-- The index that is stored with an item is its position. -/
theorem Ok.getElem?_index (h : a.Ok) {x : α} (hx : x ∈ a.items) : a.items[a.index x]? = some x := by
  obtain ⟨i, hi⟩ := mem_iff_getElem?.mp hx
  rw [h i x hi, hi]

omit [DecidableEq α] in
theorem Ok.index_lt (h : a.Ok) {x : α} (hx : x ∈ a.items) : a.index x < a.size :=
  (List.getElem?_eq_some_iff.mp (h.getElem?_index hx)).1

omit [DecidableEq α] in
theorem Ok.eq_iff_index (h : a.Ok) {x : α} (hx : x ∈ a.items)
    {hi : i < a.items.length} : x = a.items[i] ↔ a.index x = i := by
  constructor
  · rintro rfl
    exact h i _ (getElem?_eq_getElem hi)
  intro hxi
  have := h.getElem?_index hx
  rw [hxi, getElem?_eq_getElem hi] at this
  exact (Option.some.inj this).symm

omit [DecidableEq α] in
/-- An item stores one index, so it has one position. -/
theorem Ok.nodup (h : a.Ok) : a.items.Nodup := by
  rw [nodup_iff_getElem?_ne_getElem?]
  intro i j hij hj heq
  have hi : i < a.items.length := by omega
  have h1 := h i _ (getElem?_eq_getElem hi)
  have h2 := h j _ (getElem?_eq_getElem hj)
  rw [getElem?_eq_getElem hi, getElem?_eq_getElem hj] at heq
  rw [Option.some.inj heq] at h1
  omega

omit [DecidableEq α] in
theorem empty_ok : (empty : ArrayT α).Ok := by
  intro i x h
  simp [empty] at h

/-! ### Appending -/

@[simp] theorem pushBack_items (x : α) : (a.pushBack x).items = a.items ++ [x] := rfl

@[simp] theorem size_pushBack (x : α) : (a.pushBack x).size = a.size + 1 := by
  simp [size]

theorem Ok.pushBack (h : a.Ok) {x : α} (hx : x ∉ a.items) : (a.pushBack x).Ok := by
  intro i y hi
  simp only [ArrayT.pushBack] at hi ⊢
  rcases Nat.lt_or_ge i a.items.length with hlt | hge
  · rw [List.getElem?_append_left hlt] at hi
    have hne : y ≠ x := fun heq => hx (heq ▸ List.mem_of_getElem? hi)
    rw [if_neg hne]
    exact h i y hi
  rw [List.getElem?_append_right hge] at hi
  obtain ⟨hlt, heq⟩ := List.getElem?_eq_some_iff.mp hi
  simp only [List.length_singleton] at hlt
  rw [List.getElem_singleton] at heq
  rw [if_pos heq.symm]
  omega

/-! ### Swapping -/

@[simp] theorem size_swap (i j : Nat) : (a.swap i j).size = a.size := by
  unfold swap size
  split <;> simp

/-- Only the two positions change. -/
theorem getElem?_swap (hi : i < a.size) (hj : j < a.size) (k : Nat) :
    (a.swap i j).items[k]? =
      if k = j then a.items[i]? else if k = i then a.items[j]? else a.items[k]? := by
  unfold size at hi hj
  unfold swap
  rw [getElem?_eq_getElem hi, getElem?_eq_getElem hj]
  simp only [getElem?_set, length_set, hi, hj, if_true, eq_comm (b := k)]

theorem swap_self (a : ArrayT α) (i : Nat) : (a.swap i i).items = a.items := by
  unfold swap
  cases hi : a.items[i]? with
  | none => rfl
  | some x =>
    obtain ⟨hlt, rfl⟩ := List.getElem?_eq_some_iff.mp hi
    simp

theorem mem_swap (hi : i < a.size) (hj : j < a.size) {x : α} :
    x ∈ (a.swap i j).items ↔ x ∈ a.items := by
  rw [mem_iff_getElem?, mem_iff_getElem?]
  constructor
  · rintro ⟨k, hk⟩
    rw [getElem?_swap hi hj] at hk
    split at hk
    · exact ⟨i, hk⟩
    · split at hk
      · exact ⟨j, hk⟩
      · exact ⟨k, hk⟩
  rintro ⟨k, hk⟩
  by_cases hki : k = i
  · exact ⟨j, by rw [getElem?_swap hi hj, if_pos rfl, ← hki, hk]⟩
  by_cases hkj : k = j
  · refine ⟨i, ?_⟩
    rw [getElem?_swap hi hj]
    split
    · rename_i hij
      rw [hij, ← hkj, hk]
    · rw [if_pos rfl, ← hkj, hk]
  · exact ⟨k, by rw [getElem?_swap hi hj, if_neg hkj, if_neg hki, hk]⟩

/-- `swap` exchanges the stored indices as well. -/
theorem Ok.swap (h : a.Ok) (hi : i < a.size) (hj : j < a.size) : (a.swap i j).Ok := by
  intro k z hk
  have hz : z ∈ a.items := (mem_swap hi hj).mp (mem_of_getElem? hk)
  rw [getElem?_swap hi hj] at hk
  unfold size at hi hj
  unfold ArrayT.swap
  rw [getElem?_eq_getElem hi, getElem?_eq_getElem hj]
  -- The index of `z` before the swap says which of the three cases applies.
  simp only [h.eq_iff_index hz]
  by_cases hkj : k = j
  · rw [if_pos hkj] at hk
    rw [h _ _ hk, if_pos rfl, hkj]
    split
    · assumption
    · rfl
  rw [if_neg hkj] at hk
  by_cases hki : k = i
  · rw [if_pos hki] at hk
    rw [h _ _ hk, if_pos rfl, hki]
  · rw [if_neg hki] at hk
    rw [h _ _ hk, if_neg hkj, if_neg hki]

theorem Ok.index_swap (h : a.Ok) (hi : i < a.size) (hj : j < a.size) {x : α} (hx : x ∈ a.items) :
    (a.swap i j).index x = if a.index x = j then i else if a.index x = i then j else a.index x := by
  unfold size at hi hj
  unfold ArrayT.swap
  rw [getElem?_eq_getElem hi, getElem?_eq_getElem hj]
  simp only [h.eq_iff_index hx]

theorem Ok.swap_comm (h : a.Ok) (i j : Nat) : a.swap i j = a.swap j i := by
  unfold ArrayT.swap
  cases hi : a.items[i]? with
  | none => cases a.items[j]? <;> rfl
  | some x =>
    cases hj : a.items[j]? with
    | none => rfl
    | some y =>
      have hix := h i x hi
      have hjy := h j y hj
      by_cases hxy : x = y
      · subst hxy
        obtain rfl : i = j := hix.symm.trans hjy
        rfl
      have hij : i ≠ j := by
        rintro rfl
        rw [hi] at hj
        exact hxy (Option.some.inj hj)
      simp only [ArrayT.mk.injEq]
      refine ⟨set_comm _ _ hij, funext fun z => ?_⟩
      by_cases hzx : z = x
      · subst hzx
        simp [hxy]
      · simp [hzx]

theorem Ok.swap_same (h : a.Ok) (i : Nat) : a.swap i i = a := by
  have hitems := a.swap_self i
  unfold ArrayT.swap at hitems ⊢
  cases hi : a.items[i]? with
  | none => rfl
  | some x =>
    rw [hi] at hitems
    dsimp only at hitems ⊢
    congr 1
    funext z
    split
    · rename_i hz
      rw [hz, h i x hi]
    · rfl

/-! ### Removing -/

section Erase

variable {x : α} (h : a.Ok) (hx : x ∈ a.items)

include h hx

omit [DecidableEq α] in
/-- The last item, which `erase` moves into the gap. -/
theorem Ok.getLast?_eq : ∃ back, a.items.getLast? = some back ∧
    a.items[a.size - 1]? = some back ∧ a.index back = a.size - 1 := by
  have hlast : a.size - 1 < a.items.length := Nat.sub_lt (length_pos_of_mem hx) Nat.one_pos
  have hback := getElem?_eq_getElem hlast
  refine ⟨_, ?_, hback, h _ _ hback⟩
  rw [getLast?_eq_getElem?]
  exact hback

@[simp] theorem Ok.size_erase : (a.erase x).size = a.size - 1 := by
  obtain ⟨back, hlast, -⟩ := h.getLast?_eq hx
  unfold ArrayT.erase
  rw [hlast]
  simp [size]

/-- The last item takes the place of the one that is erased. -/
theorem Ok.getElem?_erase (k : Nat) :
    (a.erase x).items[k]? =
      if k < a.size - 1 then
        if k = a.index x then a.items[a.size - 1]? else a.items[k]?
      else none := by
  obtain ⟨back, hlast, hget, -⟩ := h.getLast?_eq hx
  have hlt := h.index_lt hx
  unfold ArrayT.erase
  rw [hlast, hget]
  unfold size at hlt ⊢
  rw [getElem?_dropLast, length_set]
  split
  · rw [getElem?_set, if_pos hlt]
    simp only [eq_comm]
  · rfl

theorem Ok.mem_erase {y : α} : y ∈ (a.erase x).items ↔ y ∈ a.items ∧ y ≠ x := by
  have hlt := h.index_lt hx
  rw [mem_iff_getElem?]
  constructor
  · rintro ⟨k, hk⟩
    rw [h.getElem?_erase hx] at hk
    split at hk
    · split at hk
      · rename_i hk1 hk2
        refine ⟨mem_of_getElem? hk, ?_⟩
        rintro rfl
        have := h _ _ hk
        omega
      · rename_i hk1 hk2
        refine ⟨mem_of_getElem? hk, ?_⟩
        rintro rfl
        exact hk2 (h _ _ hk).symm
    · cases hk
  · rintro ⟨hy, hne⟩
    have hyx : a.index y ≠ a.index x := by
      intro heq
      have h1 := h.getElem?_index hy
      rw [heq, h.getElem?_index hx] at h1
      exact hne (Option.some.inj h1).symm
    have hylt := h.index_lt hy
    by_cases hend : a.index y = a.size - 1
    · refine ⟨a.index x, ?_⟩
      rw [h.getElem?_erase hx, if_pos (by omega), if_pos rfl, ← hend, h.getElem?_index hy]
    · refine ⟨a.index y, ?_⟩
      rw [h.getElem?_erase hx, if_pos (by omega), if_neg hyx, h.getElem?_index hy]

theorem Ok.index_erase {y : α} (hy : y ∈ a.items) :
    (a.erase x).index y = if a.index y = a.size - 1 then a.index x else a.index y := by
  obtain ⟨back, hlast, hget, hback⟩ := h.getLast?_eq hx
  have hyback : y = back ↔ a.index y = a.size - 1 := by
    constructor
    · rintro rfl
      exact hback
    intro hidx
    have hself := h.getElem?_index hy
    rw [hidx, hget] at hself
    exact (Option.some.inj hself).symm
  unfold ArrayT.erase
  rw [hlast]
  simp only [hyback]

theorem Ok.erase : (a.erase x).Ok := by
  intro k y hk
  have hy : y ∈ a.items := ((h.mem_erase hx).mp (mem_of_getElem? hk)).1
  rw [h.getElem?_erase hx] at hk
  rw [h.index_erase hx hy]
  split at hk
  · split at hk
    · rename_i hk2
      rw [h _ _ hk, if_pos rfl, hk2]
    · rw [h _ _ hk, if_neg (by omega)]
  · cases hk

/-- An item of the first `j + 1` is moved to their end before it is erased, so that the others
stay among the first `j`. -/
theorem Ok.swap_erase (hj : j < a.size) :
    ((a.swap (a.index x) j).erase x).Ok ∧ ((a.swap (a.index x) j).erase x).size = a.size - 1 ∧
      (∀ y, y ∈ ((a.swap (a.index x) j).erase x).items ↔ y ∈ a.items ∧ y ≠ x) ∧
      ∀ k < j, ((a.swap (a.index x) j).erase x).items[k]? =
        if k = a.index x then a.items[j]? else a.items[k]? := by
  have hlt := h.index_lt hx
  have hswap := h.swap hlt hj
  have hmem : x ∈ (a.swap (a.index x) j).items := (mem_swap hlt hj).mpr hx
  have hget : (a.swap (a.index x) j).items[j]? = some x := by
    rw [getElem?_swap hlt hj, if_pos rfl, h.getElem?_index hx]
  refine ⟨hswap.erase hmem, by rw [hswap.size_erase hmem, size_swap], fun y => ?_, fun k hk => ?_⟩
  · rw [hswap.mem_erase hmem, mem_swap hlt hj]
  · rw [hswap.getElem?_erase hmem, if_pos (by rw [size_swap]; omega), hswap j x hget,
      if_neg (by omega), getElem?_swap hlt hj, if_neg (by omega)]

end Erase

/-! ### The items of the first positions -/

/-- The item is one of the first `n`. -/
def Within (a : ArrayT α) (n : Nat) (x : α) : Prop := x ∈ a.items ∧ a.index x < n

section Within

variable {x y : α} {n : Nat} (h : a.Ok)

include h

omit [DecidableEq α] in
/-- The index tells the items apart. -/
theorem Ok.eq_of_index_eq (hx : x ∈ a.items) (hy : y ∈ a.items) (heq : a.index x = a.index y) :
    x = y := by
  have hself := h.getElem?_index hx
  rw [heq, h.getElem?_index hy] at hself
  exact (Option.some.inj hself).symm

/-- A swap inside or outside of the first positions. -/
theorem Ok.within_swap (hi : i < a.size) (hj : j < a.size) (hn : i < n ↔ j < n) :
    (a.swap i j).Within n y ↔ a.Within n y := by
  unfold Within
  rw [mem_swap hi hj]
  refine and_congr_right fun hy => ?_
  rw [h.index_swap hi hj hy]
  split_ifs <;> omega

/-- An item is moved behind the first positions, and there is one more of them. -/
theorem Ok.within_moveIn (hx : x ∈ a.items) (hn : n ≤ a.index x) :
    (a.swap (a.index x) n).Within (n + 1) y ↔ a.Within n y ∨ y = x := by
  have hlt := h.index_lt hx
  have hnlt : n < a.size := Nat.lt_of_le_of_lt hn hlt
  unfold Within
  rw [mem_swap hlt hnlt]
  by_cases hyx : y = x
  · subst hyx
    rw [h.index_swap hlt hnlt hx]
    simp only [hx, true_and, or_true, iff_true]
    split_ifs <;> omega
  simp only [hyx, or_false]
  refine and_congr_right fun hy => ?_
  have hne : a.index y ≠ a.index x := fun heq => hyx (h.eq_of_index_eq hy hx heq)
  rw [h.index_swap hlt hnlt hy]
  split_ifs <;> omega

/-- The item leaves the first `n`, and no other does. -/
theorem Ok.within_moveOut (hx : a.Within n x) (hn : n ≤ a.size) :
    (a.swap (a.index x) (n - 1)).Within (n - 1) y ↔ a.Within n y ∧ y ≠ x := by
  obtain ⟨hx, hxn⟩ := hx
  have hlt := h.index_lt hx
  have hnlt : n - 1 < a.size := by omega
  unfold Within
  rw [mem_swap hlt hnlt]
  by_cases hyx : y = x
  · subst hyx
    rw [h.index_swap hlt hnlt hx]
    simp only [hx, true_and, ne_eq, not_true_eq_false, and_false, iff_false]
    split_ifs <;> omega
  simp only [hyx, ne_eq, not_false_eq_true, and_true]
  refine and_congr_right fun hy => ?_
  have hne : a.index y ≠ a.index x := fun heq => hyx (h.eq_of_index_eq hy hx heq)
  rw [h.index_swap hlt hnlt hy]
  split_ifs <;> omega

/-- What is erased behind the first `n` is not missed there. -/
theorem Ok.within_erase (hx : x ∈ a.items) (hn : n ≤ a.index x) :
    (a.erase x).Within n y ↔ a.Within n y := by
  have hlt := h.index_lt hx
  unfold Within
  rw [h.mem_erase hx]
  constructor
  · intro ⟨⟨hy, hne⟩, hidx⟩
    rw [h.index_erase hx hy] at hidx
    refine ⟨hy, ?_⟩
    split at hidx <;> omega
  intro ⟨hy, hidx⟩
  refine ⟨⟨hy, ?_⟩, ?_⟩
  · rintro rfl
    omega
  · rw [h.index_erase hx hy]
    split <;> omega

omit h in
theorem within_pushBack (hx : x ∉ a.items) (hn : n ≤ a.size) :
    (a.pushBack x).Within n y ↔ a.Within n y := by
  unfold Within
  simp only [pushBack, mem_append, mem_singleton]
  by_cases hyx : y = x
  · subst hyx
    simp only [or_true, if_true, true_and, hx, false_and, iff_false, Nat.not_lt]
    exact hn
  · simp [hyx]

end Within

end ArrayT

end ServerLink

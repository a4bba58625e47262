import Mathlib.Data.List.Induction
import Mathlib.Tactic.Common

/-!
# Tables with an offset

A partial map from small numbers to `α`, stored as a list of slots for the indices
`min`, `min + 1`, …. The table grows when an index outside its range is used
(`cover`), and empty slots can be trimmed from both ends. A table is tight when its
first and its last slot are in use, so that a tight table with a live entry cannot be
trimmed.
-/

structure OffsetTable (α : Type) where
  min : Nat
  slots : List (Option α)

namespace OffsetTable

open List

variable {α : Type}
variable {t : OffsetTable α} {i : Nat} {a : α}

/-- The entry at index `i`. -/
def get (t : OffsetTable α) (i : Nat) : Option α :=
  if i < t.min then none else (t.slots[i - t.min]?).join

/-- The number of entries. -/
def live (t : OffsetTable α) : Nat := t.slots.countP Option.isSome

/-- The first index behind the table. -/
def stop (t : OffsetTable α) : Nat := t.min + t.slots.length

/-- The index lies in the range of the table. -/
def Covers (t : OffsetTable α) (i : Nat) : Prop := t.min ≤ i ∧ i < t.stop

instance (t : OffsetTable α) (i : Nat) : Decidable (t.Covers i) :=
  inferInstanceAs (Decidable (_ ∧ _))

/-- Extend the range so that it includes `i`. -/
def cover (t : OffsetTable α) (i : Nat) : OffsetTable α :=
  if t.slots = [] then ⟨i, [none]⟩
  else if i < t.min then ⟨i, replicate (t.min - i) none ++ t.slots⟩
  else if t.stop ≤ i then ⟨t.min, t.slots ++ replicate (i + 1 - t.stop) none⟩
  else t

/-- Store an entry at an index in the range. -/
def set (t : OffsetTable α) (i : Nat) (o : Option α) : OffsetTable α :=
  { t with slots := t.slots.set (i - t.min) o }

/-- Both ends of the table are in use. -/
def Tight (t : OffsetTable α) : Prop :=
  t.slots ≠ [] → (t.get t.min).isSome = true ∧ (t.get (t.stop - 1)).isSome = true

/-- Remove the empty slots at the beginning. -/
def trimLeft (t : OffsetTable α) : OffsetTable α :=
  ⟨t.min + (t.slots.takeWhile Option.isNone).length, t.slots.dropWhile Option.isNone⟩

/-- Remove the empty slots at the end. -/
def trimRight (t : OffsetTable α) : OffsetTable α :=
  ⟨t.min, (t.slots.reverse.dropWhile Option.isNone).reverse⟩

/-! ### Looking up -/

theorem get_of_not_covers (h : ¬ t.Covers i) : t.get i = none := by
  unfold get
  by_cases hlt : i < t.min
  · rw [if_pos hlt]
  have hlen : t.slots.length ≤ i - t.min := by
    unfold Covers stop at h
    omega
  rw [if_neg hlt, getElem?_eq_none hlen]
  rfl

theorem covers_of_get (h : t.get i = some a) : t.Covers i := by
  by_contra hc
  rw [get_of_not_covers hc] at h
  cases h

theorem get_of_covers (h : t.Covers i) : t.get i = (t.slots[i - t.min]?).join := by
  unfold get
  rw [if_neg (Nat.not_lt.mpr h.1)]

theorem get_nil (m i : Nat) : get (⟨m, []⟩ : OffsetTable α) i = none := by
  simp [get]

theorem get_eq_some_iff : t.get i = some a ↔ t.min ≤ i ∧ t.slots[i - t.min]? = some (some a) := by
  unfold get
  by_cases h : i < t.min
  · rw [if_pos h]
    constructor
    · intro h'
      cases h'
    · rintro ⟨h', -⟩
      omega
  · rw [if_neg h, Option.join_eq_some_iff]
    exact ⟨fun h' => ⟨Nat.not_lt.mp h, h'⟩, fun h' => h'.2⟩

theorem mem_of_get (h : t.get i = some a) : some a ∈ t.slots :=
  mem_of_getElem? (get_eq_some_iff.mp h).2

theorem exists_get_of_mem (h : some a ∈ t.slots) : ∃ i, t.get i = some a := by
  obtain ⟨k, hk⟩ := mem_iff_getElem?.mp h
  exact ⟨t.min + k, get_eq_some_iff.mpr ⟨Nat.le_add_right _ _, by rwa [Nat.add_sub_cancel_left]⟩⟩

theorem live_pos_of_get (h : t.get i = some a) : 0 < t.live :=
  countP_pos_iff.mpr ⟨some a, mem_of_get h, rfl⟩

/-! ### Extending -/

theorem covers_cover (t : OffsetTable α) (i : Nat) : (t.cover i).Covers i := by
  unfold cover
  split
  · exact ⟨Nat.le_refl _, Nat.lt_succ_self _⟩
  rename_i hne
  split
  · simp only [Covers, stop, length_append, length_replicate]
    omega
  split
  · simp only [Covers, stop, length_append, length_replicate] at *
    omega
  · simp only [Covers]
    omega

theorem get_cover (t : OffsetTable α) (i j : Nat) : (t.cover i).get j = t.get j := by
  unfold cover
  split
  · rename_i hnil
    obtain ⟨m, s⟩ := t
    obtain rfl : s = [] := hnil
    rw [get_nil]
    unfold get
    split
    · rfl
    · cases hj : j - i <;> simp
  split
  · unfold get
    by_cases h1 : j < i
    · rw [if_pos h1, if_pos (by omega)]
    rw [if_neg h1]
    by_cases h2 : j < t.min
    · rw [if_pos h2, getElem?_append_left (by simp; omega)]
      simp [show j - i < t.min - i by omega]
    rw [if_neg h2, getElem?_append_right (by simp; omega)]
    congr 2
    simp
    omega
  split
  · rename_i h1 h2
    unfold get
    dsimp only
    split
    · rfl
    by_cases h3 : j - t.min < t.slots.length
    · rw [getElem?_append_left h3]
    rw [getElem?_append_right (by omega), getElem?_eq_none (by omega : t.slots.length ≤ j - t.min)]
    simp only [getElem?_replicate]
    split <;> rfl
  · rfl

theorem live_cover (t : OffsetTable α) (i : Nat) : (t.cover i).live = t.live := by
  unfold cover live
  split
  · rename_i hnil
    simp [hnil]
  split
  · simp [countP_replicate]
  · split
    · simp [countP_replicate]
    · rfl

theorem stop_cover_le (t : OffsetTable α) {n : Nat} (ht : t.stop ≤ n) (hi : i < n) :
    (t.cover i).stop ≤ n := by
  unfold cover
  split
  · exact hi
  split
  · simp only [stop, length_append, length_replicate] at *
    omega
  split
  · simp only [stop, length_append, length_replicate] at *
    omega
  · exact ht

/-! ### Storing -/

@[simp] theorem set_min (t : OffsetTable α) (i : Nat) (o : Option α) : (t.set i o).min = t.min :=
  rfl

@[simp] theorem stop_set (t : OffsetTable α) (i : Nat) (o : Option α) :
    (t.set i o).stop = t.stop := by
  simp [stop, set]

theorem get_set (h : t.Covers i) (o : Option α) (j : Nat) :
    (t.set i o).get j = if j = i then o else t.get j := by
  have hlt : i - t.min < t.slots.length := by
    unfold Covers stop at h
    omega
  unfold get set
  by_cases hj : j = i
  · subst hj
    rw [if_neg (Nat.not_lt.mpr h.1), getElem?_set_self hlt, if_pos rfl]
    rfl
  rw [if_neg hj]
  by_cases hlow : j < t.min
  · rw [if_pos hlow, if_pos hlow]
  have hne : i - t.min ≠ j - t.min := by
    have := h.1
    omega
  rw [if_neg hlow, if_neg hlow, getElem?_set_ne hne]

theorem live_set (h : t.Covers i) (o : Option α) :
    (t.set i o).live + (if (t.get i).isSome then 1 else 0) =
      t.live + (if o.isSome then 1 else 0) := by
  have hlt : i - t.min < t.slots.length := by
    unfold Covers stop at h
    omega
  have hget : t.get i = t.slots[i - t.min] := by
    rw [get_of_covers h, getElem?_eq_getElem hlt]
    rfl
  have hle : t.slots[i - t.min].isSome = true → 0 < t.slots.countP Option.isSome := fun hs =>
    countP_pos_iff.mpr ⟨_, getElem_mem hlt, hs⟩
  unfold live set
  rw [hget, countP_set hlt]
  split
  · rename_i hs
    have := hle hs
    omega
  · omega

theorem live_set_none (h : t.get i = some a) : (t.set i none).live + 1 = t.live := by
  have := live_set (covers_of_get h) none
  simpa [h] using this

theorem two_le_live {j : Nat} {b : α} (hi : t.get i = some a) (hj : t.get j = some b)
    (hne : j ≠ i) : 2 ≤ t.live := by
  have h1 := live_set_none hi
  have h2 : (t.set i none).get j = some b := by rw [get_set (covers_of_get hi), if_neg hne, hj]
  have := live_pos_of_get h2
  omega

theorem get_singleton (m i : Nat) (o : Option α) : get ⟨m, [o]⟩ i = if i = m then o else none := by
  unfold get
  dsimp only
  by_cases h : i = m
  · subst h
    simp
  rw [if_neg h]
  split
  · rfl
  · rw [getElem?_eq_none (by simp; omega)]
    rfl

theorem tight_cover_set (ht : t.Tight) (i : Nat) (a : α) : ((t.cover i).set i (some a)).Tight := by
  intro _
  have hcov := covers_cover t i
  rw [set_min, stop_set, get_set hcov, get_set hcov, get_cover, get_cover]
  -- An end of the extended table is the new index or an end of the old table.
  have hmin : (t.cover i).min = i ∨ (t.cover i).min = t.min ∧ t.slots ≠ [] := by
    unfold cover
    split
    · exact Or.inl rfl
    rename_i hne
    split
    · exact Or.inl rfl
    · split <;> exact Or.inr ⟨rfl, hne⟩
  have hstop : (t.cover i).stop - 1 = i ∨ (t.cover i).stop = t.stop ∧ t.slots ≠ [] := by
    unfold cover
    split
    · exact Or.inl rfl
    rename_i hne
    split
    · refine Or.inr ⟨?_, hne⟩
      simp only [stop, length_append, length_replicate]
      omega
    split
    · refine Or.inl ?_
      simp only [stop, length_append, length_replicate] at *
      omega
    · exact Or.inr ⟨rfl, hne⟩
  constructor
  · rcases hmin with h | ⟨h, hne⟩
    · simp [h]
    rw [h]
    split
    · rfl
    · exact (ht hne).1
  rcases hstop with h | ⟨h, hne⟩
  · simp [h]
  rw [h]
  split
  · rfl
  · exact (ht hne).2

/-! ### Trimming -/

theorem isSome_head_dropWhile {l : List (Option α)} (h : l.dropWhile Option.isNone ≠ []) :
    (((l.dropWhile Option.isNone)[0]?).join).isSome = true := by
  induction l with
  | nil => exact absurd rfl h
  | cons o l ih =>
    cases o with
    | none => simpa using ih (by simpa using h)
    | some a => simp

theorem get_trimLeft (t : OffsetTable α) (i : Nat) : t.trimLeft.get i = t.get i := by
  obtain ⟨m, s⟩ := t
  unfold trimLeft get
  dsimp only
  induction s generalizing m with
  | nil => simp
  | cons o s ih =>
    cases o with
    | some a => simp
    | none =>
      have h := ih (m + 1)
      simp only [takeWhile_cons, dropWhile_cons, Option.isNone_none, if_true, length_cons]
      rw [show m + ((s.takeWhile Option.isNone).length + 1) =
        m + 1 + (s.takeWhile Option.isNone).length by omega, h]
      by_cases h1 : i < m
      · rw [if_pos h1, if_pos (by omega)]
      rw [if_neg h1]
      by_cases h2 : i < m + 1
      · rw [if_pos h2, show i - m = 0 by omega]
        rfl
      · rw [if_neg h2, show i - m = (i - (m + 1)) + 1 by omega, getElem?_cons_succ]

theorem live_trimLeft (t : OffsetTable α) : t.trimLeft.live = t.live := by
  obtain ⟨m, s⟩ := t
  unfold trimLeft live
  induction s with
  | nil => rfl
  | cons o s ih =>
    cases o with
    | none => simpa using ih
    | some a => simp

theorem stop_trimLeft (t : OffsetTable α) : t.trimLeft.stop = t.stop := by
  have h := congrArg length (takeWhile_append_dropWhile (p := Option.isNone) (l := t.slots))
  rw [length_append] at h
  simp only [trimLeft, stop]
  omega

/-- The list without its empty slots at the end. -/
theorem reverse_dropWhile_concat_none (l : List (Option α)) :
    ((l ++ [none]).reverse.dropWhile Option.isNone).reverse =
      (l.reverse.dropWhile Option.isNone).reverse := by
  simp

theorem reverse_dropWhile_concat_some (l : List (Option α)) (a : α) :
    ((l ++ [some a]).reverse.dropWhile Option.isNone).reverse = l ++ [some a] := by
  simp

theorem get_trimRight (t : OffsetTable α) (i : Nat) : t.trimRight.get i = t.get i := by
  obtain ⟨m, s⟩ := t
  unfold trimRight get
  dsimp only
  induction s using reverseRecOn with
  | nil => simp
  | append_singleton s o ih =>
    cases o with
    | some a => rw [reverse_dropWhile_concat_some]
    | none =>
      rw [reverse_dropWhile_concat_none, ih]
      split
      · rfl
      by_cases h : i - m < s.length
      · rw [getElem?_append_left h]
      · rw [getElem?_append_right (by omega), getElem?_eq_none (by omega : s.length ≤ i - m)]
        cases i - m - s.length <;> simp

theorem live_trimRight (t : OffsetTable α) : t.trimRight.live = t.live := by
  obtain ⟨m, s⟩ := t
  unfold trimRight live
  induction s using reverseRecOn with
  | nil => rfl
  | append_singleton s o ih =>
    cases o with
    | some a => rw [reverse_dropWhile_concat_some]
    | none =>
      rw [reverse_dropWhile_concat_none, ih]
      simp

theorem stop_trimRight_le (t : OffsetTable α) : t.trimRight.stop ≤ t.stop := by
  have h := (dropWhile_sublist (l := t.slots.reverse) Option.isNone).length_le
  simp only [trimRight, stop, length_reverse] at *
  omega

/-- The first slot that is left by trimming on the left is in use. -/
theorem isSome_get_trimLeft_min (h : 0 < t.live) : (t.get t.trimLeft.min).isSome = true := by
  have hne : t.slots.dropWhile Option.isNone ≠ [] := by
    intro hnil
    have hlive := live_trimLeft t
    simp only [live, trimLeft, hnil, countP_nil] at hlive
    unfold live at h
    omega
  have hhead := isSome_head_dropWhile hne
  rw [← get_trimLeft]
  simpa [get, trimLeft] using hhead

/-- The last slot that is left by trimming on the right is in use. -/
theorem isSome_get_trimRight_last (h : 0 < t.live) :
    (t.get (t.trimRight.stop - 1)).isSome = true := by
  have hne : t.slots.reverse.dropWhile Option.isNone ≠ [] := by
    intro hnil
    have hlive := live_trimRight t
    simp only [live, trimRight, hnil, reverse_nil, countP_nil] at hlive
    unfold live at h
    omega
  have hhead := isSome_head_dropWhile hne
  have hpos := length_pos_iff.mpr hne
  rw [← get_trimRight]
  unfold trimRight get stop
  rw [if_neg (by simp; omega), getElem?_reverse (by simp; omega)]
  rw [show (t.slots.reverse.dropWhile Option.isNone).length - 1 -
    (t.min + (t.slots.reverse.dropWhile Option.isNone).reverse.length - 1 - t.min) = 0 by
      simp only [length_reverse]
      omega]
  exact hhead

/-- Two entries are at different places. -/
theorem trimLeft_min_lt_trimRight_last (h : 1 < t.live) :
    t.trimLeft.min < t.trimRight.stop - 1 := by
  have hlive : t.trimLeft.trimRight.live = t.live := by rw [live_trimRight, live_trimLeft]
  have hlen : t.trimLeft.trimRight.live ≤ t.trimLeft.trimRight.slots.length := countP_le_length
  have hstop : t.trimLeft.trimRight.stop = t.trimLeft.min + t.trimLeft.trimRight.slots.length :=
    rfl
  -- The last entry of what is left is at one of the places up to the last entry.
  obtain ⟨a, ha⟩ := Option.isSome_iff_exists.mp
    (isSome_get_trimRight_last (t := t.trimLeft) (by rw [live_trimLeft]; omega))
  have hlast := (covers_of_get ((get_trimRight t _).trans ((get_trimLeft t _).symm.trans ha))).2
  omega

theorem tight_trimLeft (h : (t.get (t.stop - 1)).isSome = true) :
    t.trimLeft.Tight := by
  obtain ⟨a, ha⟩ := Option.isSome_iff_exists.mp h
  intro _
  rw [get_trimLeft, get_trimLeft, stop_trimLeft]
  exact ⟨isSome_get_trimLeft_min (live_pos_of_get ha), h⟩

theorem tight_trimRight (h : (t.get t.min).isSome = true) :
    t.trimRight.Tight := by
  obtain ⟨a, ha⟩ := Option.isSome_iff_exists.mp h
  intro _
  rw [get_trimRight, get_trimRight]
  exact ⟨h, isSome_get_trimRight_last (live_pos_of_get ha)⟩

end OffsetTable

import Mathlib.Data.List.Forall2
import Mathlib.Data.List.Infix
import Mathlib.Data.List.Nodup
import ServerLink.Lib.Radix

/-!
# Walks through byte tries

Searching along a key (`alongPath`), listing all the keys with a value (`entries`),
and changing all the values at once (`sweep`), each with its meaning in terms of
`valueAt`.
-/

namespace Radix

open List OffsetTable

variable {V ε : Type}

namespace Node

variable {dflt : V}

/-! ### Searching and listing -/

/-- The values stored at the prefixes of the data, shortest first. -/
def alongPath [DecidableEq V] (dflt : V) : Node V → List UInt8 → List V
  | n, [] => if n.val = dflt then [] else [n.val]
  | n, c :: k =>
    (if n.val = dflt then [] else [n.val]) ++
      match n.table.get c.toNat with
      | none => []
      | some t => alongPath dflt t k

/-- A value is met on the way to a key iff a prefix of the key has it. -/
theorem mem_alongPath [DecidableEq V] {v : V} :
    ∀ {k : List UInt8} {n : Node V},
      v ∈ alongPath dflt n k ↔ v ≠ dflt ∧ ∃ p, p <+: k ∧ n.valueAt dflt p = v := by
  intro k
  have hown : ∀ n : Node V, v ∈ (if n.val = dflt then [] else [n.val]) ↔ v ≠ dflt ∧ n.val = v := by
    intro n
    by_cases hv : n.val = dflt
    · simp only [if_pos hv, not_mem_nil, false_iff, not_and]
      intro hne heq
      exact hne (heq.symm.trans hv)
    · simp only [if_neg hv, mem_singleton]
      exact ⟨fun h => ⟨h ▸ hv, h.symm⟩, fun h => h.2.symm⟩
  induction k with
  | nil =>
    intro n
    rw [alongPath, hown]
    simp
  | cons c k ih =>
    intro n
    rw [alongPath, mem_append, hown]
    constructor
    · rintro (⟨hne, hv⟩ | hmem)
      · exact ⟨hne, [], nil_prefix, hv⟩
      cases hget : n.table.get c.toNat with
      | none => simp [hget] at hmem
      | some t =>
        simp only [hget] at hmem
        obtain ⟨hne, p, hp, hv⟩ := ih.mp hmem
        exact ⟨hne, c :: p, cons_prefix_cons.mpr ⟨rfl, hp⟩, by
          rw [valueAt_cons, hget]
          exact hv⟩
    rintro ⟨hne, p, hp, hv⟩
    cases p with
    | nil => exact Or.inl ⟨hne, hv⟩
    | cons x p =>
      obtain ⟨rfl, hp'⟩ := cons_prefix_cons.mp hp
      rw [valueAt_cons] at hv
      refine Or.inr ?_
      cases hget : n.table.get x.toNat with
      | none =>
        rw [hget] at hv
        exact absurd hv.symm hne
      | some t =>
        rw [hget] at hv
        exact ih.mpr ⟨hne, p, hp', hv⟩

mutual

/-- All the keys with a value, in the order of a walk through the tables. -/
def entries [DecidableEq V] (dflt : V) : Node V → List (List UInt8 × V)
  | mk v _ m s => (if v = dflt then [] else [([], v)]) ++ slotEntries dflt m s

def slotEntries [DecidableEq V] (dflt : V) :
    Nat → List (Option (Node V)) → List (List UInt8 × V)
  | _, [] => []
  | i, o :: os => childEntries dflt i o ++ slotEntries dflt (i + 1) os

def childEntries [DecidableEq V] (dflt : V) :
    Nat → Option (Node V) → List (List UInt8 × V)
  | _, none => []
  | i, some n => (entries dflt n).map fun e => (UInt8.ofNat i :: e.1, e.2)

end

theorem mem_slotEntries [DecidableEq V] {e : List UInt8 × V} :
    ∀ {s : List (Option (Node V))} {i : Nat},
      e ∈ slotEntries dflt i s ↔ ∃ j t, s[j]? = some (some t) ∧
        ∃ e' ∈ entries dflt t, e = (UInt8.ofNat (i + j) :: e'.1, e'.2) := by
  intro s
  induction s with
  | nil => intro i; simp [slotEntries]
  | cons o os ih =>
    intro i
    rw [slotEntries, mem_append, ih]
    constructor
    · rintro (h | ⟨j, t, hj, e', he', rfl⟩)
      · cases o with
        | none => simp [childEntries] at h
        | some t =>
          rw [childEntries, mem_map] at h
          obtain ⟨e', he', rfl⟩ := h
          exact ⟨0, t, rfl, e', he', rfl⟩
      · refine ⟨j + 1, t, hj, e', he', ?_⟩
        rw [show i + (j + 1) = i + 1 + j by omega]
    rintro ⟨j, t, hj, e', he', rfl⟩
    cases j with
    | zero =>
      cases hj
      refine Or.inl ?_
      rw [childEntries, mem_map]
      exact ⟨e', he', rfl⟩
    | succ j =>
      refine Or.inr ⟨j, t, hj, e', he', ?_⟩
      rw [show i + (j + 1) = i + 1 + j by omega]

/-- Each key with a value is listed, with that value. -/
theorem mem_entries [DecidableEq V] {n : Node V} (h : n.WF dflt) :
    ∀ {k : List UInt8} {v : V}, (k, v) ∈ entries dflt n ↔ n.valueAt dflt k = v ∧ v ≠ dflt := by
  induction h with
  | mk n table child useful ih =>
    intro k v
    obtain ⟨w, l, m, s⟩ := n
    rw [entries, List.mem_append, mem_slotEntries]
    cases k with
    | nil =>
      constructor
      · rintro (h | ⟨j, t, hj, e', he', heq⟩)
        · by_cases hw : w = dflt
          · simp [hw] at h
          · simp only [if_neg hw, List.mem_singleton, Prod.mk.injEq, true_and] at h
            exact ⟨h.symm, h ▸ hw⟩
        · simp at heq
      · rintro ⟨rfl, hne⟩
        exact Or.inl (by rw [if_neg (show ¬ w = dflt from hne)]; simp [Node.val])
    | cons c k =>
      have hleft : ¬ (c :: k, v) ∈ (if w = dflt then [] else [([], w)]) := by split <;> simp
      rw [valueAt_cons]
      constructor
      · rintro (h | ⟨j, t, hj, ⟨k', v'⟩, he', heq⟩)
        · exact absurd h hleft
        cases heq
        have hlt : m + j < 256 := by
          have h1 := table.stop_le
          have h2 := (List.getElem?_eq_some_iff.mp hj).1
          simp only [Node.table, stop] at h1
          omega
        have hget : (mk w l m s).table.get (m + j) = some t :=
          get_eq_some_iff.mpr ⟨Nat.le_add_right _ _, by
            simpa [Node.table] using hj⟩
        rw [UInt8.toNat_ofNat', Nat.mod_eq_of_lt hlt, hget]
        exact (ih _ _ hget).mp he'
      · rintro ⟨hv, hne⟩
        cases hget : (mk w l m s).table.get c.toNat with
        | none =>
          rw [hget] at hv
          exact absurd hv.symm hne
        | some t =>
          rw [hget] at hv
          obtain ⟨hle, hj⟩ := get_eq_some_iff.mp hget
          refine Or.inr ⟨c.toNat - m, t, hj, (k, v), (ih _ _ hget).mpr ⟨hv, hne⟩, ?_⟩
          simp only [Node.table] at hle
          rw [show m + (c.toNat - m) = c.toNat by omega, UInt8.ofNat_toNat]

/-- The keys of a table begin with the index of their slot. -/
theorem slotEntries_nodup [DecidableEq V] {s : List (Option (Node V))} :
    ∀ {i : Nat}, i + s.length ≤ 256 → (∀ t, some t ∈ s → ((entries dflt t).map Prod.fst).Nodup) →
      ((slotEntries dflt i s).map Prod.fst).Nodup := by
  induction s with
  | nil => intro i _ _; exact List.nodup_nil
  | cons o os ih =>
    intro i hlen hs
    rw [List.length_cons] at hlen
    rw [slotEntries, List.map_append, List.nodup_append]
    refine ⟨?_, ih (by omega) fun t ht => hs t (List.mem_cons_of_mem _ ht), ?_⟩
    · cases o with
      | none => exact List.nodup_nil
      | some t =>
        have hkeys : (childEntries dflt i (some t)).map Prod.fst =
            ((entries dflt t).map Prod.fst).map (UInt8.ofNat i :: ·) := by
          rw [childEntries, List.map_map, List.map_map]
          rfl
        rw [hkeys]
        exact List.Nodup.map List.cons_injective (hs t List.mem_cons_self)
    -- A key of a later slot begins with a greater byte.
    rintro k hk k' hk' rfl
    obtain ⟨e, he, rfl⟩ := List.mem_map.mp hk
    obtain ⟨e', he', heq⟩ := List.mem_map.mp hk'
    obtain ⟨j, t, hj, e1, -, rfl⟩ := mem_slotEntries.mp he'
    have hlt : j < os.length := (List.getElem?_eq_some_iff.mp hj).1
    cases o with
    | none => simp [childEntries] at he
    | some u =>
      rw [childEntries, List.mem_map] at he
      obtain ⟨e2, -, rfl⟩ := he
      have hbyte := congrArg UInt8.toNat (List.cons.inj heq).1
      rw [UInt8.toNat_ofNat', UInt8.toNat_ofNat', Nat.mod_eq_of_lt (by omega),
        Nat.mod_eq_of_lt (by omega)] at hbyte
      omega

/-- No key is listed twice: the first byte tells the children apart. -/
theorem entries_nodup [DecidableEq V] {n : Node V} (h : n.WF dflt) :
    ((entries dflt n).map Prod.fst).Nodup := by
  induction h with
  | mk n table child useful ih =>
    obtain ⟨v, l, m, s⟩ := n
    have hslots : ((slotEntries dflt m s).map Prod.fst).Nodup :=
      slotEntries_nodup table.stop_le fun t ht => by
        obtain ⟨i, hi⟩ := exists_get_of_mem (t := ⟨m, s⟩) ht
        exact ih i t hi
    rw [entries, map_append]
    by_cases hv : v = dflt
    · rw [if_pos hv]
      exact hslots
    rw [if_neg hv]
    refine nodup_cons.mpr ⟨fun hmem => ?_, hslots⟩
    obtain ⟨e, he, hnil⟩ := mem_map.mp hmem
    obtain ⟨j, t, -, e', -, rfl⟩ := mem_slotEntries.mp he
    cases hnil

/-! ### Sweeping -/

/-- What sweeping does to a slot. -/
inductive Swept (dflt : V) (f : V → V) : Option (Node V) → Option (Node V) → Prop
  | none : Swept dflt f none none
  | gone (t : Node V) (h : ∀ k, f (t.valueAt dflt k) = dflt) : Swept dflt f (some t) none
  | kept (t t' : Node V) (wf : t'.WF dflt) (useful : ¬ t'.Redundant dflt)
      (h : ∀ k, t'.valueAt dflt k = f (t.valueAt dflt k)) : Swept dflt f (some t) (some t')

/-- Children are only removed. -/
theorem countP_swept_le {f : V → V} {s s' : List (Option (Node V))}
    (h : List.Forall₂ (Swept dflt f) s s') :
    s'.countP Option.isSome ≤ s.countP Option.isSome := by
  induction h with
  | nil => exact Nat.le_refl _
  | cons hs _ ih =>
    cases hs with
    | none => simpa using ih
    | gone t _ =>
      simp only [countP_cons, Option.isSome_none, Option.isSome_some, if_true,
        Bool.false_eq_true, if_false]
      omega
    | kept t t' _ _ _ =>
      simp only [countP_cons, Option.isSome_some, if_true]
      omega

theorem get_swept {f : V → V} {m : Nat} {s s' : List (Option (Node V))}
    (h : List.Forall₂ (Swept dflt f) s s') (i : Nat) :
    Swept dflt f (OffsetTable.get ⟨m, s⟩ i) (OffsetTable.get ⟨m, s'⟩ i) := by
  unfold OffsetTable.get
  dsimp only
  split
  · exact .none
  generalize i - m = j
  induction h generalizing j with
  | nil => simpa using Swept.none
  | cons hs _ ih =>
    cases j with
    | zero => simpa using hs
    | succ j => simpa using ih j

/-- A node whose table was in order before `gone` of the children went. -/
structure Thinned (gone : Nat) (n : Node V) : Prop where
  live_eq : n.live = n.table.live + gone
  live_le : n.live ≤ n.table.slots.length
  live_pos : n.table.slots ≠ [] → 0 < n.live
  stop_le : n.table.stop ≤ 256

/-- As many children are missing as there are empty slots more. -/
theorem thinned_of_swept {f : V → V} {v w : V} {l m : Nat} {s s' : List (Option (Node V))}
    (h : (mk w l m s).TableOk) (hall : List.Forall₂ (Swept dflt f) s s') :
    (mk v l m s').Thinned (s.countP Option.isSome - s'.countP Option.isSome) := by
  have hle := countP_swept_le hall
  have hlive : l = s.countP Option.isSome := h.live_eq
  have hlen : s.length = s'.length := hall.length_eq
  refine ⟨?_, ?_, fun hne => ?_, ?_⟩
  · simp only [Node.live, Node.table, OffsetTable.live]
    omega
  · show l ≤ s'.length
    rw [hlive, ← hlen]
    exact countP_le_length
  · have hs : s ≠ [] := by
      rw [← length_pos_iff, hlen]
      exact length_pos_iff.mpr hne
    obtain ⟨t, ht⟩ := Option.isSome_iff_exists.mp (h.tight hs).1
    exact h.live_eq ▸ OffsetTable.live_pos_of_get ht
  · have hstop := h.stop_le
    simp only [Node.table, OffsetTable.stop, hlen] at hstop ⊢
    exact hstop

section Sweep

variable [DecidableEq V] (dflt : V) (compact : Nat → Node V → Except ε (Node V)) (f : V → V)

mutual

/-- Change all the values with `f` and drop the children that become redundant. When all the
children have been visited `compact` is told how many have gone. -/
def sweep : Node V → Except ε (Node V)
  | mk v l m s =>
    match sweepSlots s with
    | .error e => .error e
    | .ok s' => compact (s.countP Option.isSome - s'.countP Option.isSome) (mk (f v) l m s')

def sweepSlots : List (Option (Node V)) → Except ε (List (Option (Node V)))
  | [] => .ok []
  | o :: os =>
    match sweepChild o with
    | .error e => .error e
    | .ok o' =>
      match sweepSlots os with
      | .error e => .error e
      | .ok os' => .ok (o' :: os')

def sweepChild : Option (Node V) → Except ε (Option (Node V))
  | none => .ok none
  | some n =>
    match sweep n with
    | .error e => .error e
    | .ok n' => .ok (if n'.Redundant dflt then none else some n')

end

variable {dflt compact f}

/-- If every child can be swept, so can the slots, one after the other. -/
theorem sweepSlots_spec :
    ∀ {s : List (Option (Node V))},
      (∀ t, some t ∈ s → ∃ t', sweep dflt compact f t = .ok t' ∧ t'.WF dflt ∧
        ∀ k, t'.valueAt dflt k = f (t.valueAt dflt k)) →
      ∃ s', sweepSlots dflt compact f s = .ok s' ∧ List.Forall₂ (Swept dflt f) s s' := by
  intro s
  induction s with
  | nil => intro _; exact ⟨[], rfl, .nil⟩
  | cons o os ih =>
    intro h
    obtain ⟨os', hos, hall⟩ := ih fun t ht => h t (mem_cons_of_mem _ ht)
    cases o with
    | none =>
      refine ⟨none :: os', ?_, .cons .none hall⟩
      rw [sweepSlots, sweepChild, hos]
    | some t =>
      obtain ⟨t', ht', hwf, hv⟩ := h t (by simp)
      by_cases hred : t'.Redundant dflt
      · refine ⟨none :: os', ?_, .cons (.gone t fun k => ?_) hall⟩
        · simp only [sweepSlots, sweepChild, ht', hos, if_pos hred]
        · rw [← hv, valueAt_of_redundant hwf.table hred]
      · refine ⟨some t' :: os', ?_, .cons (.kept t t' hwf hred hv) hall⟩
        simp only [sweepSlots, sweepChild, ht', hos, if_neg hred]

variable (hcompact : ∀ gone (n : Node V), n.Thinned gone →
    ∃ n', compact gone n = .ok n' ∧ n'.val = n.val ∧ n'.TableOk ∧
      ∀ j, n'.table.get j = n.table.get j)
  (hf : f dflt = dflt)

include hcompact hf

/-- Sweeping changes every value with `f` and keeps the trie well-formed. -/
theorem sweep_spec {n : Node V} (h : n.WF dflt) :
    ∃ n', sweep dflt compact f n = .ok n' ∧ n'.WF dflt ∧
      ∀ k, n'.valueAt dflt k = f (n.valueAt dflt k) := by
  induction h with
  | mk n table child useful ih =>
    obtain ⟨v, l, m, s⟩ := n
    obtain ⟨s', hs', hall⟩ := sweepSlots_spec (s := s) fun t ht => by
      obtain ⟨i, hi⟩ := exists_get_of_mem (t := ⟨m, s⟩) ht
      exact ih i t hi
    obtain ⟨n', hn', hval, htable, hget⟩ := hcompact _ _ (thinned_of_swept (v := f v) table hall)
    refine ⟨n', by rw [sweep, hs']; exact hn', .mk n' htable ?_ ?_, fun k => ?_⟩
    · intro i t ht
      rw [hget] at ht
      have hsw := get_swept (m := m) hall i
      rw [show get ⟨m, s'⟩ i = some t from ht] at hsw
      generalize get ⟨m, s⟩ i = o at hsw
      cases hsw with
      | kept _ _ wf _ _ => exact wf
    · intro i t ht
      rw [hget] at ht
      have hsw := get_swept (m := m) hall i
      rw [show get ⟨m, s'⟩ i = some t from ht] at hsw
      generalize get ⟨m, s⟩ i = o at hsw
      cases hsw with
      | kept _ _ _ useful _ => exact useful
    cases k with
    | nil => rw [valueAt_nil, valueAt_nil, hval]; rfl
    | cons c k =>
      have hsw := get_swept (m := m) hall c.toNat
      rw [valueAt_cons, valueAt_cons, hget]
      simp only [Node.table]
      generalize get ⟨m, s⟩ c.toNat = o at hsw ⊢
      generalize get ⟨m, s'⟩ c.toNat = o' at hsw ⊢
      cases hsw with
      | none => exact hf.symm
      | gone t h => exact (h k).symm
      | kept t t' _ _ h => exact h k

end Sweep

end Node

end Radix

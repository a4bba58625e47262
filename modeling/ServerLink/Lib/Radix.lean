import ServerLink.Lib.OffsetTable

/-!
# Byte tries with offset tables

A trie over byte strings whose nodes hold a value and an offset table of children. The
value `dflt` means that nothing is stored at the node; a node with neither a value nor
children is redundant. In a well-formed trie (`WF`) no child is redundant, every table
is tight and the stored number of children is right.

`insert` and `remove` walk down a key and change the value at its end; how a table is
compacted after a child has gone is left to the caller (`prune`). Their effect on the
map from keys to values (`valueAt`) is that of a point update: `insert_spec` and
`remove_spec`.
-/

namespace Radix

open OffsetTable List

/-- A node: its value, the number of its children, and the table of the children. -/
inductive Node (V : Type) where
  | mk (val : V) (live min : Nat) (slots : List (Option (Node V)))

variable {V ε β : Type}

namespace Node

def val : Node V → V
  | mk v _ _ _ => v

def live : Node V → Nat
  | mk _ l _ _ => l

def table : Node V → OffsetTable (Node V)
  | mk _ _ m s => ⟨m, s⟩

/-- A node with the given table. -/
def ofTable (v : V) (l : Nat) (t : OffsetTable (Node V)) : Node V := mk v l t.min t.slots

@[simp] theorem live_ofTable (v : V) (l : Nat) (t : OffsetTable (Node V)) :
    (ofTable v l t).live = l := rfl
@[simp] theorem table_ofTable (v : V) (l : Nat) (t : OffsetTable (Node V)) :
    (ofTable v l t).table = t := rfl

/-- A node with nothing in it. -/
def leaf (dflt : V) : Node V := mk dflt 0 0 []

/-- The value stored at a key. -/
def valueAt (dflt : V) : Node V → List UInt8 → V
  | n, [] => n.val
  | n, c :: k =>
    match n.table.get c.toNat with
    | none => dflt
    | some t => valueAt dflt t k

/-- The node holds nothing, neither a value nor children. -/
def Redundant (dflt : V) (n : Node V) : Prop := n.val = dflt ∧ n.live = 0

instance [DecidableEq V] (dflt : V) (n : Node V) : Decidable (n.Redundant dflt) :=
  inferInstanceAs (Decidable (_ ∧ _))

/-- The table of a node and the stored number of children. -/
structure TableOk (n : Node V) : Prop where
  live_eq : n.live = n.table.live
  stop_le : n.table.stop ≤ 256
  tight : n.table.Tight

/-- Well-formed tries. -/
inductive WF (dflt : V) : Node V → Prop
  | mk (n : Node V) (table : n.TableOk) (child : ∀ i t, n.table.get i = some t → WF dflt t)
      (useful : ∀ i t, n.table.get i = some t → ¬ t.Redundant dflt) : WF dflt n

namespace WF

variable {dflt : V} {n : Node V}

theorem table (h : n.WF dflt) : n.TableOk := by
  cases h with
  | mk _ table _ _ => exact table

theorem child (h : n.WF dflt) {i : Nat} {t : Node V} (ht : n.table.get i = some t) : t.WF dflt := by
  cases h with
  | mk _ _ child _ => exact child i t ht

theorem useful (h : n.WF dflt) {i : Nat} {t : Node V} (ht : n.table.get i = some t) :
    ¬ t.Redundant dflt := by
  cases h with
  | mk _ _ _ useful => exact useful i t ht

end WF

variable {dflt : V}

@[simp] theorem valueAt_nil (n : Node V) : n.valueAt dflt [] = n.val := by
  rfl

theorem valueAt_cons (n : Node V) (c : UInt8) (k : List UInt8) :
    n.valueAt dflt (c :: k) =
      match n.table.get c.toNat with
      | none => dflt
      | some t => t.valueAt dflt k := by
  conv => lhs; unfold valueAt

theorem leaf_wf (dflt : V) : (leaf dflt).WF dflt := by
  refine .mk _ ⟨rfl, by simp [leaf, Node.table, stop], fun h => absurd rfl h⟩ ?_ ?_ <;>
  · intro i t ht
    simp [leaf, Node.table, get_nil] at ht

@[simp] theorem valueAt_leaf (dflt : V) (k : List UInt8) : (leaf dflt).valueAt dflt k = dflt := by
  cases k with
  | nil => rfl
  | cons c k =>
    rw [valueAt_cons]
    simp [leaf, Node.table, get_nil]

/-- A table without entries, if it is tight, has no slots. -/
theorem TableOk.get_eq_none {n : Node V} (h : n.TableOk) (hlive : n.live = 0) (i : Nat) :
    n.table.get i = none := by
  have hz : n.table.live = 0 := h.live_eq.symm.trans hlive
  cases hi : n.table.get i with
  | none => rfl
  | some t =>
    have := live_pos_of_get hi
    omega

theorem valueAt_of_redundant {n : Node V} (h : n.TableOk) (hr : n.Redundant dflt)
    (k : List UInt8) : n.valueAt dflt k = dflt := by
  cases k with
  | nil => exact hr.1
  | cons c k => rw [valueAt_cons, h.get_eq_none hr.2]

/-! ### Inserting -/

/-- Walk down the key, creating nodes where there are none, and change the value at its
end with `f`. `created` is called with the number of children and the length of the
table whenever a node has been created. -/
def insert (dflt : V) (created : Nat → Nat → Except ε Unit) (f : V → V × β) :
    Node V → List UInt8 → Except ε (Node V × β)
  | n, [] => .ok (mk (f n.val).1 n.live n.table.min n.table.slots, (f n.val).2)
  | n, c :: k =>
    let t := n.table.cover c.toNat
    match t.get c.toNat with
    | some child =>
      match insert dflt created f child k with
      | .error e => .error e
      | .ok (child, b) => .ok (ofTable n.val n.live (t.set c.toNat (some child)), b)
    | none =>
      match created (n.live + 1) t.slots.length with
      | .error e => .error e
      | .ok () =>
        match insert dflt created f (leaf dflt) k with
        | .error e => .error e
        | .ok (child, b) => .ok (ofTable n.val (n.live + 1) (t.set c.toNat (some child)), b)

theorem valueAt_set {v : V} {l : Nat} {t : OffsetTable (Node V)} {c : UInt8}
    (hc : t.Covers c.toNat) (child : Option (Node V)) (x : UInt8) (k : List UInt8) :
    (ofTable v l (t.set c.toNat child)).valueAt dflt (x :: k) =
      if x = c then (match child with | none => dflt | some n => n.valueAt dflt k)
      else (ofTable v l t).valueAt dflt (x :: k) := by
  rw [valueAt_cons, table_ofTable, get_set hc]
  by_cases hx : x = c
  · subst hx
    rw [if_pos rfl, if_pos rfl]
  · have hne : x.toNat ≠ c.toNat := fun h => hx (UInt8.toNat_inj.mp h)
    rw [if_neg hne, if_neg hx, valueAt_cons, table_ofTable]

theorem valueAt_cover {v : V} {l : Nat} {n : Node V} (i : Nat) (x : UInt8) (k : List UInt8) :
    (ofTable v l (n.table.cover i)).valueAt dflt (x :: k) = n.valueAt dflt (x :: k) := by
  rw [valueAt_cons, valueAt_cons, table_ofTable, get_cover]

theorem set_wf {n child : Node V} {i : Nat} (h : n.WF dflt) (hi : i < 256)
    (hc : child.WF dflt) (hu : ¬ child.Redundant dflt) (v : V) :
    let t := (n.table.cover i).set i (some child)
    (ofTable v t.live t).WF dflt ∧ ¬ (ofTable v t.live t).Redundant dflt := by
  have hcov := covers_cover n.table i
  have hget : ∀ j, ((n.table.cover i).set i (some child)).get j =
      if j = i then some child else n.table.get j := by
    intro j
    rw [get_set hcov, get_cover]
  refine ⟨.mk _ ⟨rfl, ?_, tight_cover_set h.table.tight _ _⟩ ?_ ?_, ?_⟩
  · rw [table_ofTable, stop_set]
    exact stop_cover_le _ h.table.stop_le hi
  · intro j t ht
    rw [table_ofTable, hget] at ht
    split at ht
    · cases ht
      exact hc
    · exact h.child ht
  · intro j t ht
    rw [table_ofTable, hget] at ht
    split at ht
    · cases ht
      exact hu
    · exact h.useful ht
  · rintro ⟨-, hz⟩
    have := live_pos_of_get ((hget i).trans (if_pos rfl))
    rw [live_ofTable] at hz
    omega

/-- When a node is created, a table of one slot holds one child and a larger table
more than one. -/
theorem created_args {n : Node V} {i : Nat} (h : n.TableOk) (hi : n.table.get i = none) :
    ((n.table.cover i).slots.length = 1 → n.live + 1 = 1) ∧
      ((n.table.cover i).slots.length ≠ 1 → 1 < n.live + 1) := by
  by_cases hnil : n.table.slots = []
  · have hz : n.live = 0 := by rw [h.live_eq, OffsetTable.live, hnil]; rfl
    have hone : (n.table.cover i).slots.length = 1 := by simp [OffsetTable.cover, hnil]
    exact ⟨fun _ => by omega, fun hne => absurd hone hne⟩
  obtain ⟨a, ha⟩ := Option.isSome_iff_exists.mp (h.tight hnil).1
  have hpos := OffsetTable.live_pos_of_get ha
  rw [← h.live_eq] at hpos
  refine ⟨fun hone => ?_, fun _ => by omega⟩
  -- A single slot that covers `i` is the slot of an end, which is in use.
  have hcov := OffsetTable.covers_cover n.table i
  have hmin := OffsetTable.covers_of_get ((OffsetTable.get_cover n.table i _).trans ha)
  unfold OffsetTable.Covers OffsetTable.stop at hcov hmin
  have : i = n.table.min := by omega
  rw [this, ha] at hi
  cases hi

/-- A point update below the child at `c` is a point update of the trie. -/
theorem set_child_spec {n child child' : Node V} {c : UInt8} {k : List UInt8} {v : V} {l : Nat}
    (h : n.WF dflt) (hchild : ∀ k', child.valueAt dflt k' = n.valueAt dflt (c :: k'))
    (hv : ∀ k', child'.valueAt dflt k' = if k' = k then v else child.valueAt dflt k')
    (hwf : v ≠ dflt → child'.WF dflt ∧ ¬ child'.Redundant dflt)
    (hl : l = ((n.table.cover c.toNat).set c.toNat (some child')).live) :
    let n' := ofTable n.val l ((n.table.cover c.toNat).set c.toNat (some child'))
    (∀ k', n'.valueAt dflt k' = if k' = c :: k then v else n.valueAt dflt k') ∧
      (v ≠ dflt → n'.WF dflt ∧ ¬ n'.Redundant dflt) := by
  have hcov := covers_cover n.table c.toNat
  refine ⟨fun k' => ?_, fun hne => ?_⟩
  · cases k' with
    | nil => rfl
    | cons x k' =>
      rw [valueAt_set hcov, valueAt_cover]
      by_cases hx : x = c
      · subst hx
        simp only [if_pos, cons.injEq, true_and]
        rw [hv, hchild]
      · rw [if_neg hx, if_neg (fun heq => hx (cons.inj heq).1)]
  · subst hl
    exact set_wf h c.toNat_lt (hwf hne).1 (hwf hne).2 n.val

section Insert

variable {created : Nat → Nat → Except ε Unit} {f : V → V × β}
  (hcreated : ∀ live count, (count = 1 → live = 1) → (count ≠ 1 → 1 < live) →
    created live count = .ok ())

include hcreated

/-- Inserting succeeds and is a point update of the values; the trie stays well-formed
when the new value is not the default. -/
theorem insert_spec :
    ∀ (k : List UInt8) {n : Node V}, n.WF dflt →
      ∃ n', insert dflt created f n k = .ok (n', (f (n.valueAt dflt k)).2) ∧
        (∀ k', n'.valueAt dflt k' =
          if k' = k then (f (n.valueAt dflt k)).1 else n.valueAt dflt k') ∧
        ((f (n.valueAt dflt k)).1 ≠ dflt → n'.WF dflt ∧ ¬ n'.Redundant dflt) := by
  intro k
  induction k with
  | nil =>
    intro n h
    refine ⟨_, by rw [insert, valueAt_nil], ?_, ?_⟩
    · intro k'
      cases k' with
      | nil => rfl
      | cons x k' => rw [valueAt_cons, valueAt_cons]; rfl
    · intro hne
      exact ⟨.mk _ ⟨h.table.live_eq, h.table.stop_le, h.table.tight⟩
        (fun _ _ ht => h.child ht) (fun _ _ ht => h.useful ht), fun hr => hne hr.1⟩
  | cons c k ih =>
    intro n h
    have hcov := covers_cover n.table c.toNat
    rw [insert, get_cover]
    cases hget : n.table.get c.toNat with
    | some child =>
      have hvals : ∀ k', child.valueAt dflt k' = n.valueAt dflt (c :: k') := by
        intro k'
        rw [valueAt_cons, hget]
      obtain ⟨child', hins, hv, hwf⟩ := ih (h.child hget)
      rw [hvals] at hins hv hwf
      have hlive := live_set hcov (some child')
      rw [get_cover, hget, live_cover, ← h.table.live_eq] at hlive
      simp only [hins]
      exact ⟨_, rfl, set_child_spec h hvals hv hwf (by simpa using hlive.symm)⟩
    | none =>
      have hvals : ∀ k', (leaf dflt).valueAt dflt k' = n.valueAt dflt (c :: k') := by
        intro k'
        rw [valueAt_cons, hget, valueAt_leaf]
      obtain ⟨child', hins, hv, hwf⟩ := ih (leaf_wf dflt)
      rw [hvals] at hins hv hwf
      have hlive := live_set hcov (some child')
      rw [get_cover, hget, live_cover, ← h.table.live_eq] at hlive
      obtain ⟨h1, h2⟩ := created_args h.table hget
      simp only [hcreated _ _ h1 h2, hins]
      exact ⟨_, rfl, set_child_spec h hvals hv hwf (by simpa using hlive.symm)⟩

end Insert

/-! ### Removing -/

/-- Walk down the key and change the value at its end with `f`; `miss` is the result
when there is no such node. A child that has become redundant is taken out of the
table by `prune`. -/
def remove [DecidableEq V] (dflt : V) (prune : Node V → Nat → Except ε (Node V)) (miss : β)
    (f : V → Except ε (V × β)) : Node V → List UInt8 → Except ε (Node V × β)
  | n, [] =>
    match f n.val with
    | .error e => .error e
    | .ok (v, b) => .ok (mk v n.live n.table.min n.table.slots, b)
  | n, c :: k =>
    match n.table.get c.toNat with
    | none => .ok (n, miss)
    | some child =>
      match remove dflt prune miss f child k with
      | .error e => .error e
      | .ok (child, b) =>
        let n := ofTable n.val n.live (n.table.set c.toNat (some child))
        if child.Redundant dflt then
          match prune n c.toNat with
          | .error e => .error e
          | .ok n => .ok (n, b)
        else .ok (n, b)

/-- The node `n'` is the node `n` without its child at `i`. -/
structure PrunedAt (n n' : Node V) (i : Nat) : Prop where
  val : n'.val = n.val
  table : n'.TableOk
  get : ∀ j, n'.table.get j = if j = i then none else n.table.get j

/-! The ways in which a table can be compacted after its entry at `i` has gone. -/

section Pruned

variable {n : Node V} {i : Nat} {t : Node V}

theorem TableOk.slots_ne_nil (hget : n.table.get i = some t) : n.table.slots ≠ [] := by
  intro hnil
  have := mem_of_get hget
  rw [hnil] at this
  cases this

/-- The only slot of a table has gone. -/
theorem PrunedAt.only (h : n.TableOk) (hget : n.table.get i = some t)
    (hlen : n.table.slots.length = 1) :
    n.live = 1 ∧ PrunedAt n (ofTable n.val 0 ⟨n.table.min, []⟩) i := by
  have hcov := covers_of_get hget
  have hle : n.table.live ≤ n.table.slots.length := countP_le_length
  have hpos := live_pos_of_get hget
  have hstop := h.stop_le
  unfold OffsetTable.Covers stop at hcov
  unfold stop at hstop
  refine ⟨by rw [h.live_eq]; omega, rfl, ⟨rfl, ?_, fun hne => absurd rfl hne⟩, fun j => ?_⟩
  · simp only [table_ofTable, stop, length_nil]
    omega
  rw [table_ofTable, get_nil]
  split
  · rfl
  · refine (get_of_not_covers fun hj => ?_).symm
    unfold OffsetTable.Covers stop at hj
    omega

/-- The ends of a table with more than one slot. -/
theorem TableOk.ends (h : n.TableOk) (hget : n.table.get i = some t)
    (hlen : n.table.slots.length ≠ 1) :
    n.table.min ≠ n.table.stop - 1 ∧ 1 < n.live ∧
      (i ≠ n.table.min → ((n.table.set i none).get n.table.min).isSome = true) ∧
      (i ≠ n.table.stop - 1 → ((n.table.set i none).get (n.table.stop - 1)).isSome = true) := by
  have hcov := covers_of_get hget
  have hne := TableOk.slots_ne_nil hget
  obtain ⟨h1, h2⟩ := h.tight hne
  have hpos := length_pos_iff.mpr hne
  have hends : n.table.min ≠ n.table.stop - 1 := by
    unfold stop
    omega
  obtain ⟨a, ha⟩ := Option.isSome_iff_exists.mp h1
  obtain ⟨b, hb⟩ := Option.isSome_iff_exists.mp h2
  have htwo := two_le_live ha hb hends.symm
  refine ⟨hends, by rw [h.live_eq]; omega, fun hi => ?_, fun hi => ?_⟩
  · rw [get_set hcov, if_neg hi.symm]
    exact h1
  · rw [get_set hcov, if_neg hi.symm]
    exact h2

theorem TableOk.live_set_none (h : n.TableOk) (hget : n.table.get i = some t) :
    (n.table.set i none).live = n.live - 1 := by
  have := OffsetTable.live_set_none hget
  rw [h.live_eq]
  omega

/-- One entry is left, and the table becomes a table of one slot. -/
theorem PrunedAt.single (h : n.TableOk) (hget : n.table.get i = some t) (hlive : n.live - 1 = 1)
    {j : Nat} {node : Node V} (hj : (n.table.set i none).get j = some node) :
    PrunedAt n (ofTable n.val (n.live - 1) ⟨j, [some node]⟩) i := by
  have hu := h.live_set_none hget
  have hcov := covers_of_get hj
  have hstop := h.stop_le
  rw [OffsetTable.Covers, stop_set] at hcov
  refine ⟨rfl, ⟨by rw [live_ofTable, table_ofTable, hlive]; rfl, ?_, fun _ => ?_⟩, fun x => ?_⟩
  · simp only [table_ofTable, stop, length_singleton] at *
    omega
  · simp [stop, get_singleton]
  rw [table_ofTable, get_singleton]
  rw [← get_set (covers_of_get hget) none x]
  split
  · rename_i hx
    rw [hx, hj]
  rename_i hx
  cases hg : (n.table.set i none).get x with
  | none => rfl
  | some b =>
    have := two_le_live hj hg hx
    omega

/-- The table is trimmed on the left. -/
theorem PrunedAt.left (h : n.TableOk) (hget : n.table.get i = some t)
    (hlast : ((n.table.set i none).get (n.table.stop - 1)).isSome = true) :
    (n.table.set i none).trimLeft.slots ≠ [] ∧
      PrunedAt n (ofTable n.val (n.live - 1) (n.table.set i none).trimLeft) i := by
  refine ⟨fun hnil => ?_, rfl, ⟨?_, ?_, ?_⟩, fun x => ?_⟩
  · rw [← get_trimLeft] at hlast
    obtain ⟨a, ha⟩ := Option.isSome_iff_exists.mp hlast
    have := mem_of_get ha
    rw [hnil] at this
    cases this
  · rw [live_ofTable, table_ofTable, live_trimLeft, h.live_set_none hget]
  · rw [table_ofTable, stop_trimLeft, stop_set]
    exact h.stop_le
  · exact tight_trimLeft (by rwa [stop_set])
  · rw [table_ofTable, get_trimLeft, get_set (covers_of_get hget)]

/-- The table is trimmed on the right. -/
theorem PrunedAt.right (h : n.TableOk) (hget : n.table.get i = some t)
    (hfirst : ((n.table.set i none).get n.table.min).isSome = true) :
    (n.table.set i none).trimRight.slots ≠ [] ∧
      PrunedAt n (ofTable n.val (n.live - 1) (n.table.set i none).trimRight) i := by
  refine ⟨fun hnil => ?_, rfl, ⟨?_, ?_, ?_⟩, fun x => ?_⟩
  · rw [← get_trimRight] at hfirst
    obtain ⟨a, ha⟩ := Option.isSome_iff_exists.mp hfirst
    have := mem_of_get ha
    rw [hnil] at this
    cases this
  · rw [live_ofTable, table_ofTable, live_trimRight, h.live_set_none hget]
  · rw [table_ofTable]
    have h1 := stop_trimRight_le (n.table.set i none)
    rw [stop_set] at h1
    exact Nat.le_trans h1 h.stop_le
  · exact tight_trimRight hfirst
  · rw [table_ofTable, get_trimRight, get_set (covers_of_get hget)]

/-- The entry was not at an end, and the table stays as it is. -/
theorem PrunedAt.inner (h : n.TableOk) (hget : n.table.get i = some t)
    (hfirst : ((n.table.set i none).get n.table.min).isSome = true)
    (hlast : ((n.table.set i none).get (n.table.stop - 1)).isSome = true) :
    PrunedAt n (ofTable n.val (n.live - 1) (n.table.set i none)) i := by
  refine ⟨rfl, ⟨?_, ?_, fun _ => ⟨hfirst, ?_⟩⟩, fun x => ?_⟩
  · rw [live_ofTable, table_ofTable, h.live_set_none hget]
  · rw [table_ofTable, stop_set]
    exact h.stop_le
  · rw [table_ofTable, stop_set]
    exact hlast
  · rw [table_ofTable, get_set (covers_of_get hget)]

end Pruned

/-- A node one of whose children has been replaced by another. -/
theorem TableOk.replace {n child : Node V} {i : Nat} (h : n.TableOk)
    (hget : n.table.get i = some child) (child' : Node V) :
    (ofTable n.val n.live (n.table.set i (some child'))).TableOk := by
  have hcov := covers_of_get hget
  have hlive := live_set hcov (some child')
  rw [hget] at hlive
  have hne := TableOk.slots_ne_nil hget
  refine ⟨by rw [live_ofTable, table_ofTable, h.live_eq]; simpa using hlive.symm,
    by simpa using h.stop_le, fun _ => ?_⟩
  rw [table_ofTable, set_min, stop_set, get_set hcov, get_set hcov]
  obtain ⟨h1, h2⟩ := h.tight hne
  exact ⟨by split; exacts [rfl, h1], by split; exacts [rfl, h2]⟩

/-- The trie after an update below the child at `c`, which stays. -/
theorem replaced_spec {n child child' : Node V} {c : UInt8} {k : List UInt8} {v : V}
    (h : n.WF dflt) (hget : n.table.get c.toNat = some child)
    (hv : ∀ k', child'.valueAt dflt k' = if k' = k then v else child.valueAt dflt k')
    (hwf : child'.WF dflt) (hu : ¬ child'.Redundant dflt) :
    let n' := ofTable n.val n.live (n.table.set c.toNat (some child'))
    n'.WF dflt ∧ ∀ k', n'.valueAt dflt k' = if k' = c :: k then v else n.valueAt dflt k' := by
  have hcov := covers_of_get hget
  have hset := get_set hcov (some child')
  refine ⟨.mk _ (h.table.replace hget child') ?_ ?_, fun k' => ?_⟩
  · intro j t ht
    rw [table_ofTable, hset] at ht
    split at ht
    · cases ht
      exact hwf
    · exact h.child ht
  · intro j t ht
    rw [table_ofTable, hset] at ht
    split at ht
    · cases ht
      exact hu
    · exact h.useful ht
  cases k' with
  | nil => rfl
  | cons x k' =>
    rw [valueAt_set hcov]
    by_cases hx : x = c
    · subst hx
      simp only [if_pos, cons.injEq, true_and]
      rw [hv, valueAt_cons, hget]
    · rw [if_neg hx, if_neg (fun heq => hx (cons.inj heq).1), valueAt_cons,
        valueAt_cons, table_ofTable]

/-- The trie after an update below the child at `c`, which has gone. -/
theorem pruned_spec {n n' child child' : Node V} {c : UInt8} {k : List UInt8} {v : V}
    (h : n.WF dflt) (hget : n.table.get c.toNat = some child)
    (hv : ∀ k', child'.valueAt dflt k' = if k' = k then v else child.valueAt dflt k')
    (hwf : child'.WF dflt) (hred : child'.Redundant dflt)
    (hp : PrunedAt (ofTable n.val n.live (n.table.set c.toNat (some child'))) n' c.toNat) :
    n'.WF dflt ∧ ∀ k', n'.valueAt dflt k' = if k' = c :: k then v else n.valueAt dflt k' := by
  have hget' : ∀ j, n'.table.get j = if j = c.toNat then none else n.table.get j := by
    intro j
    rw [hp.get, table_ofTable, get_set (covers_of_get hget)]
    split <;> rfl
  refine ⟨.mk n' hp.table ?_ ?_, fun k' => ?_⟩
  · intro j t ht
    rw [hget'] at ht
    split at ht
    · cases ht
    · exact h.child ht
  · intro j t ht
    rw [hget'] at ht
    split at ht
    · cases ht
    · exact h.useful ht
  cases k' with
  | nil =>
    rw [valueAt_nil, hp.val, if_neg (by simp)]
    rfl
  | cons x k' =>
    rw [valueAt_cons, hget']
    by_cases hx : x = c
    · subst hx
      have hz := valueAt_of_redundant hwf.table hred k'
      rw [hv] at hz
      simp only [if_pos, cons.injEq, true_and]
      rw [valueAt_cons, hget, hz]
    · have hne : x.toNat ≠ c.toNat := fun h => hx (UInt8.toNat_inj.mp h)
      rw [if_neg hne, if_neg (fun heq => hx (cons.inj heq).1), valueAt_cons]

section Remove

variable [DecidableEq V] {prune : Node V → Nat → Except ε (Node V)} {miss : β}
  {f : V → Except ε (V × β)}
  (hprune : ∀ (n : Node V) i t, n.TableOk → n.table.get i = some t →
    ∃ n', prune n i = .ok n' ∧ PrunedAt n n' i)
  (hmiss : f dflt = .ok (dflt, miss))

include hprune hmiss

/-- Removing succeeds where `f` does, is a point update of the values, and keeps the
trie well-formed. -/
theorem remove_spec :
    ∀ (k : List UInt8) {n : Node V}, n.WF dflt → ∀ {v b}, f (n.valueAt dflt k) = .ok (v, b) →
      ∃ n', remove dflt prune miss f n k = .ok (n', b) ∧ n'.WF dflt ∧
        ∀ k', n'.valueAt dflt k' = if k' = k then v else n.valueAt dflt k' := by
  intro k
  induction k with
  | nil =>
    intro n h v b hf
    rw [valueAt_nil] at hf
    refine ⟨_, by rw [remove, hf], ?_, ?_⟩
    · exact .mk _ ⟨h.table.live_eq, h.table.stop_le, h.table.tight⟩
        (fun _ _ ht => h.child ht) (fun _ _ ht => h.useful ht)
    intro k'
    cases k' with
    | nil => rfl
    | cons x k' => rw [valueAt_cons, valueAt_cons]; rfl
  | cons c k ih =>
    intro n h v b hf
    rw [remove]
    cases hget : n.table.get c.toNat with
    | none =>
      have hval : n.valueAt dflt (c :: k) = dflt := by rw [valueAt_cons, hget]
      rw [hval, hmiss] at hf
      cases hf
      refine ⟨n, rfl, h, fun k' => ?_⟩
      split
      · rename_i heq
        rw [heq, hval]
      · rfl
    | some child =>
      obtain ⟨child', hrem, hwf, hv⟩ := ih (h.child hget) (v := v) (b := b)
        (by rw [← hf, valueAt_cons, hget])
      simp only [hrem]
      by_cases hred : child'.Redundant dflt
      · rw [if_pos hred]
        obtain ⟨n', hp, hpruned⟩ := hprune _ c.toNat child' (h.table.replace hget child')
          (by rw [table_ofTable, get_set (covers_of_get hget),
            if_pos rfl])
        rw [hp]
        exact ⟨n', rfl, pruned_spec h hget hv hwf hred hpruned⟩
      · rw [if_neg hred]
        exact ⟨_, rfl, replaced_spec h hget hv hwf hred⟩

end Remove

end Node

end Radix

import Mathlib.Data.Finset.Card
import ServerLink.Lib.RadixWalk
import ServerLink.Util.Err

/-!
# ServerLink.Pipe.Trie

The reference-counted subscription trie (`trie.cpp`). A node holds its reference count
(`_refcnt`, 32 bits) and a table of children that starts at `_min`. The union of a
single child and a table of children is a table of one slot or of more.

A trie is a multiset of prefixes: `refcount` is the multiplicity of a key, and
`add_spec`, `rm_spec`, `check_iff` and `mem_keys` say what the operations do to it.
-/

namespace ServerLink

open Radix Radix.Node

abbrev Trie := Radix.Node Nat

namespace Trie

def empty : Trie := leaf 0

/-- The multiplicity of a key. -/
abbrev refcount (t : Trie) (key : List UInt8) : Nat := t.valueAt 0 key

/-- The assertions after `++_live_nodes` in `add`. -/
def created (liveNodes count : Nat) : Except Fault Unit :=
  if count = 1 then if liveNodes = 1 then .ok () else .error .trieLiveNodes
  else if 1 < liveNodes then .ok ()
  else .error .trieLiveNodes

/-- `add`: true if the key is new. -/
def add (t : Trie) (key : List UInt8) : Except Fault (Trie × Bool) :=
  Radix.Node.insert 0 created (fun refcnt => ((refcnt + 1) % 2 ^ 32, (refcnt + 1) % 2 ^ 32 == 1))
    t key

/-- The pruning of a redundant child at `c` in `rm`. -/
def prune (n : Trie) (c : Nat) : Except Fault Trie :=
  let t := n.table
  if t.slots.length = 1 then
    -- The pruned node was the only live node.
    if n.live - 1 = 0 then .ok (ofTable n.val (n.live - 1) ⟨t.min, []⟩)
    else .error .trieLiveNodes
  else if ¬ 1 < n.live then .error .trieLiveNodes
  else
    let u := t.set c none
    let live := n.live - 1
    if live = 1 then
      if c = t.min then
        -- The left-most node has gone: keep the right-most one.
        match u.get (t.stop - 1) with
        | some node => .ok (ofTable n.val live ⟨t.stop - 1, [some node]⟩)
        | none => .error .trieNode
      else if c = t.stop - 1 then
        match u.get t.min with
        | some node => .ok (ofTable n.val live ⟨t.min, [some node]⟩)
        | none => .error .trieNode
      else .error .trieNode
    else if c = t.min then
      if u.trimLeft.slots.isEmpty then .error .trieRange else .ok (ofTable n.val live u.trimLeft)
    else if c = t.stop - 1 then
      if u.trimRight.slots.isEmpty then .error .trieRange
      else .ok (ofTable n.val live u.trimRight)
    else .ok (ofTable n.val live u)

/-- `rm`: true if the key has been removed. -/
def rm (t : Trie) (key : List UInt8) : Except Fault (Trie × Bool) :=
  Radix.Node.remove 0 prune false
    (fun refcnt => .ok (if refcnt = 0 then (0, false) else (refcnt - 1, refcnt - 1 == 0))) t key

/-- `check`: some stored key is a prefix of the data. -/
def check : Trie → List UInt8 → Bool
  | n, [] => n.val != 0
  | n, c :: data =>
    n.val != 0 ||
      match n.table.get c.toNat with
      | none => false
      | some t => check t data

/-- The keys in the order in which `apply` visits them. -/
def keys (t : Trie) : List (List UInt8) := (entries 0 t).map Prod.fst

/-! ### Pruning -/

theorem created_ok (live count : Nat) (h1 : count = 1 → live = 1) (h2 : count ≠ 1 → 1 < live) :
    created live count = .ok () := by
  unfold created
  split
  · rename_i h
    rw [if_pos (h1 h)]
  · rename_i h
    rw [if_pos (h2 h)]

/-- Pruning fails no assertion and takes the child out. -/
theorem prune_spec (n : Trie) (i : Nat) (t : Trie) (h : n.TableOk)
    (hget : n.table.get i = some t) : ∃ n', prune n i = .ok n' ∧ PrunedAt n n' i := by
  unfold prune
  by_cases hlen : n.table.slots.length = 1
  · obtain ⟨hlive, hp⟩ := PrunedAt.only h hget hlen
    rw [if_pos hlen, if_pos (by omega), hlive]
    exact ⟨_, rfl, hp⟩
  obtain ⟨hends, hlive, hfirst, hlast⟩ := h.ends hget hlen
  rw [if_neg hlen, if_neg (by simpa using hlive)]
  by_cases hone : n.live - 1 = 1
  · rw [if_pos hone]
    by_cases hmin : i = n.table.min
    · obtain ⟨node, hnode⟩ := Option.isSome_iff_exists.mp (hlast (by omega))
      rw [if_pos hmin, hnode]
      exact ⟨_, rfl, PrunedAt.single h hget hone hnode⟩
    obtain ⟨node, hnode⟩ := Option.isSome_iff_exists.mp (hfirst hmin)
    by_cases hmax : i = n.table.stop - 1
    · rw [if_neg hmin, if_pos hmax, hnode]
      exact ⟨_, rfl, PrunedAt.single h hget hone hnode⟩
    -- Both ends would be left, but only one node is.
    obtain ⟨node', hnode'⟩ := Option.isSome_iff_exists.mp (hlast hmax)
    have := OffsetTable.two_le_live hnode hnode' hends.symm
    rw [h.live_set_none hget] at this
    omega
  · rw [if_neg hone]
    by_cases hmin : i = n.table.min
    · obtain ⟨hne, hp⟩ := PrunedAt.left h hget (hlast (by omega))
      rw [if_pos hmin, if_neg (by simpa using hne)]
      exact ⟨_, rfl, hp⟩
    rw [if_neg hmin]
    by_cases hmax : i = n.table.stop - 1
    · obtain ⟨hne, hp⟩ := PrunedAt.right h hget (hfirst hmin)
      rw [if_pos hmax, if_neg (by simpa using hne)]
      exact ⟨_, rfl, hp⟩
    · rw [if_neg hmax]
      exact ⟨_, rfl, PrunedAt.inner h hget (hfirst hmin) (hlast hmax)⟩

/-! ### The operations on the multiset -/

abbrev WF (t : Trie) : Prop := Radix.Node.WF 0 t

theorem empty_wf : empty.WF := leaf_wf 0

@[simp] theorem refcount_empty (k : List UInt8) : empty.refcount k = 0 := valueAt_leaf 0 k

/-- `add` raises the multiplicity of the key, modulo 2^32. -/
theorem add_spec {t : Trie} (h : t.WF) (key : List UInt8) :
    ∃ t', t.add key = .ok (t', (t.refcount key + 1) % 2 ^ 32 == 1) ∧
      (∀ k, t'.refcount k = if k = key then (t.refcount key + 1) % 2 ^ 32 else t.refcount k) ∧
      ((t.refcount key + 1) % 2 ^ 32 ≠ 0 → t'.WF) := by
  obtain ⟨t', h1, h2, h3⟩ := insert_spec
    (f := fun refcnt => ((refcnt + 1) % 2 ^ 32, (refcnt + 1) % 2 ^ 32 == 1)) created_ok key h
  exact ⟨t', h1, h2, fun hne => (h3 hne).1⟩

/-- `rm` lowers the multiplicity of a key that is there. -/
theorem rm_spec {t : Trie} (h : t.WF) (key : List UInt8) :
    ∃ t', t.rm key = .ok (t', t.refcount key == 1) ∧ t'.WF ∧
      ∀ k, t'.refcount k = if k = key then t.refcount key - 1 else t.refcount k := by
  have hf : ∀ r : Nat, (if r = 0 then (0, false) else (r - 1, r - 1 == 0)) = (r - 1, r == 1) := by
    intro r
    by_cases hr : r = 0
    · simp [hr]
    · rw [if_neg hr]
      simp
      omega
  exact remove_spec prune_spec (by simp) key h (by rw [hf])

theorem check_iff : ∀ {data : List UInt8} {t : Trie},
    t.check data = true ↔ ∃ p, p <+: data ∧ t.refcount p ≠ 0 := by
  intro data
  induction data with
  | nil =>
    intro t
    rw [check]
    simp
  | cons c data ih =>
    intro t
    rw [check, Bool.or_eq_true]
    constructor
    · rintro (h | h)
      · exact ⟨[], List.nil_prefix, by simpa using h⟩
      cases hget : t.table.get c.toNat with
      | none => simp [hget] at h
      | some u =>
        simp only [hget] at h
        obtain ⟨p, hp, hr⟩ := ih.mp h
        exact ⟨c :: p, List.cons_prefix_cons.mpr ⟨rfl, hp⟩, by
          rwa [refcount, valueAt_cons, hget]⟩
    rintro ⟨p, hp, hr⟩
    cases p with
    | nil => exact Or.inl (by simpa using hr)
    | cons x p =>
      obtain ⟨rfl, hp'⟩ := List.cons_prefix_cons.mp hp
      rw [refcount, valueAt_cons] at hr
      cases hget : t.table.get x.toNat with
      | none => simp [hget] at hr
      | some u =>
        rw [hget] at hr
        exact Or.inr (ih.mpr ⟨p, hp', hr⟩)

theorem mem_keys {t : Trie} (h : t.WF) {key : List UInt8} : key ∈ t.keys ↔ t.refcount key ≠ 0 := by
  unfold keys
  rw [List.mem_map]
  constructor
  · rintro ⟨⟨k, v⟩, hmem, rfl⟩
    obtain ⟨rfl, hne⟩ := (mem_entries h).mp hmem
    exact hne
  · intro hne
    exact ⟨(key, t.refcount key), (mem_entries h).mpr ⟨rfl, hne⟩, rfl⟩

end Trie

/-- `trie_with_size_t`: a trie that counts its prefixes, in a 32-bit counter. -/
structure TrieWithSize where
  trie : Trie
  numPrefixes : Nat

namespace TrieWithSize

def empty : TrieWithSize := ⟨Trie.empty, 0⟩

def add (t : TrieWithSize) (key : List UInt8) : Except Fault (TrieWithSize × Bool) :=
  match t.trie.add key with
  | .error e => .error e
  | .ok (trie, true) => .ok (⟨trie, (t.numPrefixes + 1) % 2 ^ 32⟩, true)
  | .ok (trie, false) => .ok (⟨trie, t.numPrefixes⟩, false)

def rm (t : TrieWithSize) (key : List UInt8) : Except Fault (TrieWithSize × Bool) :=
  match t.trie.rm key with
  | .error e => .error e
  | .ok (trie, true) => .ok (⟨trie, (t.numPrefixes + 2 ^ 32 - 1) % 2 ^ 32⟩, true)
  | .ok (trie, false) => .ok (⟨trie, t.numPrefixes⟩, false)

def check (t : TrieWithSize) (data : List UInt8) : Bool := t.trie.check data

/-- The keys `apply` visits. -/
def keys (t : TrieWithSize) : List (List UInt8) := t.trie.keys

/-- The multiplicity of the key has gone up. -/
structure Added (t : TrieWithSize) (key : List UInt8) (t' : TrieWithSize) : Prop where
  wf : t'.trie.WF
  refcount : ∀ k, t'.trie.refcount k =
    if k = key then t.trie.refcount key + 1 else t.trie.refcount k
  numPrefixes : t'.numPrefixes =
    if t.trie.refcount key = 0 then (t.numPrefixes + 1) % 2 ^ 32 else t.numPrefixes

/-- The multiplicity of the key has gone down, unless the key was not there. -/
structure Removed (t : TrieWithSize) (key : List UInt8) (t' : TrieWithSize) : Prop where
  wf : t'.trie.WF
  refcount : ∀ k, t'.trie.refcount k =
    if k = key then t.trie.refcount key - 1 else t.trie.refcount k
  numPrefixes : t'.numPrefixes =
    if t.trie.refcount key = 1 then (t.numPrefixes + 2 ^ 32 - 1) % 2 ^ 32 else t.numPrefixes

variable {t t' : TrieWithSize} {key : List UInt8}

/-- `add` raises the multiplicity of the key while there is room in the node. -/
theorem add_spec (h : t.trie.WF) (key : List UInt8) (href : t.trie.refcount key + 1 < 2 ^ 32) :
    ∃ t', t.add key = .ok (t', t.trie.refcount key == 0) ∧ Added t key t' := by
  obtain ⟨trie, hadd, hval, hwf⟩ := Trie.add_spec h key
  rw [Nat.mod_eq_of_lt href] at hadd hval hwf
  have hres : (t.trie.refcount key + 1 == 1) = (t.trie.refcount key == 0) := by simp
  rw [hres] at hadd
  unfold add
  rw [hadd]
  by_cases hzero : t.trie.refcount key = 0
  · simp only [hzero, beq_self_eq_true]
    exact ⟨_, rfl, hwf (by omega), fun k => by rw [hval], by rw [if_pos hzero]⟩
  · simp only [beq_eq_false_iff_ne.mpr hzero]
    exact ⟨_, rfl, hwf (by omega), hval, by rw [if_neg hzero]⟩

/-- Whether there is room or not, `add` counts modulo 2^32. -/
theorem add_refcount (h : t.trie.WF) (key : List UInt8) :
    ∃ t' b, t.add key = .ok (t', b) ∧
      t'.trie.refcount key = (t.trie.refcount key + 1) % 2 ^ 32 := by
  obtain ⟨trie, hadd, hval, -⟩ := Trie.add_spec h key
  have hkey := hval key
  rw [if_pos rfl] at hkey
  unfold add
  rw [hadd]
  cases (t.trie.refcount key + 1) % 2 ^ 32 == 1 with
  | true => exact ⟨_, _, rfl, hkey⟩
  | false => exact ⟨_, _, rfl, hkey⟩

/-- `rm` lowers the multiplicity of a key that is there. -/
theorem rm_spec (h : t.trie.WF) (key : List UInt8) :
    ∃ t', t.rm key = .ok (t', t.trie.refcount key == 1) ∧ Removed t key t' := by
  obtain ⟨trie, hrm, hwf, hval⟩ := Trie.rm_spec h key
  unfold rm
  rw [hrm]
  by_cases hone : t.trie.refcount key = 1
  · simp only [hone, beq_self_eq_true]
    exact ⟨_, rfl, hwf, fun k => by rw [hval], by rw [if_pos hone]⟩
  · simp only [beq_eq_false_iff_ne.mpr hone]
    exact ⟨_, rfl, hwf, hval, by rw [if_neg hone]⟩

/-- The counter of prefixes is exact. -/
def Counts (t : TrieWithSize) : Prop :=
  t.numPrefixes = t.keys.toFinset.card ∧ t.numPrefixes < 2 ^ 32

theorem mem_keys_toFinset (h : t.trie.WF) {k : List UInt8} :
    k ∈ t.keys.toFinset ↔ t.trie.refcount k ≠ 0 := by
  rw [List.mem_toFinset, keys, Trie.mem_keys h]

theorem empty_counts : empty.Counts := by
  have hnone : empty.keys.toFinset = ∅ := by
    ext k
    rw [mem_keys_toFinset Trie.empty_wf]
    simp [empty]
  rw [Counts, hnone]
  decide

theorem Added.counts (ha : Added t key t') (h : t.trie.WF) (hc : t.Counts)
    (hroom : t.numPrefixes + 1 < 2 ^ 32) : t'.Counts := by
  have hset : t'.keys.toFinset = insert key t.keys.toFinset := by
    ext k
    rw [Finset.mem_insert, mem_keys_toFinset ha.wf, mem_keys_toFinset h, ha.refcount]
    by_cases hk : k = key <;> simp [hk]
  unfold Counts at hc ⊢
  rw [hset, ha.numPrefixes]
  by_cases hzero : t.trie.refcount key = 0
  · have hnot : key ∉ t.keys.toFinset := fun hin => (mem_keys_toFinset h).mp hin hzero
    rw [if_pos hzero, Finset.card_insert_of_notMem hnot, Nat.mod_eq_of_lt hroom]
    omega
  · rw [if_neg hzero, Finset.insert_eq_of_mem ((mem_keys_toFinset h).mpr hzero)]
    exact hc

theorem Removed.counts (hr : Removed t key t') (h : t.trie.WF) (hc : t.Counts) : t'.Counts := by
  unfold Counts at hc ⊢
  rw [hr.numPrefixes]
  by_cases hone : t.trie.refcount key = 1
  · have hin : key ∈ t.keys.toFinset := by
      rw [mem_keys_toFinset h, hone]
      exact Nat.one_ne_zero
    have hset : t'.keys.toFinset = t.keys.toFinset.erase key := by
      ext k
      rw [Finset.mem_erase, mem_keys_toFinset hr.wf, mem_keys_toFinset h, hr.refcount]
      by_cases hk : k = key <;> simp [hk, hone]
    have hpos := Finset.card_pos.mpr ⟨key, hin⟩
    rw [if_pos hone, hset, Finset.card_erase_of_mem hin]
    omega
  have hset : t'.keys.toFinset = t.keys.toFinset := by
    ext k
    rw [mem_keys_toFinset hr.wf, mem_keys_toFinset h, hr.refcount]
    by_cases hk : k = key
    · subst hk
      rw [if_pos rfl]
      omega
    · rw [if_neg hk]
  rw [if_neg hone, hset]
  exact hc

end TrieWithSize

end ServerLink

import Mathlib.Data.Multiset.Dedup
import ServerLink.Lib.PathBuffer
import ServerLink.Lib.Run
import ServerLink.Pipe.Trie
import ServerLink.Protocol.Wire

/-!
# ServerLink.Pipe.PrefixSet

The subscription trie as a multiset of prefixes, over whole sequences of calls.

`apply_helper` is modelled with its buffer: the path to the node is stored in a buffer
that is reallocated on the way down, and what the function is called with is read from
there. A caller knows the size of the buffer as it was when it called; a sibling visited
before may have made it larger.
-/

namespace ServerLink

open Radix Radix.Node PathBuffer Multiset

namespace Trie

/-! ### Applying a function -/

/-- What `func_` is called with. -/
abbrev Calls := List (Buffer UInt8)

mutual

/-- `apply_helper`: the buffer, and the calls of the function. -/
def applyHelper : Trie → Buffer UInt8 → Nat → Nat → Except Fault (Buffer UInt8 × Calls)
  | mk refcnt _ min slots, buff, buffsize, maxbuffsize =>
    let called := if refcnt = 0 then [] else [buff.take buffsize]
    let b := adjust 256 buff maxbuffsize buffsize
    match applySlots (slots.length == 1) min slots b.1 buffsize b.2 with
    | .error e => .error e
    | .ok (buff, calls) => .ok (buff, called ++ calls)

/-- The children from the character `c` on. -/
def applySlots (single : Bool) :
    Nat → List (Option Trie) → Buffer UInt8 → Nat → Nat → Except Fault (Buffer UInt8 × Calls)
  | _, [], buff, _, _ => .ok (buff, [])
  | c, o :: os, buff, buffsize, maxbuffsize =>
    match store .trieBuffer buff buffsize (UInt8.ofNat c) with
    | .error e => .error e
    | .ok buff =>
      match applyChild single o buff (buffsize + 1) maxbuffsize with
      | .error e => .error e
      | .ok (buff, calls) =>
        match applySlots single (c + 1) os buff buffsize maxbuffsize with
        | .error e => .error e
        | .ok (buff, rest) => .ok (buff, calls ++ rest)

/-- A single child is not tested for null. -/
def applyChild (single : Bool) :
    Option Trie → Buffer UInt8 → Nat → Nat → Except Fault (Buffer UInt8 × Calls)
  | none, buff, _, _ => if single then .error .trieFreed else .ok (buff, [])
  | some t, buff, buffsize, maxbuffsize => applyHelper t buff buffsize maxbuffsize

end

def apply (t : Trie) : Except Fault Calls :=
  match applyHelper t [] 0 0 with
  | .error e => .error e
  | .ok (_, calls) => .ok calls

/-- What is visited below the node at a path. -/
def visits (path : List UInt8) (es : List (List UInt8 × Nat)) : Calls :=
  es.map fun e => (path ++ e.1).map some

theorem visits_append (path : List UInt8) (es es' : List (List UInt8 × Nat)) :
    visits path (es ++ es') = visits path es ++ visits path es' := List.map_append

theorem visits_child (path : List UInt8) (i : Nat) (t : Trie) :
    visits path (childEntries 0 i (some t)) = visits (path ++ [UInt8.ofNat i]) (entries 0 t) := by
  rw [childEntries, visits, visits, List.map_map]
  refine List.map_congr_left fun e _ => ?_
  simp

/-- The children of a node, when each of them visits its keys. -/
theorem applySlots_spec {single : Bool} {path : List UInt8} {max : Nat} (hroom : path.length < max)
    {slots : List (Option Trie)} (hsingle : single = true → none ∉ slots)
    (ih : ∀ t, some t ∈ slots → ∀ {c : UInt8} {buff : Buffer UInt8}, Holds (path ++ [c]) max buff →
      ∃ buff', applyHelper t buff (path.length + 1) max =
          .ok (buff', visits (path ++ [c]) (entries 0 t)) ∧ Holds (path ++ [c]) max buff') :
    ∀ {c : Nat} {buff : Buffer UInt8}, Holds path max buff →
      ∃ buff', applySlots single c slots buff path.length max =
          .ok (buff', visits path (slotEntries 0 c slots)) ∧ Holds path max buff' := by
  induction slots with
  | nil => intro c buff h; exact ⟨buff, rfl, h⟩
  | cons o os ihs =>
    intro c buff h
    obtain ⟨buff1, hstore, h1⟩ := h.store hroom Fault.trieBuffer (UInt8.ofNat c)
    have hchild : ∃ buff2, applyChild single o buff1 (path.length + 1) max =
        .ok (buff2, visits path (childEntries 0 c o)) ∧ Holds path max buff2 := by
      cases o with
      | none =>
        have hs : single = false := by
          cases hs : single with
          | false => rfl
          | true => exact absurd List.mem_cons_self (hsingle hs)
        exact ⟨buff1, by rw [applyChild, hs]; rfl, h1.cut⟩
      | some t =>
        obtain ⟨buff2, ht, h2⟩ := ih t List.mem_cons_self h1
        exact ⟨buff2, by rw [applyChild, visits_child, ht], h2.cut⟩
    obtain ⟨buff2, hc, h2⟩ := hchild
    obtain ⟨buff3, hrest, h3⟩ := ihs (fun hs hmem => hsingle hs (List.mem_cons_of_mem _ hmem))
      (fun t ht => ih t (List.mem_cons_of_mem _ ht)) (c := c + 1) h2
    refine ⟨buff3, ?_, h3⟩
    rw [applySlots, hstore]
    simp only [hc, hrest, slotEntries, visits_append]

/-- **`apply_helper` visits the keys.** Nothing is stored outside of the buffer, and the
function is called with each key below the node. -/
theorem applyHelper_spec {t : Trie} (h : t.WF) :
    ∀ {path : List UInt8} {max : Nat} {buff : Buffer UInt8}, Holds path max buff →
      ∃ buff', applyHelper t buff path.length max = .ok (buff', visits path (entries 0 t)) ∧
        Holds path max buff' := by
  induction h with
  | mk n table child useful ih =>
    intro path max buff hbuff
    obtain ⟨refcnt, l, min, slots⟩ := n
    obtain ⟨hadj, hroom, hle⟩ := hbuff.adjust (show 0 < 256 by decide)
    have hsingle : (slots.length == 1) = true → none ∉ slots := by
      intro hone hnone
      have hlen : slots.length = 1 := by simpa using hone
      obtain ⟨o, rfl⟩ := List.length_eq_one_iff.mp hlen
      obtain rfl := List.mem_singleton.mp hnone
      have hfirst := (table.tight (by simp [Node.table])).1
      simp [Node.table, OffsetTable.get] at hfirst
    obtain ⟨buff', hslots, h'⟩ := applySlots_spec hroom hsingle (fun t ht c b hb => by
      obtain ⟨i, hi⟩ := OffsetTable.exists_get_of_mem (t := ⟨min, slots⟩) ht
      have hrec := ih i t hi hb
      rw [List.length_append, List.length_singleton] at hrec
      exact hrec) (c := min) hadj
    refine ⟨buff', ?_, h'.mono hle⟩
    have hcalled : (if refcnt = 0 then [] else [buff.take path.length]) =
        visits path (if refcnt = 0 then [] else [([], refcnt)]) := by
      split
      · rfl
      · rw [hbuff.path]
        simp [visits]
    simp only [applyHelper, hslots, entries, visits_append, hcalled]

theorem apply_eq {t : Trie} (h : t.WF) : t.apply = .ok (t.keys.map (List.map some)) := by
  obtain ⟨buff', happly, -⟩ := applyHelper_spec h (holds_nil [])
  rw [List.length_nil] at happly
  rw [apply, happly, keys, List.map_map]
  rfl

theorem keys_nodup {t : Trie} (h : t.WF) : t.keys.Nodup := entries_nodup h

end Trie

/-! ### Sequences of calls -/

/-- The calls that change a trie. -/
inductive TrieCall
  | add (key : List UInt8)
  | rm (key : List UInt8)
  deriving Repr, DecidableEq

namespace TrieWithSize

/-- A call, and its result behind the earlier ones. -/
def call (s : TrieWithSize × List Bool) : TrieCall → Except Fault (TrieWithSize × List Bool)
  | .add key => (s.1.add key).map fun r => (r.1, s.2 ++ [r.2])
  | .rm key => (s.1.rm key).map fun r => (r.1, s.2 ++ [r.2])

/-- A new trie after some calls, and their results. -/
def run (calls : List TrieCall) : Except Fault (TrieWithSize × List Bool) :=
  CheckedRun.run call (empty, []) calls

def apply (t : TrieWithSize) : Except Fault Trie.Calls := t.trie.apply

end TrieWithSize

/-- What a multiset of prefixes should do. -/
def prefixesCall (s : Multiset (List UInt8) × List Bool) :
    TrieCall → Multiset (List UInt8) × List Bool
  | .add key => (key ::ₘ s.1, s.2 ++ [decide (s.1.count key = 0)])
  | .rm key => (s.1.erase key, s.2 ++ [decide (s.1.count key = 1)])

/-- The multiset after some calls, and their results. -/
def prefixesRun (calls : List TrieCall) : Multiset (List UInt8) × List Bool :=
  calls.foldl prefixesCall (0, [])

theorem prefixesRun_append (calls : List TrieCall) (c : TrieCall) :
    prefixesRun (calls ++ [c]) = prefixesCall (prefixesRun calls) c := by
  rw [prefixesRun, List.foldl_append]
  rfl

/-- Every multiplicity fits into its counter, in every state reached. -/
def Fits (calls : List TrieCall) : Prop :=
  ∀ before, before <+: calls → ∀ key, (prefixesRun before).1.count key < 2 ^ 32

/-- The trie stores the multiset. -/
structure Stores (t : TrieWithSize) (m : Multiset (List UInt8)) : Prop where
  wf : t.trie.WF
  refcount : ∀ key, t.trie.refcount key = m.count key
  numPrefixes : t.numPrefixes = m.toFinset.card % 2 ^ 32

theorem stores_empty : Stores TrieWithSize.empty 0 :=
  ⟨Trie.empty_wf, fun key => by simp [TrieWithSize.empty], rfl⟩

variable {t : TrieWithSize} {m : Multiset (List UInt8)}

theorem Stores.add (h : Stores t m) {key : List UInt8} (hfits : m.count key + 1 < 2 ^ 32) :
    ∃ t', t.add key = .ok (t', decide (m.count key = 0)) ∧ Stores t' (key ::ₘ m) := by
  rw [← h.refcount] at hfits
  obtain ⟨t', hadd, ha⟩ := TrieWithSize.add_spec h.wf key hfits
  rw [h.refcount] at hadd
  refine ⟨t', hadd, ha.wf, fun k => ?_, ?_⟩
  · rw [ha.refcount, h.refcount, h.refcount, count_cons]
    by_cases hk : k = key
    · rw [if_pos hk, if_pos hk, hk]
    · rw [if_neg hk, if_neg hk]
      rfl
  rw [ha.numPrefixes, h.refcount, h.numPrefixes, toFinset_cons]
  by_cases hzero : m.count key = 0
  · have hnot : key ∉ m.toFinset := by
      rw [mem_toFinset]
      exact count_eq_zero.mp hzero
    rw [if_pos hzero, Finset.card_insert_of_notMem hnot, Nat.mod_add_mod]
  have hmem : key ∈ m.toFinset := by
    rw [mem_toFinset]
    exact count_ne_zero.mp hzero
  rw [if_neg hzero, Finset.insert_eq_of_mem hmem]

theorem Stores.rm (h : Stores t m) (key : List UInt8) :
    ∃ t', t.rm key = .ok (t', decide (m.count key = 1)) ∧ Stores t' (m.erase key) := by
  obtain ⟨t', hrm, hr⟩ := TrieWithSize.rm_spec h.wf key
  rw [h.refcount] at hrm
  refine ⟨t', hrm, hr.wf, fun k => ?_, ?_⟩
  · rw [hr.refcount, h.refcount, h.refcount]
    by_cases hk : k = key
    · rw [if_pos hk, hk, count_erase_self]
    · rw [if_neg hk, count_erase_of_ne hk]
  rw [hr.numPrefixes, h.refcount, h.numPrefixes]
  by_cases hone : m.count key = 1
  · -- The last copy of the key goes.
    have hmem : key ∈ m.toFinset := by
      rw [mem_toFinset]
      exact count_ne_zero.mp (by omega)
    have hset : (m.erase key).toFinset = m.toFinset.erase key := by
      ext k
      rw [Finset.mem_erase, mem_toFinset, mem_toFinset, ← count_ne_zero, ← count_ne_zero]
      by_cases hk : k = key
      · rw [hk, count_erase_self, hone]
        simp
      · rw [count_erase_of_ne hk]
        simp [hk]
    have hpos := Finset.card_pos.mpr ⟨key, hmem⟩
    rw [if_pos hone, hset, Finset.card_erase_of_mem hmem]
    omega
  · have hset : (m.erase key).toFinset = m.toFinset := by
      ext k
      rw [mem_toFinset, mem_toFinset, ← count_ne_zero, ← count_ne_zero]
      by_cases hk : k = key
      · rw [hk, count_erase_self]
        omega
      · rw [count_erase_of_ne hk]
    rw [if_neg hone, hset]

/-- By induction on the last call, which acts on the set the calls before it leave. -/
theorem stores_run {calls : List TrieCall} (h : Fits calls) :
    ∃ t, TrieWithSize.run calls = .ok (t, (prefixesRun calls).2) ∧
      Stores t (prefixesRun calls).1 := by
  induction calls using List.reverseRecOn with
  | nil => exact ⟨TrieWithSize.empty, rfl, stores_empty⟩
  | append_singleton calls c ih =>
    obtain ⟨t, hrun, hstores⟩ := ih fun before hb =>
      h before (hb.trans (List.prefix_append calls [c]))
    have hstep : ∃ t', TrieWithSize.call (t, (prefixesRun calls).2) c =
        .ok (t', (prefixesCall (prefixesRun calls) c).2) ∧
        Stores t' (prefixesCall (prefixesRun calls) c).1 := by
      cases c with
      | add key =>
        have hfits := h (calls ++ [.add key]) (List.prefix_refl _) key
        rw [prefixesRun_append, prefixesCall, count_cons_self] at hfits
        obtain ⟨t', hadd, h'⟩ := hstores.add hfits
        exact ⟨t', by rw [TrieWithSize.call, hadd]; rfl, h'⟩
      | rm key =>
        obtain ⟨t', hrm, h'⟩ := hstores.rm key
        exact ⟨t', by rw [TrieWithSize.call, hrm]; rfl, h'⟩
    obtain ⟨t', hcall, h'⟩ := hstep
    rw [prefixesRun_append]
    refine ⟨t', ?_, h'⟩
    rw [TrieWithSize.run, CheckedRun.run_append_of_ok _ hrun, CheckedRun.run_singleton, hcall]

/-- `check` and `apply` on a trie that stores a multiset. -/
theorem Stores.check_iff (h : Stores t m) (data : List UInt8) :
    t.check data = true ↔ ∃ key ∈ m, key <+: data := by
  rw [TrieWithSize.check, Trie.check_iff]
  constructor
  · rintro ⟨p, hp, hne⟩
    rw [h.refcount] at hne
    exact ⟨p, count_ne_zero.mp hne, hp⟩
  rintro ⟨p, hmem, hp⟩
  refine ⟨p, hp, ?_⟩
  rw [h.refcount]
  exact count_ne_zero.mpr hmem

theorem Stores.apply (h : Stores t m) :
    ∃ keys : List (List UInt8), t.apply = .ok (keys.map (List.map some)) ∧
      (keys : Multiset (List UInt8)) = m.dedup := by
  refine ⟨t.trie.keys, Trie.apply_eq h.wf, ?_⟩
  have hnodup : (t.trie.keys : Multiset (List UInt8)).Nodup :=
    coe_nodup.mpr (Trie.keys_nodup h.wf)
  refine (Multiset.Nodup.ext hnodup m.nodup_dedup).mpr fun key => ?_
  rw [mem_coe, Trie.mem_keys h.wf, h.refcount, mem_dedup, count_ne_zero]

/-- **The subscription trie is a multiset of prefixes.** As long as the multiplicities fit
into their counters, no assertion fails in any sequence of calls; `add` and `rm` return
true exactly when the first copy of a key comes and the last one goes; `check` finds a
stored prefix of the data; `apply` visits each stored key once, with its bytes; and the
counter is the number of the distinct keys, modulo 2^32. -/
theorem trie_is_multiset {calls : List TrieCall} (h : Fits calls) :
    ∃ t, TrieWithSize.run calls = .ok (t, (prefixesRun calls).2) ∧
      (∀ data, t.check data = true ↔ ∃ key ∈ (prefixesRun calls).1, key <+: data) ∧
      (∃ keys : List (List UInt8), t.apply = .ok (keys.map (List.map some)) ∧
        (keys : Multiset (List UInt8)) = (prefixesRun calls).1.dedup) ∧
      t.numPrefixes = (prefixesRun calls).1.toFinset.card % 2 ^ 32 := by
  obtain ⟨t, hrun, hstores⟩ := stores_run h
  exact ⟨t, hrun, hstores.check_iff, hstores.apply, hstores.numPrefixes⟩

/-- There are not more copies of a key than calls. -/
theorem count_prefixesRun_le (calls : List TrieCall) (key : List UInt8) :
    (prefixesRun calls).1.count key ≤ calls.length := by
  induction calls using List.reverseRecOn with
  | nil => exact Nat.zero_le _
  | append_singleton calls c ih =>
    rw [prefixesRun_append, List.length_append, List.length_singleton]
    cases c with
    | add k =>
      have hcons := count_cons key k (prefixesRun calls).1
      rw [prefixesCall, hcons]
      split <;> omega
    | rm k => exact Nat.le_succ_of_le (Nat.le_trans (count_le_of_le key (erase_le k _)) ih)

theorem fits_of_length {calls : List TrieCall} (h : calls.length < 2 ^ 32) : Fits calls :=
  fun before hb key => Nat.lt_of_le_of_lt (count_prefixesRun_le before key)
    (Nat.lt_of_le_of_lt hb.length_le h)

/-- Two copies of a key and a longer key; a copy and the longer key go again. -/
theorem trie_is_multiset_two_keys :
    ∃ t, TrieWithSize.run [.add [1], .add [1], .add [1, 2], .rm [1], .rm [1, 2], .rm [3]] =
        .ok (t, [true, false, true, false, true, false]) ∧
      (∀ data, t.check data = true ↔ ∃ key ∈ ({[1]} : Multiset (List UInt8)), key <+: data) ∧
      (∃ keys : List (List UInt8), t.apply = .ok (keys.map (List.map some)) ∧
        (keys : Multiset (List UInt8)) = {[1]}) ∧
      t.numPrefixes = 1 :=
  trie_is_multiset (fits_of_length (by decide))

/-- The four bytes of every number below `n`. -/
def numbered (n : Nat) : List TrieCall := (List.range n).map fun i => .add (putUint32 i)

theorem prefixesRun_numbered (n : Nat) :
    (prefixesRun (numbered n)).1 = (range n).map putUint32 := by
  induction n with
  | zero => rfl
  | succ n ih =>
    have hlast : numbered (n + 1) = numbered n ++ [.add (putUint32 n)] := by
      rw [numbered, List.range_succ, List.map_append]
      rfl
    rw [hlast, prefixesRun_append, prefixesCall, ih, range_succ, map_cons]

theorem nodup_numbered {n : Nat} (hn : n ≤ 2 ^ 32) : (prefixesRun (numbered n)).1.Nodup := by
  rw [prefixesRun_numbered]
  refine (nodup_range n).map_on fun i hi j hj h => ?_
  have hget := congrArg getUint32 h
  rwa [getUint32_putUint32 (Nat.lt_of_lt_of_le (mem_range.mp hi) hn),
    getUint32_putUint32 (Nat.lt_of_lt_of_le (mem_range.mp hj) hn)] at hget

theorem card_numbered {n : Nat} (hn : n ≤ 2 ^ 32) :
    (prefixesRun (numbered n)).1.toFinset.card = n := by
  rw [toFinset_card_of_nodup (nodup_numbered hn), prefixesRun_numbered, card_map, card_range]

theorem fits_numbered {n : Nat} (hn : n ≤ 2 ^ 32) : Fits (numbered n) := by
  intro before hb key
  obtain ⟨rest, hrest⟩ := hb
  have hle : before.length ≤ n := by
    have hlen := congrArg List.length hrest
    simp only [List.length_append, numbered, List.length_map, List.length_range] at hlen
    omega
  have hbefore : before = numbered before.length := by
    have htake := congrArg (List.take before.length) hrest
    rwa [List.take_left' rfl, numbered, ← List.map_take, List.take_range,
      Nat.min_eq_left hle] at htake
  rw [hbefore]
  exact Nat.lt_of_le_of_lt
    (nodup_iff_count_le_one.mp (nodup_numbered (Nat.le_trans hle hn)) key) (by decide)

theorem length_of_mem_numbered {n : Nat} {key : List UInt8} (h : TrieCall.add key ∈ numbered n) :
    key.length = 4 := by
  obtain ⟨i, -, hi⟩ := List.mem_map.mp h
  cases hi
  rfl

/-- With 2^32 different keys, of four bytes each, the counter of prefixes is zero again. -/
theorem trie_counter_wraps :
    ∃ calls t results, (∀ key, TrieCall.add key ∈ calls → key.length = 4) ∧ Fits calls ∧
      TrieWithSize.run calls = .ok (t, results) ∧
      t.numPrefixes ≠ (prefixesRun calls).1.toFinset.card := by
  obtain ⟨t, hrun, hstores⟩ := stores_run (fits_numbered (Nat.le_refl (2 ^ 32)))
  refine ⟨numbered (2 ^ 32), t, _, fun _ => length_of_mem_numbered, fits_numbered (Nat.le_refl _),
    hrun, ?_⟩
  rw [hstores.numPrefixes, card_numbered (Nat.le_refl (2 ^ 32))]
  decide

end ServerLink

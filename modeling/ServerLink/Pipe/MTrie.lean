import Mathlib.Data.Finset.Sort
import ServerLink.Lib.RadixWalk
import ServerLink.Util.Err

/-!
# ServerLink.Pipe.MTrie

The multi-trie of a publisher (`mtrie_impl.hpp`): every node holds the set of pipes
subscribed to its prefix, or none (`_pipes` is null when the set would be empty). A
pipe is a number. The source walks the trie with an explicit stack; here the walks are
recursive and visit the nodes in the same order.

A multi-trie is a map from prefixes to sets of pipes (`pipesAt`).
-/

namespace ServerLink

open Radix Radix.Node OffsetTable Finset

abbrev PipeId := Nat

/-- The nodes of `mtrie_t<pipe_t>`. -/
abbrev MNode := Radix.Node (Option (Finset PipeId))

/-- `mtrie_t<pipe_t>::rm_result`. -/
inductive RmResult
  | notFound
  | lastValueRemoved
  | valuesRemain
  deriving Repr, DecidableEq

/-- `mtrie_t<pipe_t>`, with the counter of its root. -/
structure MTrie where
  root : MNode
  numPrefixes : Nat

namespace MTrie

variable {t t' : MTrie} {key : List UInt8} {pipe : PipeId}

def empty : MTrie := ⟨leaf none, 0⟩

/-- The pipes subscribed to exactly this prefix. -/
def pipesAt (t : MTrie) (key : List UInt8) : Finset PipeId :=
  (t.root.valueAt none key).getD ∅

/-- `add`: true iff no entry with this prefix existed. -/
def add (t : MTrie) (key : List UInt8) (pipe : PipeId) : Except Fault (MTrie × Bool) :=
  match Radix.Node.insert none (fun _ _ => Except.ok ())
      (fun pipes : Option (Finset PipeId) => (some (insert pipe (pipes.getD ∅)), pipes.isNone))
      t.root key with
  | .error e => .error e
  | .ok (root, result) =>
    .ok (⟨root, if result then (t.numPrefixes + 1) % 2 ^ 32 else t.numPrefixes⟩, result)

/-- The removal of a pipe at the node of the prefix in `rm`. -/
def erase (pipe : PipeId) :
    Option (Finset PipeId) → Except Fault (Option (Finset PipeId) × RmResult)
  | none => .ok (none, .notFound)
  | some pipes =>
    if pipes.erase pipe = ∅ then
      if pipe ∈ pipes then .ok (none, .lastValueRemoved) else .error .mtrieErased
    else .ok (some (pipes.erase pipe), if pipe ∈ pipes then .valuesRemain else .notFound)

/-- The pruning of a redundant child at `c` in `rm`. -/
def prune (n : MNode) (c : Nat) : Except Fault MNode :=
  let t := n.table
  if t.slots.length = 1 then
    if n.live - 1 = 0 then .ok (ofTable n.val (n.live - 1) ⟨t.min, []⟩)
    else .error .trieLiveNodes
  else if ¬ 1 < n.live then .error .trieLiveNodes
  else
    let u := t.set c none
    let live := n.live - 1
    if live = 1 then
      -- Keep the first node that is there.
      match u.get u.trimLeft.min with
      | some node => .ok (ofTable n.val live ⟨u.trimLeft.min, [some node]⟩)
      | none => .error .trieNode
    else if c = t.min then
      if u.trimLeft.slots.isEmpty then .error .trieRange else .ok (ofTable n.val live u.trimLeft)
    else if c = t.stop - 1 then
      if u.trimRight.slots.isEmpty then .error .trieRange
      else .ok (ofTable n.val live u.trimRight)
    else .ok (ofTable n.val live u)

/-- `rm (prefix, size, pipe)`. -/
def rm (t : MTrie) (key : List UInt8) (pipe : PipeId) : Except Fault (MTrie × RmResult) :=
  match Radix.Node.remove none prune .notFound (erase pipe) t.root key with
  | .error e => .error e
  | .ok (root, .lastValueRemoved) =>
    if 0 < t.numPrefixes then .ok (⟨root, t.numPrefixes - 1⟩, .lastValueRemoved)
    else .error .mtrieNumPrefixes
  | .ok (root, result) => .ok (⟨root, t.numPrefixes⟩, result)

/-- What removing a pipe everywhere does to the pipes of a node. -/
def erasePipe (pipe : PipeId) : Option (Finset PipeId) → Option (Finset PipeId)
  | none => none
  | some pipes => if pipes.erase pipe = ∅ then none else some (pipes.erase pipe)

/-- The end of the visit of a node in `rm (pipe)`, when `gone` of its children have been deleted:
count them off, and resize or free the table. -/
def compact (gone : Nat) (n : MNode) : Except Fault MNode :=
  let t := n.table
  let live := n.live - gone
  -- The first and the last node that is left.
  let newMin := t.trimLeft.min
  let newMax := t.trimRight.stop - 1
  if n.live < gone then .error .trieLiveNodes
  else if t.slots.length ≤ 1 then
    if gone = 0 then .ok n
    else if live = 0 then .ok (ofTable n.val live ⟨t.min, []⟩)
    else .error .trieLiveNodes
  else if live = 0 then .ok (ofTable n.val live ⟨t.min, []⟩)
  else if live = 1 then
    if newMin = newMax ∧ t.min ≤ newMin ∧ newMin < t.stop then
      match t.get newMin with
      | some node => .ok (ofTable n.val live ⟨newMin, [some node]⟩)
      | none => .error .trieNode
    else .error .trieRange
  else if t.min < newMin ∨ newMax < t.stop - 1 then
    if 1 < newMax - newMin + 1 ∧ t.min ≤ newMin ∧ newMax ≤ t.stop - 1 ∧
        newMax - newMin + 1 < t.slots.length then
      .ok (ofTable n.val live t.trimLeft.trimRight)
    else .error .trieRange
  else .ok (ofTable n.val live t)

/-- `rm (pipe, func, arg, call_on_uniq)`: remove the pipe everywhere. The prefixes for
which `func` is called are returned in the order of the walk. The counter of prefixes
is not changed. -/
def rmPipe (t : MTrie) (pipe : PipeId) (callOnUniq : Bool) :
    Except Fault (MTrie × List (List UInt8)) :=
  match sweep none compact (erasePipe pipe) t.root with
  | .error e => .error e
  | .ok root =>
    .ok (⟨root, t.numPrefixes⟩,
      (entries none t.root).filterMap fun e =>
        let pipes := e.2.getD ∅
        if pipe ∈ pipes ∧ (callOnUniq = false ∨ pipes.erase pipe = ∅) then some e.1 else none)

/-- The calls of `func` in `match`: the pipes at the prefixes of the data, in the order
of the sets. -/
def matchPipes (t : MTrie) (data : List UInt8) : List PipeId :=
  (alongPath none t.root data).flatMap fun pipes => (pipes.getD ∅).sort (· ≤ ·)

/-! ### Compaction of the tables -/

theorem prune_spec (n : MNode) (i : Nat) (t : MNode) (h : n.TableOk)
    (hget : n.table.get i = some t) : ∃ n', prune n i = .ok n' ∧ PrunedAt n n' i := by
  unfold prune
  by_cases hlen : n.table.slots.length = 1
  · obtain ⟨hlive, hp⟩ := PrunedAt.only h hget hlen
    rw [if_pos hlen, if_pos (by omega), hlive]
    exact ⟨_, rfl, hp⟩
  obtain ⟨hends, hlive, hfirst, hlast⟩ := h.ends hget hlen
  rw [if_neg hlen, if_neg (by simpa using hlive)]
  have hu := h.live_set_none hget
  by_cases hone : n.live - 1 = 1
  · obtain ⟨node, hnode⟩ := Option.isSome_iff_exists.mp
      (isSome_get_trimLeft_min (t := n.table.set i none) (by omega))
    rw [if_pos hone, hnode]
    exact ⟨_, rfl, PrunedAt.single h hget hone hnode⟩
  rw [if_neg hone]
  by_cases hmin : i = n.table.min
  · obtain ⟨hne, hp⟩ := PrunedAt.left h hget (hlast (by omega))
    rw [if_pos hmin, if_neg (by simpa using hne)]
    exact ⟨_, rfl, hp⟩
  rw [if_neg hmin]
  by_cases hmax : i = n.table.stop - 1
  · obtain ⟨hne, hp⟩ := PrunedAt.right h hget (hfirst hmin)
    rw [if_pos hmax, if_neg (by simpa using hne)]
    exact ⟨_, rfl, hp⟩
  · rw [if_neg hmax]
    exact ⟨_, rfl, PrunedAt.inner h hget (hfirst hmin) (hlast hmax)⟩

/-- Nothing is left: the table is freed. -/
theorem compacted_none {n : MNode} (hlive : n.table.live = 0) (hstop : n.table.stop ≤ 256) :
    (ofTable n.val 0 ⟨n.table.min, []⟩).TableOk ∧
      ∀ j, (ofTable n.val 0 ⟨n.table.min, []⟩).table.get j = n.table.get j := by
  refine ⟨⟨rfl, ?_, fun h => absurd rfl h⟩, fun j => ?_⟩
  · simp only [table_ofTable, stop, List.length_nil] at hstop ⊢
    omega
  rw [table_ofTable, get_nil]
  cases hj : n.table.get j with
  | none => rfl
  | some t =>
    have := live_pos_of_get hj
    omega

/-- One node is left: it is kept without a table. -/
theorem compacted_single {n node : MNode} {i : Nat} (hlive : n.table.live = 1)
    (hstop : n.table.stop ≤ 256) (hnode : n.table.get i = some node) :
    (ofTable n.val 1 ⟨i, [some node]⟩).TableOk ∧
      ∀ j, (ofTable n.val 1 ⟨i, [some node]⟩).table.get j = n.table.get j := by
  have hcov := covers_of_get hnode
  unfold OffsetTable.Covers at hcov
  refine ⟨⟨rfl, ?_, fun _ => by simp [stop, get_singleton]⟩, fun j => ?_⟩
  · simp only [table_ofTable, stop, List.length_singleton] at *
    omega
  rw [table_ofTable, get_singleton]
  split
  · rename_i hj
    rw [hj, hnode]
  rename_i hj
  cases hg : n.table.get j with
  | none => rfl
  | some c =>
    have := two_le_live hnode hg hj
    omega

/-- No assertion fails when a table is resized, and it keeps the nodes that are left. -/
theorem compact_spec (gone : Nat) (n : MNode) (h : n.Thinned gone) :
    ∃ n', compact gone n = .ok n' ∧ n'.val = n.val ∧ n'.TableOk ∧
      ∀ j, n'.table.get j = n.table.get j := by
  have hlive : n.live - gone = n.table.live := by
    rw [h.live_eq, Nat.add_sub_cancel]
  unfold compact
  rw [if_neg (by rw [h.live_eq]; omega), hlive]
  by_cases hzero : n.table.live = 0
  · have hnone := compacted_none hzero h.stop_le
    rw [hzero, if_pos rfl, if_pos rfl]
    split
    · split
      · rename_i hgone
        have hnil : n.table.slots = [] := by
          by_contra hne
          have hpos := h.live_pos hne
          rw [h.live_eq] at hpos
          omega
        refine ⟨n, rfl, rfl, ⟨?_, h.stop_le, fun hne => absurd hnil hne⟩, fun _ => rfl⟩
        rw [h.live_eq, hgone, Nat.add_zero]
      · exact ⟨_, rfl, rfl, hnone⟩
    · exact ⟨_, rfl, rfl, hnone⟩
  obtain ⟨a, ha⟩ := Option.isSome_iff_exists.mp
    (isSome_get_trimLeft_min (t := n.table) (Nat.pos_of_ne_zero hzero))
  obtain ⟨b, hb⟩ := Option.isSome_iff_exists.mp
    (isSome_get_trimRight_last (t := n.table) (Nat.pos_of_ne_zero hzero))
  have hfirst := covers_of_get ha
  have hlast := covers_of_get hb
  have hstop : n.table.stop = n.table.min + n.table.slots.length := rfl
  have hle := h.live_le
  rw [h.live_eq] at hle
  unfold OffsetTable.Covers at hfirst hlast
  by_cases hlen : n.table.slots.length ≤ 1
  · obtain rfl : gone = 0 := by omega
    rw [if_pos hlen, if_pos rfl]
    refine ⟨n, rfl, rfl, ⟨h.live_eq, h.stop_le, fun _ => ?_⟩, fun _ => rfl⟩
    have hmin : n.table.trimLeft.min = n.table.min := by omega
    have hmax : n.table.stop - 1 = n.table.min := by omega
    rw [hmax, ← hmin, ha]
    exact ⟨rfl, rfl⟩
  rw [if_neg hlen, if_neg hzero]
  by_cases hone : n.table.live = 1
  · have heq : n.table.trimLeft.min = n.table.trimRight.stop - 1 := by
      by_contra hne
      have := two_le_live hb ha hne
      omega
    rw [if_pos hone, if_pos ⟨heq, hfirst⟩, ha, hone]
    exact ⟨_, rfl, rfl, compacted_single hone h.stop_le ha⟩
  rw [if_neg hone]
  have hlt : n.table.trimLeft.min < n.table.trimRight.stop - 1 :=
    trimLeft_min_lt_trimRight_last (by omega)
  split
  · rw [if_pos (by omega)]
    refine ⟨_, rfl, rfl, ⟨?_, ?_, ?_⟩, fun j => ?_⟩
    · rw [live_ofTable, table_ofTable, live_trimRight, live_trimLeft]
    · have h1 := stop_trimRight_le n.table.trimLeft
      rw [stop_trimLeft] at h1
      exact Nat.le_trans h1 h.stop_le
    · exact tight_trimRight (by rw [get_trimLeft, ha]; rfl)
    · rw [table_ofTable, get_trimRight, get_trimLeft]
  · rename_i hfull
    have hmin : n.table.trimLeft.min = n.table.min := by omega
    have hmax : n.table.trimRight.stop - 1 = n.table.stop - 1 := by omega
    rw [hmin] at ha
    rw [hmax] at hb
    refine ⟨_, rfl, rfl, ⟨rfl, h.stop_le, fun _ => ⟨?_, ?_⟩⟩, fun _ => rfl⟩
    · rw [table_ofTable, ha]
      rfl
    · rw [table_ofTable, hb]
      rfl

/-! ### The operations on the map from prefixes to pipes -/

/-- A well-formed multi-trie: the radix trie is, and no node holds an empty set. -/
structure Ok (t : MTrie) : Prop where
  root : t.root.WF none
  nonempty : ∀ key, t.root.valueAt none key ≠ some ∅

theorem empty_ok : empty.Ok := ⟨leaf_wf none, fun key => by simp [empty]⟩

@[simp] theorem pipesAt_empty (key : List UInt8) : empty.pipesAt key = ∅ := by
  simp [pipesAt, empty]

theorem Ok.valueAt_eq_none_iff (h : t.Ok) : t.root.valueAt none key = none ↔ t.pipesAt key = ∅ := by
  have hne := h.nonempty key
  unfold pipesAt
  cases hv : t.root.valueAt none key with
  | none => simp
  | some pipes =>
    rw [hv] at hne
    simpa using hne

/-- `add` adds the pipe to the set of the prefix. -/
theorem add_spec (h : t.Ok) (key : List UInt8) (pipe : PipeId) :
    ∃ t', t.add key pipe = .ok (t', decide (t.pipesAt key = ∅)) ∧ t'.Ok ∧
      (∀ k, t'.pipesAt k = if k = key then insert pipe (t.pipesAt key) else t.pipesAt k) ∧
      t'.numPrefixes =
        if t.pipesAt key = ∅ then (t.numPrefixes + 1) % 2 ^ 32 else t.numPrefixes := by
  have hcreated : ∀ live count : Nat, (count = 1 → live = 1) → (count ≠ 1 → 1 < live) →
      (Except.ok () : Except Fault Unit) = .ok () := fun _ _ _ _ => rfl
  obtain ⟨root, hins, hval, hwf⟩ := insert_spec hcreated
    (f := fun pipes : Option (Finset PipeId) => (some (insert pipe (pipes.getD ∅)), pipes.isNone))
    key h.root
  have hnone : (t.root.valueAt none key).isNone = decide (t.pipesAt key = ∅) := by
    rw [Bool.eq_iff_iff, Option.isNone_iff_eq_none, h.valueAt_eq_none_iff, decide_eq_true_iff]
  rw [hnone] at hins
  refine ⟨⟨root, _⟩, by rw [add, hins], ⟨(hwf (by simp)).1, fun k => ?_⟩, fun k => ?_, ?_⟩
  · rw [hval]
    split
    · simp
    · exact h.nonempty k
  · unfold pipesAt
    rw [hval]
    split <;> rfl
  · simp only [decide_eq_true_eq]

/-- The result of `rm` for a set of pipes. -/
def rmResult (pipes : Finset PipeId) (pipe : PipeId) : RmResult :=
  if pipe ∉ pipes then .notFound else if pipes.erase pipe = ∅ then .lastValueRemoved
  else .valuesRemain

theorem erase_eq {value : Option (Finset PipeId)} (hne : value ≠ some ∅) (pipe : PipeId) :
    erase pipe value = .ok (erasePipe pipe value, rmResult (value.getD ∅) pipe) := by
  cases value with
  | none => rfl
  | some pipes =>
    have hpipes : pipes ≠ ∅ := fun h => hne (by rw [h])
    simp only [erase, erasePipe, rmResult, Option.getD_some]
    by_cases hmem : pipe ∈ pipes
    · by_cases herase : pipes.erase pipe = ∅ <;> simp [hmem, herase]
    · simp [hmem, hpipes]

theorem getD_erasePipe (pipe : PipeId) (value : Option (Finset PipeId)) :
    (erasePipe pipe value).getD ∅ = (value.getD ∅).erase pipe := by
  cases value with
  | none => rfl
  | some pipes =>
    simp only [erasePipe, Option.getD_some]
    split
    · rename_i h
      rw [h]
      rfl
    · rfl

theorem erasePipe_ne (pipe : PipeId) (value : Option (Finset PipeId)) :
    erasePipe pipe value ≠ some ∅ := by
  cases value with
  | none => simp [erasePipe]
  | some pipes =>
    simp only [erasePipe]
    split
    · simp
    · rename_i h
      simpa using h

/-- `rm` takes the pipe out of the set of the prefix. -/
theorem rm_spec (h : t.Ok) (key : List UInt8) (pipe : PipeId)
    (hcount : rmResult (t.pipesAt key) pipe = .lastValueRemoved → 0 < t.numPrefixes) :
    ∃ t', t.rm key pipe = .ok (t', rmResult (t.pipesAt key) pipe) ∧ t'.Ok ∧
      (∀ k, t'.pipesAt k = if k = key then (t.pipesAt key).erase pipe else t.pipesAt k) ∧
      t'.numPrefixes = if rmResult (t.pipesAt key) pipe = .lastValueRemoved
        then t.numPrefixes - 1 else t.numPrefixes := by
  have hmiss : erase pipe none = .ok (none, .notFound) := rfl
  obtain ⟨root, hrem, hwf, hval⟩ := remove_spec prune_spec hmiss key h.root
    (erase_eq (h.nonempty key) pipe)
  have hOk : ∀ n, (MTrie.mk root n).Ok := fun n => ⟨hwf, fun k => by
    rw [hval]
    split
    · exact erasePipe_ne _ _
    · exact h.nonempty k⟩
  have hpipes : ∀ n k, (MTrie.mk root n).pipesAt k =
      if k = key then (t.pipesAt key).erase pipe else t.pipesAt k := by
    intro n k
    unfold pipesAt
    rw [hval]
    split
    · exact getD_erasePipe _ _
    · rfl
  change _ = Except.ok (root, rmResult (t.pipesAt key) pipe) at hrem
  unfold rm
  rw [hrem]
  cases hr : rmResult (t.pipesAt key) pipe with
  | notFound => exact ⟨_, rfl, hOk _, hpipes _, by simp⟩
  | valuesRemain => exact ⟨_, rfl, hOk _, hpipes _, by simp⟩
  | lastValueRemoved =>
    dsimp only
    rw [if_pos (hcount hr)]
    exact ⟨_, rfl, hOk _, hpipes _, by simp⟩

/-- `rm` asserts that the counter is positive when the last pipe of a prefix goes. -/
theorem rm_fault (h : t.Ok) (hlast : rmResult (t.pipesAt key) pipe = .lastValueRemoved)
    (hzero : t.numPrefixes = 0) :
    t.rm key pipe = .error .mtrieNumPrefixes := by
  have hmiss : erase pipe none = .ok (none, .notFound) := rfl
  obtain ⟨root, hrem, -, -⟩ := remove_spec prune_spec hmiss key h.root
    (erase_eq (h.nonempty key) pipe)
  change _ = Except.ok (root, rmResult (t.pipesAt key) pipe) at hrem
  unfold rm
  rw [hrem, hlast, hzero]
  rfl

/-- The counter of prefixes after a request. -/
def counted (t : MTrie) (pipe : PipeId) (subscribe : Bool) (key : List UInt8) : Nat :=
  if subscribe then
    if t.pipesAt key = ∅ then (t.numPrefixes + 1) % 2 ^ 32 else t.numPrefixes
  else if rmResult (t.pipesAt key) pipe = .lastValueRemoved then t.numPrefixes - 1
  else t.numPrefixes

/-- The pipes of the prefix change as the request says, and no others. -/
structure Requested (t : MTrie) (pipe : PipeId) (subscribe : Bool) (key : List UInt8)
    (t' : MTrie) : Prop where
  ok : t'.Ok
  pipesAt : ∀ k, t'.pipesAt k =
    if k = key then
      if subscribe then insert pipe (t.pipesAt key) else (t.pipesAt key).erase pipe
    else t.pipesAt k
  numPrefixes : t'.numPrefixes = t.counted pipe subscribe key

theorem requested_add (h : t.Ok) {first : Bool} (hadd : t.add key pipe = .ok (t', first)) :
    t.Requested pipe true key t' ∧ first = decide (t.pipesAt key = ∅) := by
  obtain ⟨u, hu, hok, hpipes, hnum⟩ := add_spec h key pipe
  rw [hadd] at hu
  cases hu
  exact ⟨⟨hok, hpipes, hnum⟩, rfl⟩

theorem requested_rm (h : t.Ok) {r : RmResult} (hrm : t.rm key pipe = .ok (t', r)) :
    t.Requested pipe false key t' ∧ r = rmResult (t.pipesAt key) pipe := by
  have hcount : rmResult (t.pipesAt key) pipe = .lastValueRemoved → 0 < t.numPrefixes := by
    intro hlast
    by_contra hzero
    rw [rm_fault h hlast (by omega)] at hrm
    cases hrm
  obtain ⟨u, hu, hok, hpipes, hnum⟩ := rm_spec h key pipe hcount
  rw [hrm] at hu
  cases hu
  exact ⟨⟨hok, hpipes, hnum⟩, rfl⟩

theorem Requested.mem_iff {k : List UInt8} {q : PipeId} {subscribe : Bool}
    (hr : t.Requested pipe subscribe key t') :
    q ∈ t'.pipesAt k ↔
      if subscribe then q ∈ t.pipesAt k ∨ (k = key ∧ q = pipe)
      else q ∈ t.pipesAt k ∧ ¬ (k = key ∧ q = pipe) := by
  rw [hr.pipesAt]
  by_cases hk : k = key
  · subst hk
    cases subscribe with
    | true => simp [or_comm]
    | false => simp [and_comm]
  · cases subscribe <;> simp [hk]

/-- A pipe is subscribed to something new only by its own request. -/
theorem Requested.mem {k : List UInt8} {q : PipeId} {subscribe : Bool}
    (hr : t.Requested pipe subscribe key t') (hq : q ∈ t'.pipesAt k) :
    q = pipe ∨ q ∈ t.pipesAt k := by
  rw [hr.pipesAt] at hq
  split at hq
  · rename_i hk
    subst hk
    split at hq
    · exact mem_insert.mp hq
    · exact .inr (mem_of_mem_erase hq)
  · exact .inr hq

/-- `rm (pipe)` takes the pipe out of every set. -/
theorem rmPipe_spec (h : t.Ok) (pipe : PipeId) (callOnUniq : Bool) :
    ∃ t' out, t.rmPipe pipe callOnUniq = .ok (t', out) ∧ t'.Ok ∧
      (∀ k, t'.pipesAt k = (t.pipesAt k).erase pipe) ∧ t'.numPrefixes = t.numPrefixes ∧
      ∀ k, k ∈ out ↔ pipe ∈ t.pipesAt k ∧ (callOnUniq = false ∨ (t.pipesAt k).erase pipe = ∅) := by
  obtain ⟨root, hsweep, hwf, hval⟩ := sweep_spec compact_spec (f := erasePipe pipe) rfl h.root
  unfold rmPipe
  rw [hsweep]
  refine ⟨_, _, rfl, ⟨hwf, fun k => ?_⟩, fun k => ?_, rfl, fun k => ?_⟩
  · rw [hval]
    exact erasePipe_ne _ _
  · unfold pipesAt
    rw [hval]
    exact getD_erasePipe _ _
  rw [List.mem_filterMap]
  constructor
  · rintro ⟨⟨k', v⟩, hmem, hk⟩
    obtain ⟨hv, -⟩ := (mem_entries h.root).mp hmem
    dsimp only at hk
    split at hk
    · rename_i hcond
      cases hk
      rw [pipesAt, hv]
      exact hcond
    · cases hk
  · intro hcond
    refine ⟨(k, t.root.valueAt none k), (mem_entries h.root).mpr ⟨rfl, ?_⟩, if_pos hcond⟩
    rw [Ne, h.valueAt_eq_none_iff]
    exact ne_empty_of_mem hcond.1

/-- The pipes `match` calls are those subscribed to a prefix of the data. -/
theorem mem_matchPipes {data : List UInt8} :
    pipe ∈ t.matchPipes data ↔ ∃ p, p <+: data ∧ pipe ∈ t.pipesAt p := by
  unfold matchPipes
  rw [List.mem_flatMap]
  constructor
  · rintro ⟨v, hv, hmem⟩
    obtain ⟨-, p, hp, rfl⟩ := mem_alongPath.mp hv
    exact ⟨p, hp, by simpa [pipesAt] using hmem⟩
  rintro ⟨p, hp, hmem⟩
  refine ⟨_, mem_alongPath.mpr ⟨?_, p, hp, rfl⟩, by simpa [pipesAt] using hmem⟩
  intro hnone
  simp [pipesAt, hnone] at hmem

/-! ### The number of prefixes -/

/-- The prefixes somebody is subscribed to. -/
def prefixes (t : MTrie) : Finset (List UInt8) := ((entries none t.root).map Prod.fst).toFinset

theorem Ok.mem_prefixes (h : t.Ok) : key ∈ t.prefixes ↔ t.pipesAt key ≠ ∅ := by
  unfold prefixes
  rw [List.mem_toFinset, List.mem_map, Ne, ← h.valueAt_eq_none_iff]
  constructor
  · rintro ⟨⟨k, v⟩, hmem, rfl⟩
    obtain ⟨rfl, hne⟩ := (mem_entries h.root).mp hmem
    exact hne
  · intro hne
    exact ⟨(key, t.root.valueAt none key), (mem_entries h.root).mpr ⟨rfl, hne⟩, rfl⟩

/-- The counter is the number of prefixes, and of those that went away with a pipe
without being discounted, modulo 2^32. -/
def Counts (t : MTrie) (leaked : Nat) : Prop :=
  t.numPrefixes = (t.prefixes.card + leaked) % 2 ^ 32

theorem empty_counts : empty.Counts 0 := by
  rfl

theorem prefixes_insert (h : t.Ok) (h' : t'.Ok)
    (hp : ∀ k, t'.pipesAt k = if k = key then insert pipe (t.pipesAt key) else t.pipesAt k) :
    t'.prefixes = insert key t.prefixes := by
  ext k
  rw [mem_insert, h'.mem_prefixes, h.mem_prefixes, hp]
  by_cases hk : k = key <;> simp [hk]

theorem prefixes_erase (h : t.Ok) (h' : t'.Ok)
    (hp : ∀ k, t'.pipesAt k = if k = key then (t.pipesAt key).erase pipe else t.pipesAt k) :
    t'.prefixes =
      if rmResult (t.pipesAt key) pipe = .lastValueRemoved then t.prefixes.erase key
      else t.prefixes := by
  unfold rmResult
  ext k
  rw [h'.mem_prefixes, hp]
  by_cases hmem : pipe ∈ t.pipesAt key
  · by_cases hlast : (t.pipesAt key).erase pipe = ∅
    · simp only [hmem, not_true_eq_false, if_false, hlast, if_true, mem_erase,
        h.mem_prefixes]
      by_cases hk : k = key <;> simp [hk]
    simp only [hmem, not_true_eq_false, if_false, hlast, reduceCtorEq, h.mem_prefixes]
    by_cases hk : k = key
    · subst hk
      rw [if_pos rfl]
      exact iff_of_true hlast (ne_empty_of_mem hmem)
    · rw [if_neg hk]
  · simp only [hmem, not_false_eq_true, if_true, reduceCtorEq, if_false, h.mem_prefixes,
      erase_eq_of_notMem hmem]
    by_cases hk : k = key
    · rw [if_pos hk, hk]
    · rw [if_neg hk]

theorem add_counts {leaked : Nat} {b : Bool} (h : t.Ok) (hadd : t.add key pipe = .ok (t', b))
    (hc : t.Counts leaked) :
    t'.Counts leaked := by
  obtain ⟨u, hu, hok, hpipes, hnum⟩ := add_spec h key pipe
  rw [hadd] at hu
  cases hu
  unfold Counts at hc ⊢
  rw [prefixes_insert h hok hpipes, hnum, hc]
  by_cases hnew : t.pipesAt key = ∅
  · have hnot : key ∉ t.prefixes := by
      rw [h.mem_prefixes]
      exact fun hne => hne hnew
    rw [if_pos hnew, card_insert_of_notMem hnot]
    omega
  · rw [if_neg hnew, insert_eq_of_mem (h.mem_prefixes.mpr hnew)]

theorem rm_counts {leaked : Nat} (h : t.Ok) (h' : t'.Ok) (hc : t.Counts leaked)
    (hcount : rmResult (t.pipesAt key) pipe = .lastValueRemoved → 0 < t.numPrefixes)
    (hp : ∀ k, t'.pipesAt k = if k = key then (t.pipesAt key).erase pipe else t.pipesAt k)
    (hnum : t'.numPrefixes = if rmResult (t.pipesAt key) pipe = .lastValueRemoved
      then t.numPrefixes - 1 else t.numPrefixes) : t'.Counts leaked := by
  have hset := prefixes_erase h h' hp
  unfold Counts at hc ⊢
  rw [hnum, hset]
  by_cases hlast : rmResult (t.pipesAt key) pipe = .lastValueRemoved
  · have hmem : key ∈ t.prefixes := by
      rw [h.mem_prefixes]
      intro hnone
      simp [rmResult, hnone] at hlast
    have hpos := card_pos.mpr ⟨key, hmem⟩
    have hcount := hcount hlast
    rw [if_pos hlast, if_pos hlast, card_erase_of_mem hmem]
    omega
  · rw [if_neg hlast, if_neg hlast]
    exact hc

end MTrie

end ServerLink

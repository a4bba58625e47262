import ServerLink.Core.XPubEffects
import ServerLink.Lib.Run

/-!
# ServerLink.Core.Topics

What an XPUB socket tells its user about the topics that are subscribed to: their number, the
option `TOPICS_COUNT`, and the notifications that `recv` returns.

The number is the counter of the multi-trie, which misses the topics that go away with a pipe.
The notifications are exact as long as no peer cancels a topic that only others are subscribed
to: that is notified as well.
-/

namespace ServerLink

open XPub Finset CheckedRun List

namespace MTrie

variable {t t' : MTrie} {pipe : PipeId} {subscribe : Bool} {key : List UInt8}

/-- The prefixes somebody is subscribed to after a request. -/
theorem Requested.prefixes (hr : t.Requested pipe subscribe key t') (h : t.Ok) :
    t'.prefixes =
      if subscribe then insert key t.prefixes
      else if rmResult (t.pipesAt key) pipe = .lastValueRemoved then t.prefixes.erase key
      else t.prefixes := by
  cases subscribe with
  | true => exact prefixes_insert h hr.ok (by simpa using hr.pipesAt)
  | false => exact prefixes_erase h hr.ok (by simpa using hr.pipesAt)

theorem Ok.mem_prefixes_of_last (h : t.Ok)
    (hlast : rmResult (t.pipesAt key) pipe = .lastValueRemoved) : key ∈ t.prefixes := by
  rw [h.mem_prefixes]
  intro hnone
  simp [rmResult, hnone] at hlast

/-- The number of prefixes and the counter change together. -/
theorem Requested.balance (hr : t.Requested pipe subscribe key t') (h : t.Ok) :
    (t'.prefixes.card = t.prefixes.card ∧ t'.numPrefixes = t.numPrefixes) ∨
    (subscribe = true ∧ t.pipesAt key = ∅ ∧ t'.prefixes.card = t.prefixes.card + 1 ∧
      t'.numPrefixes = (t.numPrefixes + 1) % 2 ^ 32) ∨
    (t.prefixes.card = t'.prefixes.card + 1 ∧ t'.numPrefixes = t.numPrefixes - 1) := by
  rw [hr.prefixes h, hr.numPrefixes, counted]
  cases subscribe with
  | true =>
    simp only [if_true]
    by_cases hnew : t.pipesAt key = ∅
    · have hnot : key ∉ t.prefixes := by
        rw [h.mem_prefixes]
        exact fun hne => hne hnew
      rw [if_pos hnew, card_insert_of_notMem hnot]
      exact .inr (.inl ⟨trivial, hnew, rfl, rfl⟩)
    · rw [if_neg hnew, insert_eq_of_mem (h.mem_prefixes.mpr hnew)]
      exact .inl ⟨rfl, rfl⟩
  | false =>
    simp only [Bool.false_eq_true, if_false]
    split
    · rename_i hlast
      have hmem := h.mem_prefixes_of_last hlast
      have hpos := card_pos.mpr ⟨key, hmem⟩
      rw [card_erase_of_mem hmem]
      exact .inr (.inr ⟨by omega, rfl⟩)
    · exact .inl ⟨rfl, rfl⟩

/-! ### The number of topics -/

/-- What `getsockopt` returns for `TOPICS_COUNT`: the counter is read as an `int`. -/
def topicsCount (t : MTrie) : Int := (BitVec.ofNat 32 t.numPrefixes).toInt

/-- The operations of an XPUB socket on the store. -/
inductive Op
  | add (key : List UInt8) (pipe : PipeId)
  | rm (key : List UInt8) (pipe : PipeId)
  | rmPipe (pipe : PipeId) (callOnUniq : Bool)

def apply (t : MTrie) : Op → Except Fault MTrie
  | .add key pipe => (t.add key pipe).map Prod.fst
  | .rm key pipe => (t.rm key pipe).map Prod.fst
  | .rmPipe pipe callOnUniq => (t.rmPipe pipe callOnUniq).map Prod.fst

/-- The counter has room, and a pipe is not removed while it is the only one of a prefix. -/
def Counted (t : MTrie) : Op → Prop
  | .add key _ => t.pipesAt key = ∅ → t.numPrefixes + 1 < 2 ^ 31
  | .rm _ _ => True
  | .rmPipe pipe _ => ∀ key ∈ t.prefixes, t.pipesAt key ≠ {pipe}

instance (t : MTrie) (op : Op) : Decidable (t.Counted op) := by
  unfold Counted
  split <;> infer_instance

/-- The counter is the number of prefixes. -/
structure Exact (t : MTrie) : Prop where
  ok : t.Ok
  card : t.numPrefixes = t.prefixes.card
  small : t.prefixes.card < 2 ^ 31

theorem empty_exact : empty.Exact := by
  have hnone : empty.prefixes = ∅ := by
    ext k
    simp [empty_ok.mem_prefixes]
  refine ⟨empty_ok, ?_, ?_⟩
  · rw [hnone]
    rfl
  · rw [hnone]
    decide

theorem Exact.requested (h : t.Exact) (hr : t.Requested pipe subscribe key t')
    (hroom : subscribe = true → t.pipesAt key = ∅ → t.numPrefixes + 1 < 2 ^ 31) : t'.Exact := by
  have hcard := h.card
  have hsmall := h.small
  rcases hr.balance h.ok with ⟨hc, hn⟩ | ⟨hsub, hnew, hc, hn⟩ | ⟨hc, hn⟩
  · exact ⟨hr.ok, by omega, by omega⟩
  · have := hroom hsub hnew
    exact ⟨hr.ok, by omega, by omega⟩
  · exact ⟨hr.ok, by omega, by omega⟩

theorem Exact.topicsCount_eq (h : t.Exact) : t.topicsCount = t.prefixes.card := by
  have hcard := h.card
  have hsmall := h.small
  unfold topicsCount
  rw [BitVec.toInt_eq_toNat_of_lt, BitVec.toNat_ofNat]
  · omega
  · rw [BitVec.toNat_ofNat]
    omega

/-- Every operation that meets the condition returns and keeps the counter exact. -/
theorem Exact.apply (h : t.Exact) {op : Op} (hc : t.Counted op) :
    ∃ t', t.apply op = .ok t' ∧ t'.Exact := by
  cases op with
  | add key pipe =>
    obtain ⟨t', hadd, -⟩ := add_spec h.ok key pipe
    exact ⟨t', by simp [MTrie.apply, hadd, Except.map],
      h.requested (requested_add h.ok hadd).1 fun _ => hc⟩
  | rm key pipe =>
    have hpos : rmResult (t.pipesAt key) pipe = .lastValueRemoved → 0 < t.numPrefixes := by
      intro hlast
      rw [h.card]
      exact card_pos.mpr ⟨key, h.ok.mem_prefixes_of_last hlast⟩
    obtain ⟨t', hrm, -⟩ := rm_spec h.ok key pipe hpos
    exact ⟨t', by simp [MTrie.apply, hrm, Except.map],
      h.requested (requested_rm h.ok hrm).1 nofun⟩
  | rmPipe pipe callOnUniq =>
    obtain ⟨t', out, hrm, hok, hpipes, hnum, -⟩ := rmPipe_spec h.ok pipe callOnUniq
    have hsame : t'.prefixes = t.prefixes := by
      ext k
      rw [hok.mem_prefixes, h.ok.mem_prefixes, hpipes]
      constructor
      · intro hne heq
        rw [heq] at hne
        exact hne rfl
      · intro hne heq
        rw [erase_eq_empty_iff] at heq
        exact heq.elim hne (hc k (h.ok.mem_prefixes.mpr hne))
    refine ⟨t', by simp [MTrie.apply, hrm, Except.map], hok, ?_, ?_⟩
    · rw [hnum, hsame, h.card]
    · rw [hsame]
      exact h.small

/-- In every sequence of operations in which the counter has room and no pipe is removed while
it is the only one of a prefix, `TOPICS_COUNT` is the number of prefixes with a pipe. -/
theorem topicsCount_of_counted {ops : List Op} (hc : CheckedRun.Along apply Counted empty ops) :
    ∃ t, run apply empty ops = .ok t ∧
      ∀ topics : Finset (List UInt8), (∀ key, key ∈ topics ↔ t.pipesAt key ≠ ∅) →
        t.topicsCount = topics.card := by
  obtain ⟨t, hr, hE⟩ := run_ok_of_step (fun t op hE hc => hE.apply hc) empty_exact hc
  refine ⟨t, hr, fun topics ht => ?_⟩
  have heq : topics = t.prefixes := by
    ext key
    rw [ht, hE.ok.mem_prefixes]
  rw [heq, hE.topicsCount_eq]

/-- Two pipes share a prefix, and one of them goes away. -/
theorem topicsCount_shared : ∃ t,
    run apply empty [.add [97] 1, .add [97] 2, .add [98] 2, .rm [98] 2, .rmPipe 1 true] = .ok t ∧
    ∀ topics : Finset (List UInt8), (∀ key, key ∈ topics ↔ t.pipesAt key ≠ ∅) →
      t.topicsCount = topics.card :=
  topicsCount_of_counted (by decide)

/-- The only subscriber goes away: no prefix is left, but one is counted. -/
theorem topicsCount_after_rmPipe : ∃ t, run apply empty [.add [97] 1, .rmPipe 1 true] = .ok t ∧
      t.prefixes = ∅ ∧ t.topicsCount = 1 :=
  ⟨_, rfl, by decide, by decide⟩

end MTrie

/-! ### Notifications -/

/-- What can happen to an XPUB socket whose options are the default ones. -/
inductive XPubAction
  | attach (pipe : PipeId)
  | read (pipe : PipeId) (msg : Msg)
  | pipeTerminated (pipe : PipeId)
  | recv

/-- A socket and all that its user has received. -/
structure Told where
  pub : XPub
  handed : List Pending

namespace Told

variable {topic : List UInt8}

def new : Told := ⟨.new, []⟩

def setPub (s : Told) (x : Except Fault XPub) : Except Fault Told := x.map fun pub => { s with pub }

/-- A new pipe is attached once, and pipes that are not attached are not heard of. -/
def step (s : Told) : XPubAction → Except Fault Told
  | .attach pipe =>
    if pipe ∈ s.pub.dist.pipes.items then .ok s else s.setPub (s.pub.xattachPipe pipe false [])
  | .read pipe msg =>
    if pipe ∈ s.pub.dist.pipes.items then s.setPub (s.pub.processMsg pipe msg) else .ok s
  | .pipeTerminated pipe =>
    if pipe ∈ s.pub.dist.pipes.items then s.setPub (s.pub.xpipeTerminated pipe) else .ok s
  | .recv =>
    match s.pub.xrecv with
    | (none, _) => .ok s
    | (some front, pub) => .ok ⟨pub, s.handed ++ [front]⟩

/-- What a notification does to the set of topics: 1 adds one, 0 removes it. -/
def replayStep (topics : Finset (List UInt8)) (n : Pending) : Finset (List UInt8) :=
  match n.data with
  | [] => topics
  | b :: topic =>
    if b = 1 then insert topic topics else if b = 0 then topics.erase topic else topics

def replay (ns : List Pending) : Finset (List UInt8) := ns.foldl replayStep ∅

/-- The counter of topics has room, and a topic is cancelled by one of its subscribers unless it
has none. -/
def Admissible (s : Told) : XPubAction → Prop
  | .read pipe msg =>
    match request msg with
    | none => True
    | some (true, topic) =>
      s.pub.subscriptions.pipesAt topic = ∅ → s.pub.subscriptions.numPrefixes + 1 < 2 ^ 32
    | some (false, topic) =>
      pipe ∈ s.pub.subscriptions.pipesAt topic ∨ s.pub.subscriptions.pipesAt topic = ∅
  | _ => True

instance (s : Told) (a : XPubAction) : Decidable (s.Admissible a) := by
  unfold Admissible
  repeat split
  all_goals infer_instance

/-- The options are the default ones, and what the user is told is exact. -/
structure Inv (s : Told) : Prop where
  manual : s.pub.manual = false
  verboseSubs : s.pub.verboseSubs = false
  verboseUnsubs : s.pub.verboseUnsubs = false
  type : s.pub.type = .xpub
  onlyFirst : s.pub.onlyFirstSubscribe = false
  welcome : s.pub.welcomeMsg = .init
  /-- Every part of a message is looked at. -/
  parts : s.pub.moreRecv = true → s.pub.processSubscribe = true
  store : s.pub.subscriptions.Ok
  counted : s.pub.subscriptions.prefixes.card ≤ s.pub.subscriptions.numPrefixes
  exact : ∀ topic, topic ∈ replay (s.handed ++ s.pub.pending) ↔
    s.pub.subscriptions.pipesAt topic ≠ ∅

variable {s : Told} {pipe : PipeId} {msg : Msg}

theorem replay_append (ns ms : List Pending) :
    replay (ns ++ ms) = ms.foldl replayStep (replay ns) := by
  simp [replay]

@[simp] theorem replayStep_notification (topics : Finset (List UInt8)) (subscribe : Bool)
    (topic : List UInt8) (metadata : Bool) :
    replayStep topics (notification subscribe topic metadata) =
      if subscribe then insert topic topics else topics.erase topic := by
  cases subscribe <;> simp [replayStep, notification]

/-- A message that is not a request does not look like a notification of one. -/
theorem replayStep_user (hreq : request msg = none) (topics : Finset (List UInt8)) :
    replayStep topics ⟨msg.data, msg.metadata, msg.flags⟩ = topics := by
  unfold request at hreq
  unfold replayStep
  split at hreq
  · cases hreq
  dsimp only
  split
  · rfl
  rename_i b topic hdata
  rw [hdata] at hreq
  dsimp only at hreq
  split at hreq
  · cases hreq
  · rename_i hb
    rw [not_or] at hb
    rw [if_neg hb.2, if_neg hb.1]

theorem mem_foldl_unsubscriptions {topics : Finset (List UInt8)} {gone : List (List UInt8)}
    {key : List UInt8} :
    key ∈ (gone.map fun topic => notification false topic false).foldl replayStep topics ↔
      key ∈ topics ∧ key ∉ gone := by
  induction gone generalizing topics with
  | nil => simp
  | cons topic gone ih =>
    rw [List.map_cons, List.foldl_cons, ih, replayStep_notification]
    simp only [Bool.false_eq_true, if_false, mem_erase, List.mem_cons, not_or]
    tauto

theorem new_inv : new.Inv where
  manual := rfl
  verboseSubs := rfl
  verboseUnsubs := rfl
  type := rfl
  onlyFirst := rfl
  welcome := rfl
  parts := nofun
  store := MTrie.empty_ok
  counted := by
    have hE := MTrie.empty_exact
    exact hE.card.ge
  exact := by
    intro topic
    simp [new, replay, XPub.new]

theorem Inv.requestOf_eq (h : s.Inv) (msg : Msg) : s.pub.requestOf msg = request msg := by
  unfold requestOf
  rcases Bool.eq_false_or_eq_true s.pub.moreRecv with hm | hm
  · simp [h.parts hm]
  · simp [hm]

theorem Inv.attach (h : s.Inv) (pipe : PipeId) :
    ∃ pub, s.pub.xattachPipe pipe false [] = .ok pub ∧ { s with pub }.Inv := by
  refine ⟨{ s.pub with dist := s.pub.dist.attach pipe }, ?_, { h with }⟩
  have hsize : s.pub.welcomeMsg.size = 0 := by
    rw [h.welcome]
    rfl
  simp [xattachPipe, readAll, hsize]

/-- After a message every further part is looked at. -/
theorem Inv.noted_processSubscribe (h : s.Inv) (msg : Msg) :
    (s.pub.noted msg).processSubscribe = true := by
  unfold noted
  rcases Bool.eq_false_or_eq_true s.pub.moreRecv with hm | hm
  · simp [hm, h.parts hm]
  · simp [hm, h.onlyFirst]

theorem Inv.read_user (h : s.Inv) (hreq : request msg = none) (pipe : PipeId) :
    ∃ pub, s.pub.processMsg pipe msg = .ok pub ∧ { s with pub }.Inv := by
  refine ⟨_, processMsg_user ((h.requestOf_eq msg).trans hreq), ?_⟩
  rw [if_neg (by simp [h.type])]
  refine { h with parts := fun _ => h.noted_processSubscribe msg, exact := fun topic => ?_ }
  rw [← append_assoc, replay_append, foldl_cons, foldl_nil, replayStep_user hreq]
  exact h.exact topic

theorem Inv.replay_eq (h : s.Inv) :
    replay (s.handed ++ s.pub.pending) = s.pub.subscriptions.prefixes := by
  ext topic
  rw [h.exact, h.store.mem_prefixes]

/-- A cancellation by a subscriber, or of a topic nobody has, is notified if nobody has the
topic afterwards. -/
theorem Inv.prefixes_cancel (h : s.Inv) {t : MTrie}
    (hr : s.pub.subscriptions.Requested pipe false topic t)
    (hown : pipe ∈ s.pub.subscriptions.pipesAt topic ∨ s.pub.subscriptions.pipesAt topic = ∅) :
    t.prefixes = if s.pub.notifies pipe false topic = true
      then s.pub.subscriptions.prefixes.erase topic else s.pub.subscriptions.prefixes := by
  rw [hr.prefixes h.store]
  unfold notifies
  simp only [Bool.false_eq_true, if_false, h.verboseUnsubs, Bool.or_false, bne_iff_ne]
  cases hres : MTrie.rmResult (s.pub.subscriptions.pipesAt topic) pipe with
  | lastValueRemoved => simp
  | valuesRemain => simp
  | notFound =>
    -- the sender is not a subscriber, so that nobody is
    have hnone : topic ∉ s.pub.subscriptions.prefixes := by
      rw [h.store.mem_prefixes, not_not]
      refine hown.resolve_left fun hmem => ?_
      simp only [MTrie.rmResult, hmem] at hres
      grind
    simp [erase_eq_of_notMem hnone]

theorem Inv.prefixes_subscribe (h : s.Inv) {t : MTrie}
    (hr : s.pub.subscriptions.Requested pipe true topic t) :
    t.prefixes = if s.pub.notifies pipe true topic = true
      then insert topic s.pub.subscriptions.prefixes else s.pub.subscriptions.prefixes := by
  rw [hr.prefixes h.store]
  unfold notifies
  simp only [if_true, h.verboseSubs, Bool.or_false, decide_eq_true_eq]
  split
  · rfl
  · rename_i hne
    exact insert_eq_of_mem (h.store.mem_prefixes.mpr hne)

/-- The notifications after a request are exact if they are before it. -/
theorem Inv.replay_request (h : s.Inv) {subscribe : Bool} {t : MTrie}
    (hr : s.pub.subscriptions.Requested pipe subscribe topic t)
    (hown : subscribe = false → pipe ∈ s.pub.subscriptions.pipesAt topic ∨
      s.pub.subscriptions.pipesAt topic = ∅) (metadata : Bool) :
    replay (s.handed ++ if s.pub.notifies pipe subscribe topic = true then
        s.pub.pending ++ [notification subscribe topic metadata] else s.pub.pending) =
      t.prefixes := by
  have hnew : t.prefixes = if s.pub.notifies pipe subscribe topic = true
      then replayStep s.pub.subscriptions.prefixes (notification subscribe topic metadata)
      else s.pub.subscriptions.prefixes := by
    cases subscribe with
    | true => exact h.prefixes_subscribe hr
    | false => exact h.prefixes_cancel hr (hown rfl)
  rw [hnew]
  split
  · rw [← append_assoc, replay_append, h.replay_eq]
    rfl
  · exact h.replay_eq

/-- The counter covers the prefixes after a request, if it has room for a new one. -/
theorem Inv.counted_request (h : s.Inv) {subscribe : Bool} {t : MTrie}
    (hr : s.pub.subscriptions.Requested pipe subscribe topic t)
    (hroom : subscribe = true → s.pub.subscriptions.pipesAt topic = ∅ →
      s.pub.subscriptions.numPrefixes + 1 < 2 ^ 32) :
    t.prefixes.card ≤ t.numPrefixes := by
  have hle := h.counted
  rcases hr.balance h.store with ⟨hc, hn⟩ | ⟨hsub, hnew, hc, hn⟩ | ⟨hc, hn⟩
  · omega
  · have := hroom hsub hnew
    omega
  · omega

theorem Inv.read_request (h : s.Inv) {subscribe : Bool}
    (hreq : request msg = some (subscribe, topic))
    (hroom : subscribe = true → s.pub.subscriptions.pipesAt topic = ∅ →
      s.pub.subscriptions.numPrefixes + 1 < 2 ^ 32)
    (hown : subscribe = false → pipe ∈ s.pub.subscriptions.pipesAt topic ∨
      s.pub.subscriptions.pipesAt topic = ∅) :
    ∃ pub, s.pub.processMsg pipe msg = .ok pub ∧ { s with pub }.Inv := by
  have hpos : subscribe = false → MTrie.rmResult (s.pub.subscriptions.pipesAt topic) pipe =
      .lastValueRemoved → 0 < s.pub.subscriptions.numPrefixes := by
    intro _ hlast
    have hmem := card_pos.mpr ⟨topic, h.store.mem_prefixes_of_last hlast⟩
    exact hmem.trans_le h.counted
  obtain ⟨pub, hpub⟩ := applyRequest_ok (s := s.pub.noted msg) (by exact h.manual)
    (by exact h.store) hpos msg.metadata
  refine ⟨pub, ?_, ?_⟩
  · rw [processMsg_request ((h.requestOf_eq msg).trans hreq), hpub]
  obtain ⟨t, hr, rfl⟩ :=
    applyRequest_default (by exact h.manual) (by exact h.store) hpub
  refine { h with
    parts := fun _ => h.noted_processSubscribe msg
    store := hr.ok
    counted := h.counted_request hr hroom
    exact := fun key => ?_ }
  have hreplay := h.replay_request hr hown msg.metadata
  dsimp only [noted] at hreplay ⊢
  rw [← hr.ok.mem_prefixes, ← hreplay]
  simp [h.type, notifies]

/-- The topics that only this pipe was subscribed to are cancelled. -/
theorem Inv.pipeTerminated (h : s.Inv) (pipe : PipeId) :
    ∃ pub, s.pub.xpipeTerminated pipe = .ok pub ∧ { s with pub }.Inv := by
  obtain ⟨t, topics, hok, hpipes, hnum, htopics, heq⟩ :=
    xpipeTerminated_default h.manual h.store pipe
  refine ⟨_, heq, { h with store := hok, counted := ?_, exact := fun key => ?_ }⟩
  · have hsub : t.prefixes ⊆ s.pub.subscriptions.prefixes := by
      intro key hkey
      rw [hok.mem_prefixes, hpipes] at hkey
      rw [h.store.mem_prefixes]
      intro hnone
      simp [hnone] at hkey
    exact (card_le_card hsub).trans (h.counted.trans_eq hnum.symm)
  dsimp only
  have hun : s.pub.unsubscriptions topics =
      topics.map fun topic => notification false topic false := by
    simp [unsubscriptions, h.type]
  rw [← append_assoc, replay_append, hun, mem_foldl_unsubscriptions, h.exact, htopics, hpipes]
  simp only [h.verboseUnsubs, Bool.false_eq_true, false_or]
  by_cases hmem : pipe ∈ s.pub.subscriptions.pipesAt key
  · have hne := ne_empty_of_mem hmem
    simp [hmem, hne]
  · simp [hmem]

theorem Inv.recv (h : s.Inv) : ∃ s', s.step .recv = .ok s' ∧ s'.Inv := by
  rw [step]
  cases hp : s.pub.pending with
  | nil =>
    rw [xrecv_nil hp]
    exact ⟨s, rfl, h⟩
  | cons front rest =>
    rw [xrecv_default h.manual hp]
    refine ⟨_, rfl, { h with exact := fun topic => ?_ }⟩
    rw [append_assoc, singleton_append, ← hp]
    exact h.exact topic

theorem Inv.setPub_of {x : Except Fault XPub} (h : ∃ pub, x = .ok pub ∧ { s with pub }.Inv) :
    ∃ s', s.setPub x = .ok s' ∧ s'.Inv := by
  obtain ⟨pub, rfl, hI⟩ := h
  exact ⟨_, rfl, hI⟩

theorem Inv.step (h : s.Inv) {a : XPubAction} (hadm : s.Admissible a) :
    ∃ s', s.step a = .ok s' ∧ s'.Inv := by
  cases a with
  | attach pipe =>
    rw [Told.step]
    split
    · exact ⟨s, rfl, h⟩
    · exact Inv.setPub_of (h.attach pipe)
  | read pipe msg =>
    rw [Told.step]
    split
    · refine Inv.setPub_of ?_
      dsimp only [Admissible] at hadm
      split at hadm
      · exact h.read_user ‹_› pipe
      · exact h.read_request ‹_› (fun _ => hadm) (fun hf => by cases hf)
      · exact h.read_request ‹_› (fun hf => by cases hf) (fun _ => hadm)
    · exact ⟨s, rfl, h⟩
  | pipeTerminated pipe =>
    rw [Told.step]
    split
    · exact Inv.setPub_of (h.pipeTerminated pipe)
    · exact ⟨s, rfl, h⟩
  | recv => exact h.recv

/-- In every run in which topics are cancelled only by their subscribers, or when they have none,
and the counter has room, replaying what the user has received, and what it receives next,
gives the topics with a subscribed pipe. -/
theorem replay_exact {as : List XPubAction} (hadm : CheckedRun.Along Told.step Admissible new as) :
    ∃ s, run Told.step new as = .ok s ∧ ∀ topic, topic ∈ replay (s.handed ++ s.pub.pending) ↔
        s.pub.subscriptions.pipesAt topic ≠ ∅ := by
  obtain ⟨s, hr, hI⟩ := run_ok_of_step (fun s a hI hadm => hI.step hadm) new_inv hadm
  exact ⟨s, hr, hI.exact⟩

/-- Two peers share a topic; one cancels it, the other one goes away. -/
theorem replay_exact_shared : ∃ s,
    run Told.step new [.attach 1, .attach 2, .read 1 (.initSubscribe [97]),
      .read 2 (.initSubscribe [97]), .read 1 (.initCancel [97]), .recv, .pipeTerminated 2] = .ok s ∧
      ∀ topic, topic ∈ replay (s.handed ++ s.pub.pending) ↔ s.pub.subscriptions.pipesAt topic ≠ ∅ :=
  replay_exact (by decide +kernel)

/-- A peer that is not subscribed cancels the topic of another one: the user is told that
nobody is subscribed to it. -/
theorem replay_after_foreign_cancel : ∃ s,
    run Told.step new [.attach 1, .attach 2, .read 1 (.initSubscribe [97]),
      .read 2 (.initCancel [97]), .recv, .recv] = .ok s ∧
      s.pub.pending = [] ∧ replay s.handed = ∅ ∧
      s.pub.subscriptions.pipesAt [97] = {1} :=
  ⟨_, rfl, rfl, by decide +kernel, by decide +kernel⟩

end Told

end ServerLink

import ServerLink.Core.XPub

/-!
# ServerLink.Core.XPubEffects

What the methods of `xpub_t` that change subscriptions do when they return: one lemma for each
method and mode, from which the invariants of the socket are derived.
-/

namespace ServerLink

open MTrie

namespace XPub

variable {s s' : XPub} {pipe : PipeId} {msg : Msg}
variable {subscribe : Bool} {topic : List UInt8}

/-! ### Reading a message -/

/-- The request a message is taken for: later parts of a message may be ignored. -/
def requestOf (s : XPub) (msg : Msg) : Option (Bool × List UInt8) :=
  if !s.moreRecv || s.processSubscribe then request msg else none

/-- The flags after a message has been read. -/
def noted (s : XPub) (msg : Msg) : XPub :=
  { s with
    moreRecv := msg.more
    processSubscribe :=
      if !s.moreRecv then !s.onlyFirstSubscribe || (s.requestOf msg).isSome
      else s.processSubscribe }

/-- The notification of a request. -/
def notification (subscribe : Bool) (topic : List UInt8) (metadata : Bool) : Pending :=
  ⟨(if subscribe then 1 else 0) :: topic, metadata, 0⟩

theorem processMsg_request (h : s.requestOf msg = some (subscribe, topic)) :
    s.processMsg pipe msg = (s.noted msg).applyRequest pipe msg.metadata subscribe topic := by
  unfold requestOf at h
  unfold processMsg noted requestOf
  simp only [h]

theorem processMsg_user (h : s.requestOf msg = none) :
    s.processMsg pipe msg = .ok (if s.type = .pub then s.noted msg
      else { s.noted msg with pending := s.pending ++ [⟨msg.data, msg.metadata, msg.flags⟩] }) := by
  unfold requestOf at h
  unfold processMsg noted requestOf
  simp only [h]

/-- Whether the user is told about a request that is carried out. -/
def notifies (s : XPub) (pipe : PipeId) (subscribe : Bool) (topic : List UInt8) : Bool :=
  if subscribe then decide (s.subscriptions.pipesAt topic = ∅) || s.verboseSubs
  else rmResult (s.subscriptions.pipesAt topic) pipe != .valuesRemain || s.verboseUnsubs

/-- A request that is not in manual mode changes the store. -/
theorem applyRequest_default (hm : s.manual = false) (hok : s.subscriptions.Ok) {metadata : Bool}
    (h : s.applyRequest pipe metadata subscribe topic = .ok s') :
    ∃ t, s.subscriptions.Requested pipe subscribe topic t ∧
      s' = { s with
        subscriptions := t
        pending :=
          if s.type = .xpub ∧ s.notifies pipe subscribe topic = true then
            s.pending ++ [notification subscribe topic metadata]
          else s.pending } := by
  unfold applyRequest at h
  dsimp only at h
  rw [if_neg (by simp [hm])] at h
  cases subscribe with
  | true =>
    simp only [if_true] at h
    cases hadd : s.subscriptions.add topic pipe with
    | error e => simp [hadd, Except.map] at h
    | ok r =>
      obtain ⟨t, first⟩ := r
      obtain ⟨hreq, rfl⟩ := requested_add hok hadd
      rw [hadd] at h
      exact ⟨t, hreq, (Except.ok.inj h).symm⟩
  | false =>
    simp only [Bool.false_eq_true, if_false] at h
    cases hrm : s.subscriptions.rm topic pipe with
    | error e => simp [hrm, Except.map] at h
    | ok r =>
      obtain ⟨t, result⟩ := r
      obtain ⟨hreq, rfl⟩ := requested_rm hok hrm
      rw [hrm] at h
      exact ⟨t, hreq, (Except.ok.inj h).symm⟩

/-- A cancellation asserts that the counter of prefixes is positive when the last subscriber
leaves. -/
theorem applyRequest_ok (hm : s.manual = false) (hok : s.subscriptions.Ok)
    (hpos : subscribe = false → rmResult (s.subscriptions.pipesAt topic) pipe =
      .lastValueRemoved → 0 < s.subscriptions.numPrefixes) (metadata : Bool) :
    ∃ s', s.applyRequest pipe metadata subscribe topic = .ok s' := by
  unfold applyRequest
  dsimp only
  rw [if_neg (by simp [hm])]
  cases subscribe with
  | true =>
    obtain ⟨t, hadd, -⟩ := add_spec hok topic pipe
    simp only [if_true, hadd, Except.map]
    exact ⟨_, rfl⟩
  | false =>
    obtain ⟨t, hrm, -⟩ := rm_spec hok topic pipe (hpos rfl)
    simp only [Bool.false_eq_true, if_false, hrm, Except.map]
    exact ⟨_, rfl⟩

/-- A request in manual mode is kept for the user. -/
theorem applyRequest_manual (hm : s.manual = true) (hok : s.manualSubscriptions.Ok)
    {metadata : Bool} (h : s.applyRequest pipe metadata subscribe topic = .ok s') :
    ∃ t, s.manualSubscriptions.Requested pipe subscribe topic t ∧
      s' = { s with
        manualSubscriptions := t
        pendingPipes := s.pendingPipes ++ [some pipe]
        pending := s.pending ++ [notification subscribe topic metadata] } := by
  unfold applyRequest at h
  dsimp only at h
  rw [if_pos hm] at h
  cases subscribe with
  | true =>
    simp only [if_true] at h
    cases hadd : s.manualSubscriptions.add topic pipe with
    | error e => simp [hadd, Except.map] at h
    | ok r =>
      obtain ⟨t, first⟩ := r
      obtain ⟨hreq, -⟩ := requested_add hok hadd
      rw [hadd] at h
      exact ⟨t, hreq, (Except.ok.inj h).symm⟩
  | false =>
    simp only [Bool.false_eq_true, if_false] at h
    cases hrm : s.manualSubscriptions.rm topic pipe with
    | error e => simp [hrm, Except.map] at h
    | ok r =>
      obtain ⟨t, result⟩ := r
      obtain ⟨hreq, -⟩ := requested_rm hok hrm
      rw [hrm] at h
      exact ⟨t, hreq, (Except.ok.inj h).symm⟩

/-- Reading a message, not in manual mode, changes only the subscriptions of its sender. -/
theorem processMsg_default (hm : s.manual = false) (hok : s.subscriptions.Ok)
    (h : s.processMsg pipe msg = .ok s') :
    s'.dist = s.dist ∧ s'.manual = false ∧ s'.welcomeMsg = s.welcomeMsg ∧ s'.subscriptions.Ok ∧
      ∀ k q, q ∈ s'.subscriptions.pipesAt k → q = pipe ∨ q ∈ s.subscriptions.pipesAt k := by
  cases hreq : s.requestOf msg with
  | none =>
    rw [processMsg_user hreq] at h
    cases h
    split
    · exact ⟨rfl, hm, rfl, hok, fun _ _ => .inr⟩
    · exact ⟨rfl, hm, rfl, hok, fun _ _ => .inr⟩
  | some r =>
    obtain ⟨subscribe, topic⟩ := r
    rw [processMsg_request hreq] at h
    obtain ⟨t, hr, rfl⟩ := applyRequest_default (by exact hm) (by exact hok) h
    exact ⟨rfl, hm, rfl, hr.ok, fun k q hq => hr.mem hq⟩

/-! ### The end of a pipe -/

/-- The notifications of unsubscriptions. -/
def unsubscriptions (s : XPub) (topics : List (List UInt8)) : List Pending :=
  if s.type = .pub then [] else topics.map fun topic => notification false topic false

theorem foldl_sendUnsubscription_default (hm : s.manual = false) (topics : List (List UInt8)) :
    topics.foldl sendUnsubscription s =
      { s with pending := s.pending ++ s.unsubscriptions topics } := by
  induction topics generalizing s with
  | nil => simp [unsubscriptions]
  | cons topic topics ih =>
    rw [List.foldl_cons]
    by_cases hpub : s.type = .pub
    · have heq : s.sendUnsubscription topic = s := by simp [sendUnsubscription, hpub]
      rw [heq, ih hm]
      simp [unsubscriptions, hpub]
    have heq : s.sendUnsubscription topic =
        { s with pending := s.pending ++ [notification false topic false] } := by
      simp [sendUnsubscription, hpub, hm, notification]
    rw [heq, ih (by exact hm)]
    simp [unsubscriptions, hpub]

theorem xpipeTerminated_default (hm : s.manual = false) (hok : s.subscriptions.Ok) (pipe : PipeId) :
    ∃ t topics, t.Ok ∧ (∀ k, t.pipesAt k = (s.subscriptions.pipesAt k).erase pipe) ∧
      t.numPrefixes = s.subscriptions.numPrefixes ∧
      (∀ k, k ∈ topics ↔ pipe ∈ s.subscriptions.pipesAt k ∧
        (s.verboseUnsubs = true ∨ (s.subscriptions.pipesAt k).erase pipe = ∅)) ∧
      s.xpipeTerminated pipe = .ok { s with
        subscriptions := t
        pending := s.pending ++ s.unsubscriptions topics
        dist := s.dist.pipeTerminated pipe } := by
  obtain ⟨t, topics, hrm, htok, hpipes, hnum, htopics⟩ :=
    rmPipe_spec hok pipe (!s.verboseUnsubs)
  refine ⟨t, topics, htok, hpipes, hnum, fun k => ?_, ?_⟩
  · rw [htopics]
    cases s.verboseUnsubs <;> simp
  unfold xpipeTerminated
  rw [if_neg (by simp [hm]), hrm]
  dsimp only
  rw [foldl_sendUnsubscription_default (by exact hm)]
  rfl

theorem foldl_sendUnsubscription_manual (hm : s.manual = true) (hx : s.type = .xpub)
    (topics : List (List UInt8)) :
    topics.foldl sendUnsubscription s =
      { s with
        pending := s.pending ++ topics.map fun topic => notification false topic false
        pendingPipes := s.pendingPipes ++ topics.map fun _ => none
        lastPipe := if topics = [] then s.lastPipe else none } := by
  induction topics generalizing s with
  | nil => simp
  | cons topic topics ih =>
    have heq : s.sendUnsubscription topic = { s with
        pending := s.pending ++ [notification false topic false]
        pendingPipes := s.pendingPipes ++ [none]
        lastPipe := none } := by
      simp [sendUnsubscription, hx, hm, notification]
    rw [List.foldl_cons, heq, ih (by exact hm) (by exact hx)]
    simp

/-- In manual mode the user is told about every subscription of the pipe, and the pipe it
could subscribe for is forgotten. -/
theorem xpipeTerminated_manual (hm : s.manual = true) (hx : s.type = .xpub)
    (hok : s.subscriptions.Ok) (hmok : s.manualSubscriptions.Ok) (pipe : PipeId) :
    ∃ t manual topics, t.Ok ∧ manual.Ok ∧
      (∀ k, t.pipesAt k = (s.subscriptions.pipesAt k).erase pipe) ∧
      (∀ k, manual.pipesAt k = (s.manualSubscriptions.pipesAt k).erase pipe) ∧
      (∀ k, k ∈ topics ↔ pipe ∈ s.manualSubscriptions.pipesAt k) ∧
      s.xpipeTerminated pipe = .ok { s with
        subscriptions := t
        manualSubscriptions := manual
        pending := s.pending ++ topics.map fun topic => notification false topic false
        pendingPipes := s.pendingPipes ++ topics.map fun _ => none
        lastPipe := if topics = [] ∧ s.lastPipe ≠ some pipe then s.lastPipe else none
        dist := s.dist.pipeTerminated pipe } := by
  obtain ⟨manual, topics, hrm, hmok', hmpipes, -, htopics⟩ := rmPipe_spec hmok pipe false
  obtain ⟨t, out, hrm', htok, hpipes, -⟩ := rmPipe_spec hok pipe false
  have hlast : (if (if topics = [] then s.lastPipe else none) = some pipe then none
      else if topics = [] then s.lastPipe else none) =
      if topics = [] ∧ s.lastPipe ≠ some pipe then s.lastPipe else none := by
    by_cases hnil : topics = []
    · by_cases hpipe : s.lastPipe = some pipe <;> simp [hnil, hpipe]
    · simp [hnil]
  refine ⟨t, manual, topics, htok, hmok', hpipes, hmpipes, fun k => ?_, ?_⟩
  · rw [htopics]
    simp
  unfold xpipeTerminated
  rw [if_pos hm, hrm]
  dsimp only
  rw [foldl_sendUnsubscription_manual (by exact hm) (by exact hx)]
  dsimp only
  rw [hrm', ← hlast]

/-! ### Receiving -/

theorem xrecv_nil (h : s.pending = []) : s.xrecv = (none, s) := by
  simp [xrecv, h]

theorem xrecv_default (hm : s.manual = false) {front : Pending} {rest : List Pending}
    (h : s.pending = front :: rest) : s.xrecv = (some front, { s with pending := rest }) := by
  simp [xrecv, h, hm]

theorem xrecv_manual_nil (hm : s.manual = true) {front : Pending} {rest : List Pending}
    (h : s.pending = front :: rest) (hp : s.pendingPipes = []) :
    s.xrecv = (some front, { s with pending := rest }) := by
  simp [xrecv, h, hm, hp]

theorem xrecv_manual_cons (hm : s.manual = true) {front : Pending} {rest : List Pending}
    (h : s.pending = front :: rest) {p : Option PipeId} {ps : List (Option PipeId)}
    (hp : s.pendingPipes = p :: ps) :
    s.xrecv = (some front,
      { s with lastPipe := p.filter s.dist.hasPipe, pendingPipes := ps, pending := rest }) := by
  simp [xrecv, h, hm, hp]

/-! ### Subscribing for a pipe -/

theorem subscribe_effect (hok : s.subscriptions.Ok) (topic : List UInt8) :
    ∃ t, t.Ok ∧ s.subscribe topic = .ok { s with subscriptions := t } ∧ ∀ key q, q ∈ t.pipesAt key ↔
        q ∈ s.subscriptions.pipesAt key ∨ (key = topic ∧ s.lastPipe = some q) := by
  unfold subscribe
  split
  · rename_i hlast
    exact ⟨s.subscriptions, hok, rfl, fun _ _ => by simp [hlast]⟩
  rename_i p hlast
  obtain ⟨t, hadd, -⟩ := add_spec hok topic p
  obtain ⟨hr, -⟩ := requested_add hok hadd
  refine ⟨t, hr.ok, ?_, fun key q => ?_⟩
  · rw [hadd]
    rfl
  · simp [hr.mem_iff, hlast, eq_comm]

theorem unsubscribe_effect (hok : s.subscriptions.Ok) (h : s.unsubscribe topic = .ok s') :
    ∃ t, t.Ok ∧ s' = { s with subscriptions := t } ∧ ∀ key q, q ∈ t.pipesAt key ↔
        q ∈ s.subscriptions.pipesAt key ∧ ¬ (key = topic ∧ s.lastPipe = some q) := by
  unfold unsubscribe at h
  split at h
  · rename_i hlast
    exact ⟨s.subscriptions, hok, (Except.ok.inj h).symm, fun _ _ => by simp [hlast]⟩
  rename_i p hlast
  cases hrm : s.subscriptions.rm topic p with
  | error e => simp [hrm, Except.map] at h
  | ok r =>
    obtain ⟨hr, -⟩ := requested_rm hok hrm
    rw [hrm] at h
    refine ⟨r.1, hr.ok, (Except.ok.inj h).symm, fun key q => ?_⟩
    simp [hr.mem_iff, hlast, eq_comm]

end XPub

end ServerLink

import ServerLink.Pipe.Dist
import ServerLink.Util.Constants

/-!
# ServerLink.Core.XPub

The subscription side of `xpub_t` (`xpub.cpp`), which `pub_t` shares: subscribe and cancel
messages that arrive on a pipe change the multi-trie, and the user is notified.

`subscribed` is the set of prefixes a stream of messages leaves subscribed to. With the
default options reading a stream from a pipe makes this set the prefixes of the pipe.
-/

namespace ServerLink

open MTrie Msg

/-- An element of the queues of pending messages. -/
structure Pending where
  data : List UInt8
  metadata : Bool
  flags : BitVec 8
  deriving Repr, DecidableEq

/-- `xpub_t`. The three queues of pending data, metadata and flags are one. -/
structure XPub where
  subscriptions : MTrie
  manualSubscriptions : MTrie
  dist : Dist
  pipes : Outlets
  verboseSubs : Bool
  verboseUnsubs : Bool
  moreRecv : Bool
  processSubscribe : Bool
  onlyFirstSubscribe : Bool
  manual : Bool
  lastPipe : Option PipeId
  pendingPipes : List (Option PipeId)
  pending : List Pending
  welcomeMsg : Msg
  type : SocketType

namespace XPub

def new : XPub where
  subscriptions := .empty
  manualSubscriptions := .empty
  dist := .empty
  pipes _ := .new none
  verboseSubs := false
  verboseUnsubs := false
  moreRecv := false
  processSubscribe := false
  onlyFirstSubscribe := false
  manual := false
  lastPipe := none
  pendingPipes := []
  pending := []
  welcomeMsg := .init
  type := .xpub

/-- Whether a message subscribes or cancels, and the prefix. -/
def request (msg : Msg) : Option (Bool × List UInt8) :=
  if msg.isSubscribe || msg.isCancel then some (msg.isSubscribe, msg.commandBody)
  else
    match msg.data with
    | [] => none
    | b :: rest => if b = 0 ∨ b = 1 then some (b == 1, rest) else none

/-- The subscription is applied, and kept for the user in manual mode or if it has
changed something. -/
def applyRequest (s : XPub) (pipe : PipeId) (metadata subscribe : Bool) (data : List UInt8) :
    Except Fault XPub :=
  let notification : Pending := ⟨(if subscribe then 1 else 0) :: data, metadata, 0⟩
  if s.manual then
    let changed :=
      if subscribe then (s.manualSubscriptions.add data pipe).map Prod.fst
      else (s.manualSubscriptions.rm data pipe).map Prod.fst
    match changed with
    | .error e => .error e
    | .ok manualSubscriptions =>
      .ok { s with
        manualSubscriptions
        pendingPipes := s.pendingPipes ++ [some pipe]
        pending := s.pending ++ [notification] }
  else
    let changed :=
      if subscribe then
        (s.subscriptions.add data pipe).map fun r => (r.1, r.2 || s.verboseSubs)
      else
        (s.subscriptions.rm data pipe).map fun r =>
          (r.1, r.2 != .valuesRemain || s.verboseUnsubs)
    match changed with
    | .error e => .error e
    | .ok (subscriptions, notify) =>
      .ok { s with
        subscriptions
        pending := if s.type = .xpub ∧ notify then s.pending ++ [notification] else s.pending }

/-- A round of the loop of `xread_activated`: a message has been read. -/
def processMsg (s : XPub) (pipe : PipeId) (msg : Msg) : Except Fault XPub :=
  let firstPart := !s.moreRecv
  let req := if firstPart || s.processSubscribe then request msg else none
  let s := { s with
    moreRecv := msg.more
    processSubscribe :=
      if firstPart then !s.onlyFirstSubscribe || req.isSome else s.processSubscribe }
  match req with
  | some (subscribe, data) => s.applyRequest pipe msg.metadata subscribe data
  | none =>
    -- A user message from an `xsub_t`; a `pub_t` ignores it.
    .ok (if s.type = .pub then s
      else { s with pending := s.pending ++ [⟨msg.data, msg.metadata, msg.flags⟩] })

/-- `xread_activated`, when these messages can be read from the pipe. -/
def readAll (s : XPub) (pipe : PipeId) : List Msg → Except Fault XPub
  | [] => .ok s
  | msg :: msgs =>
    match s.processMsg pipe msg with
    | .error e => .error e
    | .ok s => s.readAll pipe msgs

/-- `xattach_pipe`, when these messages can be read from the pipe. -/
def xattachPipe (s : XPub) (pipe : PipeId) (subscribeToAll : Bool) (msgs : List Msg) :
    Except Fault XPub :=
  let s := { s with dist := s.dist.attach pipe }
  let subscribed :=
    if subscribeToAll then (s.subscriptions.add [] pipe).map Prod.fst else .ok s.subscriptions
  match subscribed with
  | .error e => .error e
  | .ok subscriptions =>
    let s := { s with subscriptions }
    if s.welcomeMsg.size = 0 then s.readAll pipe msgs
    else
      match (s.pipes pipe).write s.welcomeMsg with
      | none => .error .xpubWelcome
      | some o => { s with pipes := Function.update s.pipes pipe o.flush }.readAll pipe msgs

/-- `send_unsubscription`. -/
def sendUnsubscription (s : XPub) (data : List UInt8) : XPub :=
  if s.type = .pub then s
  else
    let s : XPub := { s with pending := s.pending ++ [⟨0 :: data, false, 0⟩] }
    if s.manual then { s with lastPipe := none, pendingPipes := s.pendingPipes ++ [none] } else s

def xpipeTerminated (s : XPub) (pipe : PipeId) : Except Fault XPub :=
  if s.manual then
    match s.manualSubscriptions.rmPipe pipe false with
    | .error e => .error e
    | .ok (manualSubscriptions, keys) =>
      let s := keys.foldl sendUnsubscription { s with manualSubscriptions }
      match s.subscriptions.rmPipe pipe false with
      | .error e => .error e
      | .ok (subscriptions, _) =>
        .ok { s with
          subscriptions
          lastPipe := if s.lastPipe = some pipe then none else s.lastPipe
          dist := s.dist.pipeTerminated pipe }
  else
    match s.subscriptions.rmPipe pipe (!s.verboseUnsubs) with
    | .error e => .error e
    | .ok (subscriptions, keys) =>
      let s := keys.foldl sendUnsubscription { s with subscriptions }
      .ok { s with dist := s.dist.pipeTerminated pipe }

/-- `xrecv`. In manual mode the pipe the subscription came from is remembered, if it is still
there. -/
def xrecv (s : XPub) : Option Pending × XPub :=
  match s.pending with
  | [] => (none, s)
  | front :: pending =>
    if s.manual then
      match s.pendingPipes with
      | [] => (some front, { s with pending })
      | pipe :: pendingPipes =>
        (some front, { s with lastPipe := pipe.filter s.dist.hasPipe, pendingPipes, pending })
    else (some front, { s with pending })

/-- The option `SUBSCRIBE` in manual mode. -/
def subscribe (s : XPub) (topic : List UInt8) : Except Fault XPub :=
  match s.lastPipe with
  | none => .ok s
  | some pipe => (s.subscriptions.add topic pipe).map fun r => { s with subscriptions := r.1 }

/-- The option `UNSUBSCRIBE` in manual mode. -/
def unsubscribe (s : XPub) (topic : List UInt8) : Except Fault XPub :=
  match s.lastPipe with
  | none => .ok s
  | some pipe => (s.subscriptions.rm topic pipe).map fun r => { s with subscriptions := r.1 }

/-! ### Streams of subscriptions -/

/-- What a message does to the set of prefixes of its sender. -/
def subscribedStep (prefixes : Finset (List UInt8)) (msg : Msg) : Finset (List UInt8) :=
  match request msg with
  | some (true, data) => insert data prefixes
  | some (false, data) => prefixes.erase data
  | none => prefixes

/-- The prefixes that a stream leaves subscribed to. -/
def subscribed (msgs : List Msg) : Finset (List UInt8) := msgs.foldl subscribedStep ∅

@[simp] theorem request_initSubscribe (topic : List UInt8) :
    request (.initSubscribe topic) = some (true, topic) := by
  simp [request, commandBody, isPing, isPong, command, cmdTypeMask,
    pingFlag, pongFlag, commandFlag, subscribeFlag]

@[simp] theorem request_initCancel (topic : List UInt8) :
    request (.initCancel topic) = some (false, topic) := by
  simp [request, commandBody, isPing, isPong, command, cmdTypeMask,
    pingFlag, pongFlag, commandFlag, cancelFlag]

theorem subscribed_append_subscribe (msgs : List Msg) (topic : List UInt8) :
    subscribed (msgs ++ [.initSubscribe topic]) = insert topic (subscribed msgs) := by
  simp [subscribed, subscribedStep]

theorem subscribed_append_cancel (msgs : List Msg) (topic : List UInt8) :
    subscribed (msgs ++ [.initCancel topic]) = (subscribed msgs).erase topic := by
  simp [subscribed, subscribedStep]

/-! ### Reading requests with the default options -/

/-- Between two messages, not in manual mode, with a well-formed store. -/
structure Listening (s : XPub) : Prop where
  manual : s.manual = false
  moreRecv : s.moreRecv = false
  ok : s.subscriptions.Ok

theorem new_listening : new.Listening := ⟨rfl, rfl, empty_ok⟩

variable {s : XPub} {pipe : PipeId} {msg : Msg} {data : List UInt8}

variable (pipe) in
theorem processMsg_subscribe (h : s.Listening) (hmore : msg.more = false)
    (hreq : request msg = some (true, data)) :
    ∃ s', s.processMsg pipe msg = .ok s' ∧ s'.Listening ∧
      (∀ k, s'.subscriptions.pipesAt k = if k = data then insert pipe (s.subscriptions.pipesAt data)
        else s.subscriptions.pipesAt k) ∧
      ∀ leaked, s.subscriptions.Counts leaked → s'.subscriptions.Counts leaked := by
  obtain ⟨subs, hadd, hok, hpipes, -⟩ := add_spec h.ok data pipe
  unfold processMsg applyRequest
  simp only [h.moreRecv, h.manual, hreq, hadd, hmore, Bool.not_false, Bool.true_or, if_true,
    Bool.false_eq_true, if_false, Except.map]
  exact ⟨_, rfl, ⟨rfl, rfl, hok⟩, hpipes, fun leaked hc => add_counts h.ok hadd hc⟩

theorem processMsg_cancel (h : s.Listening) (hmore : msg.more = false)
    (hreq : request msg = some (false, data))
    (hcount : rmResult (s.subscriptions.pipesAt data) pipe = .lastValueRemoved →
      0 < s.subscriptions.numPrefixes) :
    ∃ s', s.processMsg pipe msg = .ok s' ∧ s'.Listening ∧
      (∀ k, s'.subscriptions.pipesAt k =
        if k = data then (s.subscriptions.pipesAt data).erase pipe
        else s.subscriptions.pipesAt k) ∧
      ∀ leaked, s.subscriptions.Counts leaked → s'.subscriptions.Counts leaked := by
  obtain ⟨subs, hrm, hok, hpipes, hnum⟩ := rm_spec h.ok data pipe hcount
  unfold processMsg applyRequest
  simp only [h.moreRecv, h.manual, hreq, hrm, hmore, Bool.not_false, Bool.true_or, if_true,
    Bool.false_eq_true, if_false, Except.map]
  exact ⟨_, rfl, ⟨rfl, rfl, hok⟩, hpipes,
    fun leaked hc => rm_counts h.ok hok hc hcount hpipes hnum⟩

/-- The last subscriber of a prefix leaves while the counter of prefixes is 0. -/
theorem processMsg_cancel_fault (h : s.Listening) (hreq : request msg = some (false, data))
    (hlast : rmResult (s.subscriptions.pipesAt data) pipe = .lastValueRemoved)
    (hzero : s.subscriptions.numPrefixes = 0) :
    s.processMsg pipe msg = .error .mtrieNumPrefixes := by
  have hrm := rm_fault h.ok hlast hzero
  unfold processMsg applyRequest
  simp only [h.moreRecv, h.manual, hreq, hrm, Bool.not_false, Bool.true_or, if_true,
    Bool.false_eq_true, if_false, Except.map]

theorem readAll_append (msgs msgs' : List Msg) :
    s.readAll pipe (msgs ++ msgs') =
      match s.readAll pipe msgs with
      | .error e => .error e
      | .ok s' => s'.readAll pipe msgs' := by
  induction msgs generalizing s with
  | nil => rfl
  | cons msg msgs ih =>
    rw [List.cons_append, readAll, readAll]
    cases s.processMsg pipe msg with
    | error e => rfl
    | ok s' => exact ih

/-- A request that the counter of prefixes has room for is carried out for its sender;
the prefixes of the others stay as they are. -/
theorem processMsg_spec (h : s.Listening) (hmore : msg.more = false)
    (hreq : (request msg).isSome = true) {leaked : Nat} (hc : s.subscriptions.Counts leaked)
    (hroom : s.subscriptions.prefixes.card + leaked < 2 ^ 32)
    {prefixes : Finset (List UInt8)}
    (hp : ∀ k, pipe ∈ s.subscriptions.pipesAt k ↔ k ∈ prefixes) :
    ∃ s', s.processMsg pipe msg = .ok s' ∧ s'.Listening ∧ s'.subscriptions.Counts leaked ∧
      s'.subscriptions.prefixes.card ≤ s.subscriptions.prefixes.card + 1 ∧
      (∀ k, pipe ∈ s'.subscriptions.pipesAt k ↔ k ∈ subscribedStep prefixes msg) ∧
      ∀ q, q ≠ pipe → ∀ k, q ∈ s'.subscriptions.pipesAt k ↔ q ∈ s.subscriptions.pipesAt k := by
  obtain ⟨⟨subscribe, data⟩, hreq⟩ := Option.isSome_iff_exists.mp hreq
  cases subscribe with
  | true =>
    obtain ⟨s', hs', hl, hpipes, hcounts⟩ := processMsg_subscribe pipe h hmore hreq
    refine ⟨s', hs', hl, hcounts leaked hc, ?_, fun k => ?_, fun q hq k => ?_⟩
    · rw [prefixes_insert h.ok hl.ok hpipes]
      exact Finset.card_insert_le _ _
    · rw [hpipes, subscribedStep, hreq, Finset.mem_insert, ← hp]
      by_cases hk : k = data <;> simp [hk]
    · rw [hpipes]
      by_cases hk : k = data <;> simp [hk, hq]
  | false =>
    have hcount : rmResult (s.subscriptions.pipesAt data) pipe = .lastValueRemoved →
        0 < s.subscriptions.numPrefixes := by
      intro hlast
      have hmem : data ∈ s.subscriptions.prefixes := by
        rw [h.ok.mem_prefixes]
        intro hnone
        simp [rmResult, hnone] at hlast
      have := Finset.card_pos.mpr ⟨data, hmem⟩
      rw [hc, Nat.mod_eq_of_lt hroom]
      omega
    obtain ⟨s', hs', hl, hpipes, hcounts⟩ := processMsg_cancel h hmore hreq hcount
    refine ⟨s', hs', hl, hcounts leaked hc, ?_, fun k => ?_, fun q hq k => ?_⟩
    · rw [prefixes_erase h.ok hl.ok hpipes]
      split
      · exact (Finset.card_erase_le).trans (Nat.le_succ _)
      · exact Nat.le_succ _
    · rw [hpipes, subscribedStep, hreq, Finset.mem_erase, ← hp]
      by_cases hk : k = data <;> simp [hk]
    · rw [hpipes]
      by_cases hk : k = data <;> simp [hk, hq]

/-- Reading a stream of requests makes what it leaves subscribed to the prefixes of the
pipe. -/
theorem readAll_spec : ∀ {msgs : List Msg} {s : XPub} {leaked : Nat}
    {prefixes : Finset (List UInt8)}, s.Listening → s.subscriptions.Counts leaked →
    s.subscriptions.prefixes.card + leaked + msgs.length ≤ 2 ^ 32 →
    (∀ m ∈ msgs, m.more = false ∧ (request m).isSome = true) →
    (∀ k, pipe ∈ s.subscriptions.pipesAt k ↔ k ∈ prefixes) →
    ∃ s', s.readAll pipe msgs = .ok s' ∧ s'.Listening ∧ s'.subscriptions.Counts leaked ∧
      (∀ k, pipe ∈ s'.subscriptions.pipesAt k ↔ k ∈ msgs.foldl subscribedStep prefixes) ∧
      ∀ q, q ≠ pipe → ∀ k, q ∈ s'.subscriptions.pipesAt k ↔ q ∈ s.subscriptions.pipesAt k := by
  intro msgs
  induction msgs with
  | nil => intro s leaked prefixes h hc _ _ hp; exact ⟨s, rfl, h, hc, hp, fun _ _ _ => Iff.rfl⟩
  | cons msg msgs ih =>
    intro s leaked prefixes h hc hroom hmsgs hp
    rw [List.length_cons] at hroom
    obtain ⟨hmore, hreq⟩ := hmsgs msg List.mem_cons_self
    obtain ⟨s1, hs1, hl, hc1, hcard, hp1, hothers1⟩ :=
      processMsg_spec h hmore hreq hc (by omega) hp
    obtain ⟨s', hs', hl', hc', hp', hothers'⟩ := ih hl hc1 (by omega)
      (fun m hm => hmsgs m (List.mem_cons_of_mem _ hm)) hp1
    refine ⟨s', ?_, hl', hc', hp', fun q hq k => ?_⟩
    · rw [readAll, hs1]
      exact hs'
    · rw [hothers' q hq, hothers1 q hq]

theorem readAll_spec_two :
    ∃ s, new.readAll 1 [.initSubscribe [7], .initCancel [7]] = .ok s ∧
      ∀ k, 1 ∉ s.subscriptions.pipesAt k := by
  obtain ⟨s, hs, -, -, hp, -⟩ := @readAll_spec 1 [.initSubscribe [7], .initCancel [7]] new 0 ∅
    new_listening empty_counts (by decide) (by simp) (fun k => by simp [new])
  exact ⟨s, hs, fun k => by simp [hp, subscribedStep]⟩

end XPub

end ServerLink

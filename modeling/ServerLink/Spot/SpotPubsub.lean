import ServerLink.Core.Filters
import ServerLink.Spot.Tables

/-!
# ServerLink.Spot.SpotPubsub

`spot_pubsub_t` (`spot_pubsub.cpp`): the calls that change the tables of an instance and
the filters of its receiving socket. The receiving socket is an XSUB socket; pipe 0
connects it to the instance's own publisher, every further endpoint has a pipe of its own.
Each call takes the lock of the instance for itself, so a call is one step. A socket
operation may fail: what fails in a call is given to it as `SocketFaults`.

The pipes of the receiving socket take a limited number of requests. A request that finds a pipe
full is dropped for that pipe, and the call does not learn of it.
-/

namespace ServerLink

open SubscriptionManager SubscriberTable

/-- The socket operations that fail in a call, with what they set `errno` to. -/
structure SocketFaults where
  connect : Option Errno := none
  send : Option Errno := none
  termEndpoint : Option Errno := none
  bind : Option Errno := none
  deriving Repr, DecidableEq

/-- `spot_pubsub_t`. The pipe that an endpoint was connected with is kept beside it; the
receiving socket finds it under the endpoint as well. -/
structure SpotPubsub where
  registry : TopicRegistry
  subManager : SubscriptionManager
  recvSocket : XSub
  connectedEndpoints : AList fun _ : Uri => PipeId
  nextPipe : PipeId
  inprocEndpoint : Uri
  bindEndpoint : Uri
  bindEndpoints : List Uri

/-- What a call returns: 0 or an error, and the instance after it. -/
abbrev SpotResult := Except Fault (Option Errno × SpotPubsub)

namespace SpotPubsub

/-- The `SNDHWM` of the receiving socket, the default one. -/
def sndhwm : Nat := 1000

/-- The constructor: the receiving socket is connected to the publisher. -/
def new (inprocEndpoint : Uri) : SpotPubsub where
  registry := .empty
  subManager := .empty
  recvSocket := XSub.new.attachNew 0 (some sndhwm)
  connectedEndpoints := ∅
  nextPipe := 1
  inprocEndpoint := inprocEndpoint
  bindEndpoint := []
  bindEndpoints := []

/-- The record of the instance: its receiving socket, and never an endpoint. -/
def subscriber (type : SubscriberType) : Subscriber := ⟨type, 0, []⟩

/-! ### Topics -/

def topicCreate (s : SpotPubsub) (topicId : TopicId) : Option Errno × SpotPubsub :=
  if s.registry.hasTopic topicId then (some .eexist, s)
  else
    let endpoint := if s.bindEndpoint = [] then s.inprocEndpoint else s.bindEndpoint
    let (rc, registry) := s.registry.registerLocal topicId endpoint
    (rc, { s with registry })

def topicDestroy (s : SpotPubsub) (topicId : TopicId) : Option Errno × SpotPubsub :=
  match s.registry.lookup topicId with
  | none => (some .enoent, s)
  | some entry =>
    if entry.location ≠ .localTopic then (some .einval, s)
    else (none, { s with registry := (s.registry.unregister topicId).2 })

def topicRoute (s : SpotPubsub) (topicId : TopicId) (endpoint : Uri) : Option Errno × SpotPubsub :=
  if s.registry.hasTopic topicId then (some .eexist, s)
  else
    let (rc, registry) := s.registry.registerRemote topicId endpoint
    (rc, { s with registry })

/-! ### Subscriptions -/

/-- `_recv_socket->send`. -/
def sendRequest (s : SpotPubsub) (msg : Msg) (faults : SocketFaults) : SpotResult :=
  match faults.send with
  | some e => .ok (some e, s)
  | none => (s.recvSocket.xsend msg).map fun recvSocket => (none, { s with recvSocket })

/-- `_recv_socket->connect`, and the endpoint is noted. -/
def connect (s : SpotPubsub) (endpoint : Uri) (faults : SocketFaults) : Option Errno × SpotPubsub :=
  match faults.connect with
  | some e => (some e, s)
  | none =>
    (none, { s with
      recvSocket := s.recvSocket.attachNew s.nextPipe (some sndhwm)
      connectedEndpoints := s.connectedEndpoints.insert endpoint s.nextPipe
      nextPipe := s.nextPipe + 1 })

/-- The common end of the branches of `subscribe`: the record, then the filter. A record
that is there already ends the call with success. -/
def subscribeAs (s : SpotPubsub) (topicId : TopicId) (type : SubscriberType)
    (faults : SocketFaults) : SpotResult :=
  match s.subManager.addSubscription topicId (subscriber type) with
  | (some .eexist, _) => .ok (none, s)
  | (some e, _) => .ok (some e, s)
  | (none, subManager) => { s with subManager }.sendRequest (.initSubscribe topicId) faults

def subscribe (s : SpotPubsub) (topicId : TopicId) (faults : SocketFaults) : SpotResult :=
  match s.registry.lookup topicId with
  | none =>
    if s.connectedEndpoints.keys = [] then .ok (some .enoent, s)
    else s.subscribeAs topicId .remoteNode faults
  | some ⟨.localTopic, _⟩ => s.subscribeAs topicId .localSocket faults
  | some ⟨.remoteTopic, endpoint⟩ =>
    if (s.connectedEndpoints.lookup endpoint).isSome then
      s.subscribeAs topicId .remoteNode faults
    else
      match s.connect endpoint faults with
      | (some e, s) => .ok (some e, s)
      | (none, s) => s.subscribeAs topicId .remoteNode faults

/-- A pattern becomes a filter for the text before its first `'*'`. -/
def subscribePattern (s : SpotPubsub) (pattern : TopicId) (faults : SocketFaults) :
    SpotResult :=
  match s.subManager.addPatternSubscription pattern (subscriber .localSocket) with
  | (some e, _) => .ok (some e, s)
  | (none, subManager) =>
    { s with subManager }.sendRequest
      (.initSubscribe (patternPrefix pattern)) faults

/-- The type of record that goes with the location of a topic. -/
def subscriberType : TopicLocation → SubscriberType
  | .localTopic => .localSocket
  | .remoteTopic => .remoteNode

/-- The type of the record is derived from where the topic is now. -/
def unsubscribe (s : SpotPubsub) (topicId : TopicId) (faults : SocketFaults) : SpotResult :=
  match s.registry.lookup topicId with
  | none => .ok (some .enoent, s)
  | some entry =>
    match s.subManager.removeSubscription topicId
        (subscriber (subscriberType entry.location)) with
    | (some e, _) => .ok (some e, s)
    | (none, subManager) => { s with subManager }.sendRequest (.initCancel topicId) faults

/-! ### The cluster -/

/-- The text `tcp://`. -/
def tcpScheme : Uri := [116, 99, 112, 58, 47, 47]

def bind (s : SpotPubsub) (endpoint : Uri) (faults : SocketFaults) : Option Errno × SpotPubsub :=
  if endpoint ∈ s.bindEndpoints then (some .eexist, s)
  else
    match faults.bind with
    | some e => (some e, s)
    | none =>
      (none, { s with
        bindEndpoints := endpoint :: s.bindEndpoints
        bindEndpoint := if s.bindEndpoint = [] ∧ tcpScheme <:+: endpoint then endpoint
          else s.bindEndpoint })

def clusterAdd (s : SpotPubsub) (endpoint : Uri) (faults : SocketFaults) :
    Option Errno × SpotPubsub :=
  if (s.connectedEndpoints.lookup endpoint).isSome then (some .eexist, s)
  else s.connect endpoint faults

/-- The endpoint is forgotten also when the socket no longer knows it. -/
def clusterRemove (s : SpotPubsub) (endpoint : Uri) (faults : SocketFaults) :
    Option Errno × SpotPubsub :=
  match s.connectedEndpoints.lookup endpoint with
  | none => (some .enoent, s)
  | some pipe =>
    let connectedEndpoints := s.connectedEndpoints.erase endpoint
    match faults.termEndpoint with
    | some .enoent => (none, { s with connectedEndpoints })
    | some e => (some e, s)
    | none => (none, { s with connectedEndpoints, recvSocket := s.recvSocket.xpipeTerminated pipe })

/-- A connected publisher has reported how many requests it has read. -/
def requestsRead (s : SpotPubsub) (pipe : PipeId) (msgsRead : Nat) : SpotPubsub :=
  if pipe ∈ s.recvSocket.dist.pipes.items then
    let unread := (s.recvSocket.pipes pipe).sent.length - msgsRead
    { s with recvSocket := s.recvSocket.processActivateWrite pipe (some (sndhwm - unread)) }
  else s

end SpotPubsub

/-- The calls that change an instance. -/
inductive SpotCall
  | topicCreate (topicId : TopicId)
  | topicDestroy (topicId : TopicId)
  | topicRoute (topicId : TopicId) (endpoint : Uri)
  | subscribe (topicId : TopicId)
  | subscribePattern (pattern : TopicId)
  | unsubscribe (topicId : TopicId)
  | bind (endpoint : Uri)
  | clusterAdd (endpoint : Uri)
  | clusterRemove (endpoint : Uri)
  deriving Repr, DecidableEq

namespace SpotPubsub

def call (s : SpotPubsub) (faults : SocketFaults) : SpotCall → SpotResult
  | .topicCreate topicId => .ok (s.topicCreate topicId)
  | .topicDestroy topicId => .ok (s.topicDestroy topicId)
  | .topicRoute topicId endpoint => .ok (s.topicRoute topicId endpoint)
  | .subscribe topicId => s.subscribe topicId faults
  | .subscribePattern pattern => s.subscribePattern pattern faults
  | .unsubscribe topicId => s.unsubscribe topicId faults
  | .bind endpoint => .ok (s.bind endpoint faults)
  | .clusterAdd endpoint => .ok (s.clusterAdd endpoint faults)
  | .clusterRemove endpoint => .ok (s.clusterRemove endpoint faults)

/-! ### What the calls do -/

/-- The instance has a record of this type under the topic. -/
def recorded (s : SpotPubsub) (topicId : TopicId) (type : SubscriberType) : Bool :=
  (s.subManager.exactSubscriptions.subscribers topicId).any (·.same (subscriber type))

/-- The instance has subscribed to the pattern. -/
def patternRecorded (s : SpotPubsub) (pattern : TopicId) : Bool :=
  (s.subManager.patternSubscriptions.subscribers pattern).any (·.same (subscriber .localSocket))

/-- The instance with one more record. -/
def withRecord (s : SpotPubsub) (topicId : TopicId) (type : SubscriberType) : SpotPubsub :=
  { s with
    subManager.exactSubscriptions := s.subManager.exactSubscriptions.set topicId
      (s.subManager.exactSubscriptions.subscribers topicId ++ [subscriber type]) }

/-- The instance without its record of this type. -/
def withoutRecord (s : SpotPubsub) (topicId : TopicId) (type : SubscriberType) : SpotPubsub :=
  { s with
    subManager.exactSubscriptions := s.subManager.exactSubscriptions.set topicId
      ((s.subManager.exactSubscriptions.subscribers topicId).eraseP (·.same (subscriber type))) }

/-- The instance with one more pattern. -/
def withPattern (s : SpotPubsub) (pattern : TopicId) : SpotPubsub :=
  { s with
    subManager.patternSubscriptions := s.subManager.patternSubscriptions.set pattern
      (s.subManager.patternSubscriptions.subscribers pattern ++ [subscriber .localSocket]) }

/-- Every record of a table is one of the instance. -/
def Own (t : SubscriberTable) : Prop :=
  ∀ key, ∀ x ∈ t.subscribers key, ∃ type, x = subscriber type

@[simp] theorem subscriber_type (type : SubscriberType) : (subscriber type).type = type := rfl

theorem same_subscriber {a b : SubscriberType} :
    (subscriber a).same (subscriber b) = true ↔ a = b := by
  cases a <;> cases b <;> decide

/-- Among its own records the instance finds a record as such. -/
theorem Own.any_same {t : SubscriberTable} (h : Own t) {key : TopicId} {type : SubscriberType} :
    (t.subscribers key).any (·.same (subscriber type)) = true ↔
      subscriber type ∈ t.subscribers key := by
  rw [List.any_eq_true]
  constructor
  · intro ⟨x, hx, hsame⟩
    obtain ⟨type', rfl⟩ := h key x hx
    rwa [← same_subscriber.mp hsame]
  · intro hmem
    exact ⟨_, hmem, same_subscriber.mpr rfl⟩

variable {s s' : SpotPubsub} {faults : SocketFaults} {e : Errno}
  {topicId pattern : TopicId} {type : SubscriberType}

theorem sendRequest_fault (h : faults.send = some e) (msg : Msg) :
    s.sendRequest msg faults = .ok (some e, s) := by
  rw [sendRequest, h]

theorem sendRequest_none (h : faults.send = none) (msg : Msg) :
    s.sendRequest msg faults =
      (s.recvSocket.xsend msg).map fun recvSocket => (none, { s with recvSocket }) := by
  rw [sendRequest, h]

/-- Only a fault makes the send fail. -/
theorem sendRequest_inv {msg : Msg} (h : s.sendRequest msg faults = .ok (some e, s')) :
    faults.send = some e ∧ s' = s := by
  cases hsend : faults.send with
  | some e' =>
    rw [sendRequest_fault hsend] at h
    cases h
    exact ⟨rfl, rfl⟩
  | none =>
    rw [sendRequest_none hsend] at h
    obtain ⟨_, _, hpair⟩ := CheckedRun.map_eq_ok h
    cases hpair

theorem subscribeAs_known (h : s.recorded topicId type = true) :
    s.subscribeAs topicId type faults = .ok (none, s) := by
  rw [recorded] at h
  simp only [subscribeAs, addSubscription, add, if_pos h]

theorem subscribeAs_new (h : s.recorded topicId type = false) :
    s.subscribeAs topicId type faults =
      (s.withRecord topicId type).sendRequest (.initSubscribe topicId) faults := by
  rw [recorded, ← Bool.not_eq_true] at h
  simp only [subscribeAs, addSubscription, add, if_neg h,
    withRecord]

theorem subscribePattern_known (h : s.patternRecorded pattern = true) :
    s.subscribePattern pattern faults = .ok (some .eexist, s) := by
  rw [patternRecorded] at h
  simp only [subscribePattern, addPatternSubscription, add,
    if_pos h, subscriber_type, ne_eq, not_true_eq_false, if_false]

theorem subscribePattern_new (h : s.patternRecorded pattern = false) :
    s.subscribePattern pattern faults =
      (s.withPattern pattern).sendRequest
        (.initSubscribe (patternPrefix pattern)) faults := by
  rw [patternRecorded, ← Bool.not_eq_true] at h
  simp only [subscribePattern, addPatternSubscription, add,
    if_neg h, withPattern, subscriber_type, ne_eq, not_true_eq_false, if_false]

/-- `subscribe` connects the receiving socket to the publisher of a remote topic. -/
def connects (s : SpotPubsub) (topicId : TopicId) : Bool :=
  match s.registry.lookup topicId with
  | some ⟨.remoteTopic, endpoint⟩ => (s.connectedEndpoints.lookup endpoint).isNone
  | _ => false

/-- The first part of `subscribe`: the type of the record, and the connection to the
publisher of a remote topic. -/
def resolve (s : SpotPubsub) (topicId : TopicId) (faults : SocketFaults) :
    Except Errno (SubscriberType × SpotPubsub) :=
  match s.registry.lookup topicId with
  | none => if s.connectedEndpoints.keys = [] then .error .enoent else .ok (.remoteNode, s)
  | some ⟨.localTopic, _⟩ => .ok (.localSocket, s)
  | some ⟨.remoteTopic, endpoint⟩ =>
    if (s.connectedEndpoints.lookup endpoint).isSome then .ok (.remoteNode, s)
    else
      match s.connect endpoint faults with
      | (some e, _) => .error e
      | (none, s) => .ok (.remoteNode, s)

theorem connect_fault (h : faults.connect = some e) (endpoint : Uri) :
    s.connect endpoint faults = (some e, s) := by
  rw [connect, h]

/-- `subscribe` fails before anything has changed, or comes to its record. -/
theorem subscribe_eq (s : SpotPubsub) (topicId : TopicId) (faults : SocketFaults) :
    s.subscribe topicId faults =
      match s.resolve topicId faults with
      | .error e => .ok (some e, s)
      | .ok (type, s1) => s1.subscribeAs topicId type faults := by
  rw [subscribe, resolve]
  split
  · split <;> rfl
  · rfl
  split
  · rfl
  · cases hfault : faults.connect with
    | some e => rw [connect_fault hfault]
    | none => simp only [connect, hfault]

theorem subscribe_failed (h : s.resolve topicId faults = .error e) :
    s.subscribe topicId faults = .ok (some e, s) := by
  rw [subscribe_eq, h]

theorem subscribe_proceeds {s1 : SpotPubsub} (h : s.resolve topicId faults = .ok (type, s1)) :
    s.subscribe topicId faults = s1.subscribeAs topicId type faults := by
  rw [subscribe_eq, h]

/-- A connection is all that the first part adds. -/
theorem resolve_ok {s1 : SpotPubsub} (h : s.resolve topicId faults = .ok (type, s1)) :
    s1 = s ∨ s.connects topicId = true ∧ faults.connect = none ∧
      ∃ endpoint, s1 = (s.connect endpoint faults).2 := by
  rw [resolve] at h
  split at h
  · split at h
    · cases h
    · cases h
      exact Or.inl rfl
  · cases h
    exact Or.inl rfl
  rename_i endpoint hreg
  split at h
  · cases h
    exact Or.inl rfl
  rename_i hnew
  cases hfault : faults.connect with
  | some e =>
    rw [connect_fault hfault] at h
    cases h
  | none =>
    simp only [connect, hfault] at h
    cases h
    refine Or.inr ⟨?_, rfl, endpoint, by simp only [connect, hfault]⟩
    simpa [connects, hreg] using hnew

theorem resolve_subManager {s1 : SpotPubsub} (h : s.resolve topicId faults = .ok (type, s1)) :
    s1.subManager = s.subManager := by
  rcases resolve_ok h with rfl | ⟨_, hfault, endpoint, rfl⟩
  · rfl
  · simp only [connect, hfault]

theorem unsubscribe_unregistered (h : s.registry.lookup topicId = none) :
    s.unsubscribe topicId faults = .ok (some .enoent, s) := by
  rw [unsubscribe, h]

theorem unsubscribe_unknown {entry : TopicEntry} (hreg : s.registry.lookup topicId = some entry)
    (h : s.recorded topicId (subscriberType entry.location) = false) :
    s.unsubscribe topicId faults = .ok (some .enoent, s) := by
  rw [recorded, ← Bool.not_eq_true] at h
  simp only [unsubscribe, hreg, removeSubscription, remove,
    if_neg h]

theorem unsubscribe_known {entry : TopicEntry} (hreg : s.registry.lookup topicId = some entry)
    (h : s.recorded topicId (subscriberType entry.location) = true) :
    s.unsubscribe topicId faults =
      (s.withoutRecord topicId (subscriberType entry.location)).sendRequest
        (.initCancel topicId) faults := by
  rw [recorded] at h
  simp only [unsubscribe, hreg, removeSubscription, remove,
    if_pos h, withoutRecord]

end SpotPubsub

end ServerLink

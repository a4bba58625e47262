import ServerLink.Core.RouterFrame
import ServerLink.Core.Session
import ServerLink.Core.Tracking

/-!
# ServerLink.Core.PeerIdentity

The id under which a ROUTER enters the pipe of an outgoing connection. The first message in the
pipe is taken for the identity of the peer. It is the identity that READY carried if nothing is
written to the pipe before it. Something else is written first when a connection fails after the
greeting and before READY, and the session sends a disconnect notification
(`Session.Admissible`).

A pipe whose identity is in use stays anonymous. Its reader does not fall asleep, so that it is
not told of further messages, and none of them is taken for an identity.
-/

namespace ServerLink

open PipeCall Checked CheckedRun List Function Msg Router

variable {id : Blob}

/-- What can happen to the session, the engines and the socket. -/
inductive SessionAction
  | connect (pipe : PipeId)
  /-- A connection has been made, and the session gets an engine. -/
  | processAttach
  | greeting
  /-- READY comes. The number is that of the pipe, if the session makes one. -/
  | ready (id : Blob) (pipe : PipeId)
  /-- `mechanism_ready` is called again (`next_handshake_command`). -/
  | readyAgain (pipe : PipeId)
  | push (msg : OwnerMsg)
  | flush
  | error (reason : ErrorReason)
  | processTerm (linger : Int)
  /-- The linger period expires. -/
  | timer
  | use (pipe : PipeId) (u : PipeUse)
  | processPipeTermAck (pipe : PipeId)
  /-- The socket processes the command of `engine_ready`. -/
  | bind (pipe : PipeId)
  | activateRead (pipe : PipeId)
  /-- The end of the socket learns that the session terminates the pipe. -/
  | pipeTerm (pipe : PipeId)
  /-- The socket terminates the pipe. -/
  | terminate (pipe : PipeId) (delay : Bool)
  | xpipeTerminated (pipe : PipeId)
  /-- The socket does something that has nothing to do with the endpoint. -/
  | other (a : RouterAction)

namespace Session

def new (nextIntegralRoutingId : BitVec 32) (notifyConnect notifyDisconnect immediate : Bool)
    (sndhwm rcvhwm : Int) : Session where
  router := .new nextIntegralRoutingId
  notifyConnect := notifyConnect
  notifyDisconnect := notifyDisconnect
  immediate := immediate
  sndhwm := sndhwm
  rcvhwm := rcvhwm

/-- The number is not in use. -/
def fresh (s : Session) (p : PipeId) : Bool := (s.links p).isNone && !s.router.attached p

/-- The action is at other pipes. The user sets no id for a connection. -/
def elsewhere (s : Session) : RouterAction → Bool
  | .attach p _ _ | .event p _ | .activateRead p | .disconnect p | .pipeTerminated p =>
    (s.links p).isNone
  | .setConnectRoutingId _ | .setRaw => false
  | .setHandover _ | .xrecv | .xhasIn => true

/-- `connect_internal`: the pipe is made at once, unless `immediate` is set. -/
def connect (s : Session) (p : PipeId) : Except Fault Session :=
  let s := { s with connected := true }
  if s.immediate then .ok s else (s.newPipe p).attach p s.newLink true

def step (s : Session) : SessionAction → Except Fault Session
  | .connect p =>
    if s.connected = false ∧ s.engine = none ∧ s.fresh p then s.connect p else .ok s
  | .processAttach =>
    if s.connected ∧ s.engine = none then .ok { s with engine := some .handshaking } else .ok s
  | .greeting =>
    if s.engine = some .handshaking then .ok { s with engine := some .negotiating } else .ok s
  | .ready id p =>
    if s.engine = some .negotiating ∧ s.fresh p then (s.engineReady p).mechanismReady id
    else .ok s
  | .readyAgain p =>
    match s.engine with
    | some (.stalled id) => if s.fresh p then (s.engineReady p).mechanismReady id else .ok s
    | _ => .ok s
  | .push msg => if s.engine = some .ready then (s.pushMsg msg.msg).map Prod.snd else .ok s
  | .flush => s.flush
  | .error reason => if s.engine = none then .ok s else s.error reason
  | .processTerm linger => s.processTerm linger
  | .timer => s.onPipe (·.terminate false)
  | .use p u => s.call p u.method
  | .processPipeTermAck p => (s.call p processPipeTermAck).map fun s => s.pipeTerminated p
  | .bind p =>
    match s.links p with
    | none => .ok s
    | some l => if l.bound then .ok s else s.attach p l false
  | .activateRead p =>
    match s.links p with
    | none => .ok s
    | some l => if s.router.attached p then s.activateRead p l else .ok s
  | .pipeTerm p => .ok (s.modify p Inlet.processPipeTerm)
  | .terminate p delay => .ok (s.modify p (·.terminate delay))
  | .xpipeTerminated p =>
    if s.router.attached p ∧ (s.router.queue.pipes p).ending then
      .ok { s with router := s.router.xpipeTerminated p }
    else .ok s
  | .other a =>
    if s.elsewhere a then
      (Router.step ⟨s.router, ∅⟩ a).map fun r => { s with router := r.socket }
    else .ok s

/-- Nothing has named the pipe of the session yet. -/
def nameless (s : Session) : Bool :=
  match s.pipe with
  | none => false
  | some p => (s.links p).any fun l => l.identity.isNone

/-- No connection fails between the greeting and READY while the session sends disconnect
notifications and has a pipe that was never named. -/
def Admissible (s : Session) : SessionAction → Prop
  | .error _ => ¬ (s.notifyDisconnect = true ∧ s.engine ≠ some .handshaking ∧ s.nameless = true)
  | _ => True

instance (s : Session) (a : SessionAction) : Decidable (s.Admissible a) := by
  unfold Admissible
  split <;> infer_instance

end Session

/-! ### A pipe -/

/-- The id of a pipe agrees with the identity of the peer. -/
def Names (identity : Option Blob) (id : Blob) : Prop :=
  ∃ I, identity = some I ∧ (I ≠ [] → id = I) ∧ (I = [] → ∃ n, id = 0 :: putUint32 n)

/-- What is in the queue to the socket: nothing but delimiters as long as no identity was sent,
and then the identity before everything else. -/
def Headed (identity : Option Blob) (state : PipeState) (queue : Queue) : Prop :=
  match identity with
  | none =>
    queue.incomplete = [] ∧ (∃ n, queue.complete = replicate n .initDelimiter) ∧
      (state = .active → queue.complete = [])
  | some id => ∃ m rest, queue.complete = m :: rest ∧ m.isDelimiter = false ∧ m.data = id

/-- The two ends of a pipe. Until the socket has entered the pipe, it has read nothing, or it has
read an identity that was in use and does not look at the pipe again. -/
structure Link.Ok (i : Inlet) (l : Link) : Prop where
  out : ∃ queue, l.out.WritesTo outQueue queue ∧ Headed l.identity l.out.pipe.state queue ∧
    (l.entered = none → i.reading = true →
      i.parts = queue.flushed ∨ l.bound = true ∧ i.inActive = true)
  names : ∀ id, l.entered = some id → Names l.identity id

/-- The session uses its end of the pipe, and an identity that was sent stays in front. -/
def Carries (identity : Option Blob) (c c' : PipeCall) : Prop :=
  ∀ queue, c.WritesTo outQueue queue → Headed identity c.pipe.state queue →
    ∃ queue', c'.WritesTo outQueue queue' ∧ Headed identity c'.pipe.state queue' ∧
      queue.flushed <+: queue'.flushed

variable {identity : Option Blob} {c c' : PipeCall} {queue : Queue}

theorem PipeCall.WritesTo.flushedOut (h : c.WritesTo PipeCall.outQueue queue) :
    c.flushedOut = queue.flushed := by
  simp only [PipeCall.flushedOut, h.cell]

/-- Only delimiters are added, and none while the pipe is active. -/
theorem carries_of_settles (h : c.Settles outQueue c') : Carries identity c c' := by
  intro queue hw hn
  obtain ⟨queue', hl⟩ := h queue hw
  obtain ⟨n, hn'⟩ := hl.complete
  refine ⟨queue', hl.writes, ?_, hl.flushed⟩
  cases identity with
  | none =>
    obtain ⟨hinc, ⟨k, hk⟩, hact⟩ := hn
    refine ⟨?_, ⟨k + n, ?_⟩, fun hs => ?_⟩
    · rcases hl.incomplete with hi | hi
      · exact hi.trans hinc
      · exact hi
    · rw [hn', hk, replicate_append_replicate]
    · obtain ⟨hs', rfl⟩ := hl.active hs
      exact hact hs'
  | some id =>
    obtain ⟨m, rest, hc, hm⟩ := hn
    exact ⟨m, rest ++ replicate n .initDelimiter, by rw [hn', hc]; rfl, hm⟩

theorem Headed.of_complete {queue' : Queue} {state : PipeState} (h : Headed identity state queue)
    (hc : queue'.complete = queue.complete)
    (hi : queue.incomplete = [] → queue'.incomplete = []) : Headed identity state queue' := by
  cases identity with
  | none => exact ⟨hi h.1, hc ▸ h.2.1, fun hs => hc.trans (h.2.2 hs)⟩
  | some id =>
    obtain ⟨m, rest, heq, hm⟩ := h
    exact ⟨m, rest, hc.trans heq, hm⟩

/-- Flushing appends to what the reader sees. -/
theorem carries_flush (c : PipeCall) : Ensures c.flush (Carries identity c) := by
  intro c' h queue hw hn
  have hsame : c' = c → ∃ queue', c'.WritesTo outQueue queue' ∧
      Headed identity c'.pipe.state queue' ∧ queue.flushed <+: queue'.flushed := by
    intro heq
    rw [heq]
    exact ⟨queue, hw, hn, prefix_refl _⟩
  by_cases hack : c.pipe.state = .termAckSent
  · simp only [flush, hack, if_true] at h
    exact hsame (Except.ok.inj h).symm
  rcases hw.outPipe with hq | hq
  · rw [flush_eq hack hq hw.cell] at h
    cases h
    refine ⟨queue.flush.2, ⟨Arena.cell_set _ _ _, hw.ok.flush, hw.apart, hw.outPipe, hw.isOpen⟩,
      hn.of_complete ?_ ?_, ?_⟩
    · rw [FlushQueue.complete, FlushQueue.flush_flushed, FlushQueue.flush_pending, append_nil]
      rfl
    · rw [FlushQueue.flush_incomplete]
      exact id
    · rw [FlushQueue.flush_flushed]
      exact prefix_append _ _
  · unfold flush at h
    split at h
    · exact hsame (Except.ok.inj h).symm
    split at h
    · exact hsame (Except.ok.inj h).symm
    · rename_i hq'
      rw [hq] at hq'
      cases hq'

theorem carries_rollback (c : PipeCall) : Ensures c.rollback (Carries identity c) := by
  intro c' h queue hw hn
  obtain ⟨c1, queue', heq, hpipe, hw', hor, -⟩ := hw.rollback
  cases heq.symm.trans h
  refine ⟨queue', hw', ?_, ?_⟩
  · rw [hpipe]
    rcases hor with rfl | rfl
    · exact hn
    · exact hn.of_complete rfl fun _ => rfl
  · rcases hor with rfl | rfl <;> exact prefix_refl _

theorem carries_processPipeTermAck (c : PipeCall) :
    Ensures c.processPipeTermAck (Carries identity c) := by
  intro c' h queue hw hn
  obtain ⟨hw', hact, -⟩ := hw.processPipeTermAck h
  refine ⟨queue, hw', ?_, prefix_refl _⟩
  cases identity with
  | none => exact ⟨hn.1, hn.2.1, fun hs => absurd hs hact⟩
  | some id => exact hn

theorem carries_use (u : PipeUse) (c : PipeCall) : Ensures (u.method c) (Carries identity c) := by
  refine Ensures.mono (P := c.Settles outQueue) ?_ fun _ => carries_of_settles
  cases u with
  | read => exact .map (settles_read c _)
  | checkRead => exact .map (settles_checkRead c _)
  | processActivateRead => exact .ok (settles_processActivateRead c _)
  | processActivateWrite msgsRead => exact .ok (settles_processActivateWrite c _ msgsRead)
  | processPipeTerm => exact settles_processPipeTerm c _
  | publish msgs => exact .ok (settles_publish c msgs)

/-- Behind an identity anything may be written. -/
theorem carries_write {m : OwnerMsg} {written : Bool}
    (h : c.write m.msg = .ok (written, c')) : Carries (some id) c c' := by
  intro queue hw hn
  rcases hw.write m with ⟨c1, heq, hs⟩ | ⟨-, c1, heq, hpipe, hw'⟩
  · cases heq.symm.trans h
    exact carries_of_settles hs queue hw hn
  cases heq.symm.trans h
  obtain ⟨m', rest, hc, hm'⟩ := hn
  have hflushed : (queue.write m.msg m.msg.more).flushed = queue.flushed := by
    unfold FlushQueue.write
    split <;> rfl
  refine ⟨_, hw', ?_, hflushed ▸ prefix_refl _⟩
  have hgrow : queue.complete <+: (queue.write m.msg m.msg.more).complete := by
    unfold FlushQueue.write FlushQueue.complete
    split
    · exact prefix_refl _
    · exact ⟨queue.incomplete ++ [m.msg], append_assoc _ _ _⟩
  obtain ⟨more, hmore⟩ := hgrow
  exact ⟨m', rest ++ more, by rw [← hmore, hc]; rfl, hm'⟩

theorem peerRoutingId_valid (id : Blob) :
    (peerRoutingId id).check = true ∧ (peerRoutingId id).isDelimiter = false ∧
      (peerRoutingId id).more = false := by
  rcases typeOfSize_hasData id.length with h | h <;>
    simp [peerRoutingId, check, isDelimiter, more, setFlags, initBuffer, h,
      moreFlag, routingIdFlag]

/-- The identity is the first message in the pipe. -/
theorem headed_of_write {queue : Queue} (hw : c.WritesTo outQueue queue)
    (hn : Headed none c.pipe.state queue) (h : c.write (.peerRoutingId id) = .ok (true, c')) :
    ∃ queue', c'.WritesTo outQueue queue' ∧ Headed (some id) c'.pipe.state queue' ∧
      queue.flushed <+: queue'.flushed := by
  obtain ⟨hvalid, hdel, hmore⟩ := peerRoutingId_valid id
  rcases hw.write ⟨.peerRoutingId id, hvalid, hdel⟩ with ⟨c1, heq, -⟩ | ⟨hs, c1, heq, hpipe, hw'⟩
  · cases (Prod.mk.inj (Except.ok.inj (heq.symm.trans h))).1
  cases heq.symm.trans h
  refine ⟨_, hw', ⟨.peerRoutingId id, [], ?_, hdel, rfl⟩, ?_⟩
  · have hempty := hn.2.2 hs
    have hinc := hn.1
    simp only [FlushQueue.complete, append_eq_nil_iff] at hempty
    simp [FlushQueue.write, FlushQueue.complete, hmore, hempty.1, hempty.2, hinc]
  · simp only [FlushQueue.write, hmore, Bool.false_eq_true, if_false]
    exact prefix_refl _

theorem parts_publish {i : Inlet} {queue' : Queue} (hparts : i.parts = queue.flushed)
    (hpre : queue.flushed <+: queue'.flushed) :
    (i.publish (queue'.flushed.drop queue.flushed.length)).parts = queue'.flushed := by
  obtain ⟨more, hmore⟩ := hpre
  rw [← hmore, drop_left]
  show i.parts ++ more = _
  rw [hparts]

/-- The socket has read nothing from the pipe. -/
def Link.Unread (i : Inlet) (l : Link) : Prop :=
  ∃ queue, l.out.WritesTo outQueue queue ∧ Headed l.identity l.out.pipe.state queue ∧
    (i.reading = true → i.parts = queue.flushed)

namespace Link

variable {i i' : Inlet} {l : Link}

theorem Ok.publish (h : l.Ok i) {identity : Option Blob}
    (hid : ∀ id, l.identity = some id → identity = some id)
    (hc : ∀ queue, l.out.WritesTo outQueue queue → Headed l.identity l.out.pipe.state queue →
      ∃ queue', c.WritesTo outQueue queue' ∧ Headed identity c.pipe.state queue' ∧
        queue.flushed <+: queue'.flushed) :
    Link.Ok (i.publish (c.flushedOut.drop l.out.flushedOut.length))
      { l with out := c, identity } where
  out := by
    obtain ⟨queue, hw, hn, hparts⟩ := h.out
    obtain ⟨queue', hw', hn', hpre⟩ := hc queue hw hn
    refine ⟨queue', hw', hn', fun he hr => ?_⟩
    rw [hw.flushedOut, hw'.flushedOut]
    exact (hparts he hr).imp_left fun hparts => parts_publish hparts hpre
  names id he := by
    obtain ⟨I, hI, hrest⟩ := h.names id he
    exact ⟨I, hid I hI, hrest⟩

/-- The socket does something to its end other than reading. -/
theorem Ok.inlet (h : l.Ok i) (hparts : l.entered = none → i'.parts = i.parts)
    (hact : l.entered = none → i'.inActive = i.inActive)
    (hr : l.entered = none → i'.reading = true → i.reading = true) : l.Ok i' where
  out := by
    obtain ⟨queue, hw, hn, hp⟩ := h.out
    refine ⟨queue, hw, hn, fun he hread => ?_⟩
    rw [hparts he, hact he]
    exact hp he (hr he hread)
  names := h.names

/-- The socket has not looked at the pipe, or has fallen asleep since. -/
theorem Ok.unread (h : l.Ok i) (he : l.entered = none)
    (hb : l.bound = false ∨ i.inActive = false) : l.Unread i := by
  obtain ⟨queue, hw, hn, hp⟩ := h.out
  refine ⟨queue, hw, hn, fun hr => ?_⟩
  rcases hp he hr with hparts | ⟨hbound, hact⟩
  · exact hparts
  · rw [hbound, hact] at hb
    rcases hb with hb | hb <;> cases hb

/-- The first message that the socket finds is the identity. -/
theorem Unread.read_some (h : l.Unread i) {m : Msg} (hm : i.read = (some m, i')) :
    l.identity = some m.data := by
  obtain ⟨queue, -, hn, hp⟩ := h
  obtain ⟨-, hread, hdel, rest, hparts, -⟩ := Inlet.read_eq_some hm
  have hqueue : queue.complete = m :: (rest ++ queue.pending) := by
    rw [FlushQueue.complete, ← hp hread, hparts]
    rfl
  cases hid : l.identity with
  | none =>
    -- there would only be delimiters
    rw [hid] at hn
    obtain ⟨n, hn⟩ := hn.2.1
    have hmem : m ∈ replicate n initDelimiter := by
      rw [← hn, hqueue]
      exact mem_cons_self
    rw [eq_of_mem_replicate hmem] at hdel
    cases hdel
  | some id =>
    rw [hid] at hn
    obtain ⟨m', rest', hc, -, hdata⟩ := hn
    rw [hqueue] at hc
    obtain ⟨rfl, -⟩ := cons.inj hc
    rw [hdata]

/-- The pipe stays anonymous: the socket finds nothing, or an identity that is in use. -/
theorem Unread.anonymous (h : l.Unread i) :
    Link.Ok i.read.2 { l with bound := true, entered := none } where
  out := by
    obtain ⟨queue, hw, hn, hp⟩ := h
    refine ⟨queue, hw, hn, fun _ hr => ?_⟩
    cases hread : i.read with
    | mk m i' =>
      rw [hread] at hr
      cases m with
      | some m =>
        obtain ⟨hact, -, -, rest, -, rfl⟩ := Inlet.read_eq_some hread
        exact .inr ⟨rfl, hact⟩
      | none =>
        rcases Inlet.read_eq_none hread with rfl | ⟨-, rfl⟩ | ⟨m, rest, -, -, rfl⟩
        · exact .inl (hp hr)
        · exact .inl (hp hr)
        · cases hr.symm.trans (Inlet.delimited_reading i)
  names id hid := by cases hid

/-- The socket has entered the pipe under the identity. -/
theorem Unread.enter (h : l.Unread i) {m : Msg} (hm : i.read = (some m, i'))
    (hne : m.data ≠ [] → id = m.data) (hnil : m.data = [] → ∃ n, id = 0 :: putUint32 n)
    (i'' : Inlet) : Link.Ok i'' { l with bound := true, entered := some id } where
  out := by
    obtain ⟨queue, hw, hn, -⟩ := h
    exact ⟨queue, hw, hn, nofun⟩
  names id' hid := by
    cases hid
    exact ⟨m.data, h.read_some hm, hne, hnil⟩

end Link

/-! ### The session and the socket -/

namespace Session

variable {locallyInitiated : Bool}

/-- The pipe is in order, and the socket reads from it only if it has entered it. -/
structure Joined (router : Router) (p : PipeId) (l : Link) : Prop where
  ok : l.Ok (router.queue.pipes p)
  apart : l.entered = none → p ∉ router.queue.fq.pipes.items
  anonymous : p ∈ router.anonymousPipes → l.entered = none
  unbound : l.bound = false → l.entered = none ∧ p ∉ router.anonymousPipes

structure Inv (router : Router) (links : PipeId → Option Link) : Prop where
  connectId : router.table.connectRoutingId = []
  raw : router.rawSocket = false
  link : ∀ p l, links p = some l → Joined router p l

/-- The socket and the pipes of the session are in order. -/
def InOrder (s : Session) : Prop := Inv s.router s.links

/-- An engine that is ready has named the pipe. -/
def Ready (s : Session) : Prop := s.engine = some .ready → s.nameless = false

theorem inv_new (id : BitVec 32) : Inv (.new id) fun _ => none where
  connectId := rfl
  raw := rfl
  link p l h := by cases h

variable {s s' : Session} {p : PipeId} {l l' : Link} {router : Router}

@[simp] theorem links_setLink (s : Session) (p : PipeId) (l : Link) :
    (s.setLink p l).links p = some l := by
  simp [setLink]

theorem links_setLink_of_ne (s : Session) (l : Link) {q : PipeId} (hq : q ≠ p) :
    (s.setLink p l).links q = s.links q := by
  simp [setLink, update_of_ne hq]

theorem Joined.spares (h : Joined s.router p l) (hs : Spares p s.router router) :
    Joined router p l where
  ok := h.ok.inlet (fun he => (hs.unread (h.apart he)).2.1)
    (fun he => (hs.unread (h.apart he)).2.2.1) fun he => (hs.unread (h.apart he)).2.2.2
  apart he := (hs.unread (h.apart he)).1
  anonymous hp := h.anonymous (hs.anonymous.mp hp)
  unbound hb := (h.unbound hb).imp_right fun hp hmem => hp (hs.anonymous.mp hmem)

theorem InOrder.spares (h : s.InOrder) (hc : router.table.connectRoutingId = [])
    (hr : router.rawSocket = false)
    (hs : ∀ p, s.links p ≠ none → Spares p s.router router) : Inv router s.links where
  connectId := hc
  raw := hr
  link p l hl := (h.link p l hl).spares (hs p (by simp [hl]))

theorem InOrder.setLink (h : s.InOrder)
    (hs : ∀ q, q ≠ p → Spares q s.router router) (hl : Joined router p l) :
    Inv router (s.setLink p l).links := by
  -- what holds of the options holds whatever pipe it is looked at from
  have hother := hs (p + 1) (Nat.succ_ne_self p)
  refine ⟨hother.connectId h.connectId, hother.raw.trans h.raw, fun q l' hl' => ?_⟩
  by_cases hq : q = p
  · subst hq
    rw [links_setLink] at hl'
    exact Option.some.inj hl' ▸ hl
  · rw [links_setLink_of_ne s l hq] at hl'
    exact (h.link q l' hl').spares (hs q hq)

theorem InOrder.publish (h : s.InOrder) (hl : s.links p = some l) {flushed : List Msg}
    (hok : l'.Ok ((s.router.queue.pipes p).publish flushed)) (he : l'.entered = l.entered)
    (hb : l'.bound = l.bound) :
    Inv { s.router with queue := s.router.queue.modify p (·.publish flushed) }
      (s.setLink p l').links := by
  have hold := h.link p l hl
  refine h.setLink (fun q hq => spares_modify _ hq _) ⟨?_, ?_, ?_, ?_⟩
  · simp only [FairQueue.modify, update_self]
    exact hok
  · rw [he]
    exact hold.apart
  · rw [he]
    exact hold.anonymous
  · rw [he, hb]
    exact hold.unbound

/-! ### Calls of the session -/

/-- The session uses its pipes, and none of them is named by it. -/
structure Kept (s s' : Session) : Prop where
  inv : s'.InOrder
  pipe : s'.pipe = s.pipe
  engine : s'.engine = s.engine
  identity : ∀ q, (s'.links q).map (·.identity) = (s.links q).map (·.identity)

theorem Kept.refl (h : s.InOrder) : Kept s s := ⟨h, rfl, rfl, fun _ => rfl⟩

theorem Kept.trans {s'' : Session} (h : Kept s s') (h' : Kept s' s'') : Kept s s'' where
  inv := h'.inv
  pipe := h'.pipe.trans h.pipe
  engine := h'.engine.trans h.engine
  identity q := (h'.identity q).trans (h.identity q)

theorem nameless_eq (s : Session) :
    s.nameless = s.pipe.any fun p => ((s.links p).map (·.identity)).any Option.isNone := by
  unfold nameless
  cases s.pipe with
  | none => rfl
  | some p =>
    show (s.links p).any _ = ((s.links p).map _).any _
    cases s.links p <;> rfl

theorem Kept.nameless (h : Kept s s') : s'.nameless = s.nameless := by
  rw [nameless_eq, nameless_eq, h.pipe]
  congr 1
  funext p
  rw [h.identity]

theorem link_eq_ok (h : s.link p = .ok l) : s.links p = some l := by
  have hlink : Ensures (s.link p) (s.links p = some ·) := by
    unfold link
    split
    · exact .error _ _
    · exact .ite (fun _ => .error _ _) fun _ => .ok ‹_›
  exact hlink l h

/-- What the session flushes is published at the end of the socket. -/
theorem kept_setOut (h : s.InOrder) (hl : s.links p = some l) {c : PipeCall}
    (hc : Carries l.identity l.out c) : Kept s (s.setOut p l c) where
  inv := h.publish hl ((h.link p l hl).ok.publish (fun _ hid => hid) hc) rfl rfl
  pipe := rfl
  engine := rfl
  identity q := by
    show ((s.setLink p { l with out := c }).links q).map _ = _
    by_cases hq : q = p
    · rw [hq, links_setLink, hl]
      rfl
    · rw [links_setLink_of_ne s _ hq]

theorem kept_call (h : s.InOrder) {method : PipeCall → Except Fault PipeCall}
    (hm : ∀ l : Link, Ensures (method l.out) (Carries l.identity l.out)) :
    Ensures (s.call p method) (Kept s) :=
  .seq fun l hl => (hm l).bind fun _ hc => .pure (kept_setOut h (link_eq_ok hl) hc)

theorem kept_onPipe (h : s.InOrder) {method : PipeCall → Except Fault PipeCall}
    (hm : ∀ l : Link, Ensures (method l.out) (Carries l.identity l.out)) :
    Ensures (s.onPipe method) (Kept s) := by
  unfold onPipe
  split
  · exact .ok (.refl h)
  · exact kept_call h hm

theorem kept_flush (h : s.InOrder) : Ensures s.flush (Kept s) :=
  kept_onPipe h fun l => carries_flush l.out

theorem kept_rollback (h : s.InOrder) : Ensures s.rollback (Kept s) :=
  kept_onPipe h fun l => carries_rollback l.out

theorem carries_terminate (c : PipeCall) (delay : Bool) :
    Ensures (c.terminate delay) (Carries identity c) :=
  (settles_terminate c _ delay).mono fun _ => carries_of_settles

theorem kept_terminate (h : s.InOrder) (delay : Bool) :
    Ensures (s.onPipe (·.terminate delay)) (Kept s) :=
  kept_onPipe h fun l => carries_terminate l.out delay

theorem kept_checkRead (h : s.InOrder) : Ensures (s.onPipe PipeUse.checkRead.method) (Kept s) :=
  kept_onPipe h fun l => carries_use .checkRead l.out

theorem kept_pushMsg_of (h : s.InOrder) {m : OwnerMsg} (pushed : Bool)
    (hc : ∀ p l c, s.pipe = some p → s.links p = some l →
      l.out.write m.msg = .ok (pushed, c) → Carries l.identity l.out c) :
    Ensures (s.pushMsg m.msg) fun x => x.1 = pushed → Kept s x.2 := by
  refine .ite (fun _ => .ok fun _ => .refl h) fun _ => ?_
  split
  · exact .ok fun _ => .refl h
  rename_i p hpipe
  refine .seq fun l hl => .seq fun ⟨written, c⟩ hw => .pure ?_
  rintro rfl
  exact kept_setOut h (link_eq_ok hl) (hc p l c hpipe (link_eq_ok hl) hw)

/-- A message is pushed to a pipe that has been named. -/
theorem kept_pushMsg (h : s.InOrder) (hn : s.nameless = false) (m : OwnerMsg) :
    Ensures (s.pushMsg m.msg) fun x => Kept s x.2 := by
  refine fun x hx => kept_pushMsg_of h x.1 (fun p l c hpipe hl hw => ?_) x hx rfl
  cases hid : l.identity with
  | none => simp [nameless, hpipe, hl, hid] at hn
  | some id => exact carries_write hw

/-- A message that the pipe refuses leaves the queue as it is. -/
theorem kept_pushMsg_refused (h : s.InOrder) (m : OwnerMsg) :
    Ensures (s.pushMsg m.msg) fun x => x.1 = false → Kept s x.2 := by
  refine kept_pushMsg_of h false fun p l c _ _ hw queue hq hn => ?_
  rcases hq.write m with ⟨c1, heq, hs⟩ | ⟨-, c1, heq, -⟩
  · cases heq.symm.trans hw
    exact carries_of_settles hs queue hq hn
  · cases (Prod.mk.inj (Except.ok.inj (heq.symm.trans hw))).1

/-- The identity is pushed, and the pipe has a name from now on. -/
theorem InOrder.pushId (h : s.InOrder) (hp : s.pushMsg (.peerRoutingId id) = .ok (true, s')) :
    (s'.named id).InOrder ∧ (s'.named id).nameless = false := by
  unfold pushMsg at hp
  rw [if_neg (by simp [peerRoutingId, command, setFlags, initBuffer,
    commandFlag, routingIdFlag])] at hp
  split at hp
  · cases (Prod.mk.inj (Except.ok.inj hp)).1
  rename_i p hpipe
  obtain ⟨l, hl, hp⟩ := bind_eq_ok hp
  obtain ⟨⟨written, c⟩, hw, hp⟩ := bind_eq_ok hp
  obtain ⟨hyes, rfl⟩ := Prod.mk.inj (Except.ok.inj hp)
  have hl := link_eq_ok hl
  obtain rfl : written = true := hyes
  have hlink : (s.setOut p l c).links p = some { l with out := c } :=
    links_setLink s p { l with out := c }
  have hnamed : (s.setOut p l c).named id =
      (s.setOut p l c).setLink p { l with out := c, identity := l.identity.or (some id) } := by
    simp only [named, show (s.setOut p l c).pipe = some p from hpipe, hlink]
  rw [hnamed]
  constructor
  · have hlinks : ((s.setOut p l c).setLink p
          { l with out := c, identity := l.identity.or (some id) }).links =
        (s.setLink p { l with out := c, identity := l.identity.or (some id) }).links :=
      update_idem _ _ _
    rw [InOrder, hlinks]
    refine h.publish hl ((h.link p l hl).ok.publish (fun I hI => ?_) fun queue hq hn => ?_) rfl rfl
    · rw [hI]
      rfl
    cases hid : l.identity with
    | none =>
      rw [hid] at hn
      exact headed_of_write hq hn hw
    | some I =>
      rw [hid] at hn
      obtain ⟨hvalid, hdel, -⟩ := peerRoutingId_valid id
      exact carries_write (m := ⟨.peerRoutingId id, hvalid, hdel⟩) hw queue hq hn
  · rw [nameless, show ((s.setOut p l c).setLink p _).pipe = some p from hpipe]
    dsimp only
    rw [links_setLink]
    cases l.identity <;> rfl

theorem Kept.ready (h : Kept s s') (hr : Ready s) : Ready s' := by
  intro he
  rw [h.nameless]
  exact hr (h.engine.symm.trans he)

theorem InOrder.settle (h : s.InOrder) (hn : s.nameless = false) :
    Ensures s.settle fun s' => s'.InOrder ∧ Ready s' :=
  (kept_flush h).bind fun _ hk => .pure ⟨hk.inv, fun _ => hk.nameless.trans hn⟩

theorem InOrder.notifyReady (h : s.InOrder) (hn : s.nameless = false) :
    Ensures (s.notifyReady id) fun s' => s'.InOrder ∧ Ready s' := by
  refine .ite (fun _ => ?_) fun _ => h.settle hn
  refine (kept_pushMsg h hn ⟨.init, rfl, rfl⟩).bind fun ⟨pushed, s1⟩ hk => ?_
  exact .ite (fun _ => hk.inv.settle (hk.nameless.trans hn)) fun _ => .pure ⟨hk.inv, nofun⟩

theorem InOrder.mechanismReady (h : s.InOrder) :
    Ensures (s.mechanismReady id) fun s' => s'.InOrder ∧ Ready s' := by
  refine .seq fun ⟨pushed, s1⟩ hp => ?_
  cases pushed with
  | true =>
    obtain ⟨h1, hn⟩ := h.pushId hp
    exact h1.notifyReady hn
  | false =>
    obtain ⟨hvalid, hdel, -⟩ := peerRoutingId_valid id
    have hk := kept_pushMsg_refused h ⟨.peerRoutingId id, hvalid, hdel⟩ _ hp rfl
    exact .pure ⟨hk.inv, nofun⟩

/-! ### Errors and termination -/

/-- The disconnect notification goes behind an identity, as the step is admissible. -/
theorem kept_notifyError (h : s.InOrder)
    (ha : ¬ (s.notifyDisconnect = true ∧ s.engine ≠ some .handshaking ∧ s.nameless = true)) :
    Ensures s.notifyError (Kept s) := by
  refine .ite (fun hcond => ?_) fun _ => .ok (.refl h)
  have hn : s.nameless = false := by
    cases hname : s.nameless with
    | false => rfl
    | true => exact absurd ⟨hcond.1, hcond.2, hname⟩ ha
  refine (kept_rollback h).bind fun s1 hk => ?_
  exact (kept_pushMsg hk.inv (hk.nameless.trans hn) ⟨.init, rfl, rfl⟩).bind fun _ hp =>
    .pure (hk.trans hp)

theorem InOrder.handleError (h : s.InOrder) (reason : ErrorReason) :
    Ensures (s.handleError reason) fun s' => s'.InOrder ∧ s'.engine = s.engine := by
  have hreconnect : Ensures s.reconnect fun s' => s'.InOrder ∧ s'.engine = s.engine := by
    unfold reconnect
    split
    · exact .ok ⟨h, rfl⟩
    · exact .ite (fun _ => (kept_call h fun l => carries_terminate l.out false).bind fun _ hk =>
        .pure ⟨hk.inv, hk.engine⟩) fun _ => .ok ⟨h, rfl⟩
  cases reason with
  | timeoutError | connectionError => exact hreconnect
  | protocolError =>
    exact .ite (fun _ => (kept_terminate h false).mono fun _ hk => ⟨hk.inv, hk.engine⟩)
      fun _ => .ok ⟨h, rfl⟩

theorem InOrder.cleanPipes (h : s.InOrder) : Ensures s.cleanPipes (Kept s) :=
  (kept_rollback h).bind fun _ hk => (kept_flush hk.inv).mono fun _ => hk.trans

/-- The engine is gone, and the pipe holds whole messages only. -/
theorem InOrder.error (h : s.InOrder) {reason : ErrorReason}
    (ha : s.Admissible (.error reason)) :
    Ensures (s.error reason) fun s' => s'.InOrder ∧ Ready s' := by
  refine (kept_notifyError h ha).bind fun s1 hk1 => ?_
  refine (InOrder.cleanPipes (s := { s1 with engine := none }) hk1.inv).bind fun s2 hk2 => ?_
  refine (hk2.inv.handleError reason).bind fun s3 h3 => (kept_checkRead h3.1).mono fun s4 hk4 => ?_
  refine ⟨hk4.inv, fun hready => ?_⟩
  -- the engine is gone
  rw [hk4.engine, h3.2, hk2.engine] at hready
  cases hready

theorem kept_processTerm (h : s.InOrder) (linger : Int) :
    Ensures (s.processTerm linger) (Kept s) := by
  refine .ite (fun _ => .ok ⟨h, rfl, rfl, fun _ => rfl⟩) fun _ => ?_
  refine (kept_terminate (s := { s with pending := true }) h _).bind fun s1 hk => ?_
  have hk : Kept s s1 := ⟨hk.inv, hk.pipe, hk.engine, hk.identity⟩
  exact .ite (fun _ => (kept_checkRead hk.inv).mono fun _ => hk.trans) fun _ => .pure hk

theorem proceed_eq (s : Session) :
    ∃ pending terminating, s.proceed = { s with pending, terminating } := by
  unfold proceed
  split
  · exact ⟨_, _, rfl⟩
  · exact ⟨_, _, rfl⟩

theorem InOrder.pipeTerminated (h : s.InOrder) (hr : Ready s) (p : PipeId) :
    (s.pipeTerminated p).InOrder ∧ Ready (s.pipeTerminated p) := by
  unfold Session.pipeTerminated
  split
  · obtain ⟨pending, terminating, heq⟩ := proceed_eq { s with pipe := none }
    rw [heq]
    exact ⟨h, fun _ => rfl⟩
  obtain ⟨pending, terminating, heq⟩ :=
    proceed_eq { s with terminatingPipes := s.terminatingPipes.erase p }
  rw [heq]
  exact ⟨h, hr⟩

/-! ### The socket -/

theorem newLink_ok (s : Session) : s.newLink.Ok {} where
  out := by
    obtain ⟨queue, hw, hflushed, hpending, hinc⟩ :=
      outgoing_opened [] [] s.sndhwm s.rcvhwm
    have hempty : queue.complete = [] := by
      rw [FlushQueue.complete, hflushed, hpending]
      rfl
    exact ⟨queue, hw, ⟨hinc, ⟨0, hempty⟩, fun _ => hempty⟩, fun _ _ => .inl hflushed.symm⟩
  names id h := by cases h

theorem fresh_iff (h : s.fresh p = true) :
    s.links p = none ∧ p ∉ s.router.queue.fq.pipes.items ∧ p ∉ s.router.anonymousPipes := by
  simp only [fresh, attached, Bool.and_eq_true, Option.isNone_iff_eq_none,
    Bool.not_eq_true', Bool.or_eq_false_iff, decide_eq_false_iff_not] at h
  exact h

theorem InOrder.newPipe (h : s.InOrder) (hp : s.fresh p = true) : (s.newPipe p).InOrder := by
  obtain ⟨-, hitems, hanon⟩ := fresh_iff hp
  refine h.setLink (fun q hq => spares_modify _ hq _) ⟨?_, fun _ => hitems, fun _ => rfl,
    fun _ => ⟨rfl, hanon⟩⟩
  have hpipe : (s.router.queue.modify p fun _ => {}).pipes p = {} := update_self _ _ _
  exact hpipe ▸ s.newLink_ok

theorem InOrder.engineReady (h : s.InOrder) (hp : s.fresh p = true) :
    (s.engineReady p).InOrder := by
  unfold Session.engineReady
  split
  · exact h.newPipe hp
  · exact h

/-- What comes of looking for the identity of the peer. -/
theorem identifyPeer_own {s s' : Router} {r : Bool}
    (h : s.identifyPeer p locallyInitiated = .ok (r, s')) (hc : s.table.connectRoutingId = [])
    (hr : s.rawSocket = false) (hu : l.Unread (s.queue.pipes p)) :
    (r = false ∧ s'.queue.fq = s.queue.fq ∧
      Link.Ok (s'.queue.pipes p) { l with bound := true, entered := none }) ∨
    (r = true ∧ ∀ i,
      Link.Ok i { l with bound := true, entered := some (s'.table.routingId p) }) := by
  rcases identifyPeer_reads hc hr h with ⟨rfl, rfl⟩ | ⟨rfl, m, hm, hne, hnil⟩
  · have hpipe : (s.queue.modify p (·.read.2)).pipes p = (s.queue.pipes p).read.2 :=
      update_self _ _ _
    exact .inl ⟨rfl, rfl, hpipe ▸ hu.anonymous⟩
  refine .inr ⟨rfl, fun i => ?_⟩
  cases hread : (s.queue.pipes p).read with
  | mk m' i' =>
    rw [hread] at hm
    obtain rfl : m' = some m := hm
    exact hu.enter hread hne hnil i

theorem InOrder.setRouter (h : s.InOrder) (hs : ∀ q, q ≠ p → Spares q s.router router)
    (hent : p ∉ router.anonymousPipes →
      ∀ i, Link.Ok i { l with bound := true, entered := some (router.table.routingId p) })
    (hanon : p ∈ router.anonymousPipes → p ∉ router.queue.fq.pipes.items ∧
      Link.Ok (router.queue.pipes p) { l with bound := true, entered := none }) :
    (s.setRouter p l router).InOrder := by
  refine h.setLink hs ?_
  by_cases hp : p ∈ router.anonymousPipes
  · obtain ⟨hitems, hok⟩ := hanon hp
    rw [if_pos hp]
    exact ⟨hok, fun _ => hitems, fun _ => rfl, nofun⟩
  · rw [if_neg hp]
    exact ⟨hent hp _, nofun, fun hmem => absurd hmem hp, nofun⟩

/-- The socket looks for the identity as soon as it has the pipe. -/
theorem InOrder.attach (h : s.InOrder) (hl : s.links p = some l) (hb : l.bound = false) :
    Ensures (s.attach p l locallyInitiated) InOrder := by
  refine .seq fun router hx => .pure ?_
  have hj := h.link p l hl
  obtain ⟨he, hout⟩ := hj.unbound hb
  have hu := hj.ok.unread he (.inl hb)
  have hspare : ∀ q, q ≠ p → Spares q s.router router :=
    fun q hq => spares_xattachPipe hq _ hx
  unfold xattachPipe at hx
  split at hx
  · cases hx
  · rename_i s1 hid
    cases hx
    rcases identifyPeer_own hid h.connectId h.raw hu with ⟨hfalse, -⟩ | ⟨-, hok⟩
    · cases hfalse
    · exact h.setRouter hspare (fun _ => hok) fun hmem =>
        absurd ((identifyPeer_anonymous p hid).mp hmem) hout
  · rename_i s1 hid
    cases hx
    rcases identifyPeer_own hid h.connectId h.raw hu with ⟨-, hfq, hok⟩ | ⟨htrue, -⟩
    · exact h.setRouter hspare (fun hno => absurd (Finset.mem_insert_self _ _) hno) fun _ =>
        ⟨hfq ▸ hj.apart he, hok⟩
    · cases htrue

theorem setLink_self (hl : s.links p = some l) : (s.setLink p l).links = s.links := by
  rw [setLink, ← hl]
  exact update_eq_self _ _

/-- An anonymous pipe wakes up, and the socket looks for the identity again. -/
theorem InOrder.activateRead (h : s.InOrder) (hl : s.links p = some l)
    (hatt : s.router.attached p = true) : Ensures (s.activateRead p l) InOrder := by
  refine .seq fun router hx => ?_
  have hj := h.link p l hl
  have hspare : ∀ q, q ≠ p → Router.Spares q s.router router :=
    fun q hq => Router.spares_activateRead hq _ hx
  refine .ite (fun hanon => .pure ?_) fun hanon => .pure ?_
  · have he := hj.anonymous hanon
    unfold Router.activateRead at hx
    rw [if_pos hanon] at hx
    split at hx
    · -- the pipe wakes up, and the socket looks for the identity
      rename_i hasleep
      simp only [Bool.and_eq_true, Bool.not_eq_true'] at hasleep
      have hu : l.Unread
          ((s.router.queue.modify p fun i => { i with inActive := true }).pipes p) := by
        have hpipe : (s.router.queue.modify p fun i => { i with inActive := true }).pipes p =
          { s.router.queue.pipes p with inActive := true } := update_self _ _ _
        obtain ⟨queue, hw, hn, hp⟩ := hj.ok.unread he (.inr hasleep.1)
        exact ⟨queue, hw, hn, by rw [hpipe]; exact hp⟩
      unfold Router.identifyActivated at hx
      split at hx
      · cases hx
      · rename_i s1 hid
        cases hx
        rcases identifyPeer_own hid h.connectId h.raw hu with ⟨hfalse, -⟩ | ⟨-, hok⟩
        · cases hfalse
        · exact h.setRouter hspare (fun _ => hok) fun hmem => absurd hmem (Finset.notMem_erase _ _)
      · rename_i s1 hid
        cases hx
        rcases identifyPeer_own hid h.connectId h.raw hu with ⟨-, hfq, hok⟩ | ⟨htrue, -⟩
        · refine h.setRouter hspare (fun hno => absurd ?_ hno) fun _ => ⟨hfq ▸ hj.apart he, hok⟩
          exact (Router.identifyPeer_anonymous p hid).mpr hanon
        · cases htrue
    · cases hx
      refine h.setRouter hspare (fun hno => absurd hanon hno) fun _ => ⟨hj.apart he, ?_⟩
      obtain ⟨queue, hw, hn, hp⟩ := hj.ok.out
      exact ⟨⟨queue, hw, hn, fun _ hr => (hp he hr).imp_right fun hb => ⟨rfl, hb.2⟩⟩,
        nofun⟩
  · -- a pipe of the fair queue has been entered
    have hent : l.entered ≠ none := by
      intro he
      simp only [Router.attached, Bool.or_eq_true, decide_eq_true_eq] at hatt
      exact hatt.elim (hj.apart he) hanon
    unfold Router.activateRead at hx
    rw [if_neg hanon] at hx
    cases hx
    have hinv := h.setLink (l := l) hspare ⟨hj.ok.inlet (fun he => absurd he hent)
      (fun he => absurd he hent) (fun he => absurd he hent), fun he => absurd he hent,
      fun hmem => absurd hmem hanon, hj.unbound⟩
    rw [setLink_self hl] at hinv
    exact hinv

theorem InOrder.xpipeTerminated (h : s.InOrder) (p : PipeId) :
    Inv (s.router.xpipeTerminated p) s.links := by
  have hspare : ∀ q, q ≠ p → Router.Spares q s.router (s.router.xpipeTerminated p) :=
    fun q hq => Router.spares_xpipeTerminated s.router hq
  cases hl : s.links p with
  | none =>
    have hother := hspare (p + 1) (Nat.succ_ne_self p)
    refine h.spares (hother.connectId h.connectId) (hother.raw.trans h.raw) fun q hq => ?_
    refine hspare q ?_
    rintro rfl
    exact hq hl
  | some l =>
    have hj := h.link p l hl
    have hnew : Joined (s.router.xpipeTerminated p) p l := by
      unfold Router.xpipeTerminated
      split
      · exact ⟨hj.ok, hj.apart, fun hmem => absurd hmem (Finset.notMem_erase _ _),
          fun hb => ⟨(hj.unbound hb).1, Finset.notMem_erase _ _⟩⟩
      · refine ⟨hj.ok, fun he => ?_, hj.anonymous, hj.unbound⟩
        exact (FairQueue.misses_pipeTerminated p (hj.apart he)).1
    have hinv := h.setLink hspare hnew
    rw [setLink_self hl] at hinv
    exact hinv

theorem elsewhere_avoids {a : RouterAction} (ha : s.elsewhere a = true) (hp : s.links p ≠ none) :
    Avoids p a := by
  have hne : ∀ q, (s.links q).isNone = true → p ≠ q := by
    intro q hq heq
    exact hp (heq ▸ Option.isNone_iff_eq_none.mp hq)
  cases a <;> first | exact hne _ ha | trivial

theorem exists_avoids {a : RouterAction} (ha : s.elsewhere a = true) : ∃ p, Avoids p a := by
  cases a <;> first | exact ⟨_, Nat.succ_ne_self _⟩ | exact ⟨0, trivial⟩ | cases ha

theorem InOrder.other (h : s.InOrder) {a : RouterAction} (ha : s.elsewhere a = true) :
    Ensures (Router.step ⟨s.router, ∅⟩ a) fun r => Inv r.socket s.links := by
  intro r hs
  obtain ⟨q, hq⟩ := exists_avoids ha
  have hother := Router.spares_step hq _ hs
  exact h.spares (hother.connectId h.connectId) (hother.raw.trans h.raw) fun p hp =>
    Router.spares_step (elsewhere_avoids ha hp) _ hs

/-! ### Runs -/

theorem nameless_setLink (l' : Link) (hl : s.links p = some l) (hid : l'.identity = l.identity) :
    (s.setLink p l').nameless = s.nameless := by
  rw [nameless_eq, nameless_eq]
  congr 1
  funext q
  by_cases hq : q = p
  · rw [hq, links_setLink, hl, Option.map_some, Option.map_some, hid]
  · rw [links_setLink_of_ne s l' hq]

theorem Ready.setRouter (hr : Ready s) (hl : s.links p = some l) (router : Router) :
    Ready (s.setRouter p l router) := by
  intro he
  have hname := nameless_setLink { l with
    bound := true
    entered := if p ∈ router.anonymousPipes then none else some (router.table.routingId p) } hl rfl
  exact hname.trans (hr he)

theorem Ready.attach (hr : Ready s) (hl : s.links p = some l) :
    Ensures (s.attach p l locallyInitiated) Ready :=
  .seq fun router _ => .pure (hr.setRouter hl router)

theorem Ready.activateRead (hr : Ready s) (hl : s.links p = some l) :
    Ensures (s.activateRead p l) Ready :=
  .seq fun router _ => .ite (fun _ => .pure (hr.setRouter hl router)) fun _ => .pure hr

theorem InOrder.connect (h : s.InOrder) (he : s.engine = none) (hp : s.fresh p = true) :
    Ensures (s.connect p) fun s' => s'.InOrder ∧ Ready s' := by
  have hready : ∀ {t : Session}, t.engine = none → Ready t := by
    intro t ht hr
    rw [ht] at hr
    cases hr
  refine .ite (fun _ => .ok ⟨h, hready he⟩) fun _ t ht => ?_
  have hnew := InOrder.newPipe (s := { s with connected := true }) h hp
  have hlink := links_setLink { s with connected := true } p s.newLink
  have hnone : Ready ({ s with connected := true }.newPipe p) := hready he
  exact ⟨hnew.attach hlink rfl t ht, hnone.attach hlink t ht⟩

/-- Every admissible step keeps the order. -/
theorem InOrder.step (h : s.InOrder) (hr : Ready s) {a : SessionAction} (ha : s.Admissible a) :
    Ensures (s.step a) fun s' => s'.InOrder ∧ Ready s' := by
  have hsame : Ensures (.ok s : Except Fault Session) fun s' => s'.InOrder ∧ Ready s' :=
    .ok ⟨h, hr⟩
  have hkept : ∀ {t : Session}, Kept s t → t.InOrder ∧ Ready t :=
    fun hk => ⟨hk.inv, hk.ready hr⟩
  cases a with
  | connect p => exact .ite (fun hc => h.connect hc.2.1 hc.2.2) fun _ => hsame
  | processAttach => exact .ite (fun _ => .ok ⟨h, nofun⟩) fun _ => hsame
  | greeting => exact .ite (fun _ => .ok ⟨h, nofun⟩) fun _ => hsame
  | ready id p => exact .ite (fun hc => (h.engineReady hc.2).mechanismReady) fun _ => hsame
  | readyAgain p =>
    rw [Session.step]
    split
    · exact .ite (fun hfresh => (h.engineReady hfresh).mechanismReady) fun _ => hsame
    · exact hsame
  | push msg =>
    exact .ite (fun he => .map fun x hx => hkept (kept_pushMsg h (hr he) msg x hx)) fun _ => hsame
  | flush => exact (kept_flush h).mono fun _ => hkept
  | error reason => exact .ite (fun _ => hsame) fun _ => h.error ha
  | processTerm linger => exact (kept_processTerm h linger).mono fun _ => hkept
  | timer => exact (kept_terminate h false).mono fun _ => hkept
  | use p u => exact (kept_call h fun l => carries_use u l.out).mono fun _ => hkept
  | processPipeTermAck p =>
    refine .map fun t ht => ?_
    have hk := kept_call h (fun l => carries_processPipeTermAck l.out) t ht
    exact hk.inv.pipeTerminated (hk.ready hr) p
  | bind p =>
    rw [Session.step]
    split
    · exact hsame
    · rename_i l hl
      refine .ite (fun _ => hsame) fun hb t ht => ?_
      exact ⟨h.attach hl (by simpa using hb) t ht, hr.attach hl t ht⟩
  | activateRead p =>
    rw [Session.step]
    split
    · exact hsame
    · rename_i l hl
      refine .ite (fun hatt t ht => ?_) fun _ => hsame
      exact ⟨h.activateRead hl hatt t ht, hr.activateRead hl t ht⟩
  | pipeTerm p =>
    exact .ok ⟨h.spares h.connectId h.raw fun _ _ => spares_processPipeTerm _ p, hr⟩
  | terminate p delay =>
    exact .ok ⟨h.spares h.connectId h.raw fun _ _ => spares_terminate _ p delay, hr⟩
  | xpipeTerminated p => exact .ite (fun _ => .ok ⟨h.xpipeTerminated p, hr⟩) fun _ => hsame
  | other a =>
    exact .ite (fun hel => .map fun r hstep => ⟨h.other hel r hstep, hr⟩) fun _ => hsame

/-- In every run of admissible steps, each pipe of the endpoint is entered in the routing table
under the identity of the peer, and under an automatic id only if that identity is empty. -/
theorem names_of_run (id : BitVec 32) (notifyConnect notifyDisconnect immediate : Bool)
    (sndhwm rcvhwm : Int) {as : List SessionAction}
    (ha : CheckedRun.Along step Admissible
      (new id notifyConnect notifyDisconnect immediate sndhwm rcvhwm) as)
    (hs : run step (new id notifyConnect notifyDisconnect immediate sndhwm rcvhwm) as =
      .ok s) (hl : s.links p = some l) {name : Blob} (he : l.entered = some name) :
    Names l.identity name := by
  have hinv := run_inv_along (I := fun s => s.InOrder ∧ Ready s)
    (fun _ _ _ hI ha => InOrder.step hI.1 hI.2 ha _) ⟨inv_new id, fun he => (by cases he)⟩ ha hs
  exact (hinv.1.link p l hl).ok.names name he

/-- A connection fails before the greeting, the next one is lost after READY, and the socket looks
at the pipe only then. -/
def secondAttempt : List SessionAction :=
  [.connect 0, .processAttach, .error .connectionError, .processAttach, .greeting, .ready [7] 1,
    .error .connectionError, .activateRead 0]

theorem names_of_run_secondAttempt :
    ∃ s l, run step (new 5 true true false 1000 1000) secondAttempt = .ok s ∧
      s.links 0 = some l ∧ l.entered = some [7] ∧ Names l.identity [7] := by
  have hreach : reaches step (new 5 true true false 1000 1000) secondAttempt
      (fun s => (s.links 0).any fun l => decide (l.entered = some [7])) = true := by
    decide +kernel
  obtain ⟨s, hs, htest⟩ := of_reaches hreach
  obtain ⟨l, hl, hent⟩ := (Option.any_eq_true _ _).mp htest
  have hent := of_decide_eq_true hent
  exact ⟨s, l, hs, hl, hent,
    names_of_run 5 true true false 1000 1000 (by decide +kernel) hs hl hent⟩

/-- The first connection fails after the greeting: the socket takes the disconnect notification for
the identity, and the peer gets an automatic id, although the READY of the next connection carries
an identity. -/
theorem unnamed_after_greeting :
    ∃ s l, run step (new 5 false true false 1000 1000)
        [.connect 0, .processAttach, .greeting, .error .connectionError, .processAttach, .greeting,
          .ready [7] 1, .activateRead 0] = .ok s ∧
      s.links 0 = some l ∧ l.entered = some [0, 0, 0, 0, 5] ∧ l.identity = some [7] := by
  have hreach : reaches step (new 5 false true false 1000 1000)
      [.connect 0, .processAttach, .greeting, .error .connectionError, .processAttach, .greeting,
        .ready [7] 1, .activateRead 0]
      (fun s => (s.links 0).any fun l =>
        decide (l.entered = some [0, 0, 0, 0, 5] ∧ l.identity = some [7])) = true := by
    decide +kernel
  obtain ⟨s, hs, htest⟩ := of_reaches hreach
  obtain ⟨l, hl, hent⟩ := (Option.any_eq_true _ _).mp htest
  exact ⟨s, l, hs, hl, of_decide_eq_true hent⟩

end Session

end ServerLink

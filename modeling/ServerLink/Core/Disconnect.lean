import ServerLink.Core.RouterRecv
import ServerLink.Core.XSubRecv

/-!
# ServerLink.Core.Disconnect

The user of a SUB, XSUB or ROUTER socket disconnects an endpoint (`term_endpoint`, which
terminates the pipe without delay) and goes on receiving.

If no message of the pipe is half received at that moment, no assertion fails afterwards,
no pipe is used that has been destroyed, and what is received next begins a message or
continues one of another pipe. The partly received message is remembered in the fair
queue, in the more flag of the socket and in its prefetch buffers; none of them is reset
when the pipe is closed.
-/

namespace ServerLink

open FairQueue Inlet CheckedRun Router Finset

/-- A socket, and the pipes its user has disconnected since the last frame was received. -/
structure Dropping (σ : Type) where
  socket : σ
  dropped : Finset PipeId

/-- The pipes in the set are not read from any more. -/
def FairQueue.Closed (b : FairQueue) (dropped : Finset PipeId) : Prop :=
  ∀ p ∈ dropped, (b.pipes p).reading = false

@[simp] theorem FairQueue.closed_empty (b : FairQueue) : b.Closed ∅ := by
  simp [FairQueue.Closed]

variable {b b' : FairQueue} {dropped : Finset PipeId}

theorem FairQueue.Closed.mono (h : b.Closed dropped)
    (hr : ∀ q, (b'.pipes q).reading = true → (b.pipes q).reading = true) : b'.Closed dropped := by
  intro p hp
  cases hread : (b'.pipes p).reading with
  | false => rfl
  | true =>
    have hopen := hr p hread
    rw [h p hp] at hopen
    cases hopen

theorem FairQueue.Closed.modify (h : b.Closed dropped)
    (q : PipeId) (f : Inlet → Inlet)
    (hf : (f (b.pipes q)).reading = true → (b.pipes q).reading = true) :
    (b.modify q f).Closed dropped :=
  h.mono (modify_reading q f hf)

theorem FairQueue.Closed.disconnect
    (h : b.Closed dropped) (q : PipeId) :
    (b.modify q (·.terminate false)).Closed (insert q dropped) := by
  intro p hp
  rcases mem_insert.mp hp with rfl | hp
  · simp [FairQueue.modify, terminate_reading]
  · exact h.modify q (·.terminate false) terminate_reading_of p hp

/-- A new pipe is not one of those that were disconnected. -/
theorem FairQueue.Closed.update (h : b.Closed dropped)
    (fq : Fq) (q : PipeId) (i : Inlet) :
    FairQueue.Closed ⟨fq, Function.update b.pipes q i⟩ (dropped.erase q) := by
  intro p hp
  have hne := ne_of_mem_erase hp
  simp only [Function.update_of_ne hne]
  exact h p (mem_of_mem_erase hp)

/-! ### SUB and XSUB -/

/-- What can happen to the receiving side of a SUB or XSUB socket. The subscriptions may be
others in every call, so `match` is part of the call. -/
inductive SubRecvAction
  | attach (pipe : PipeId) (held : List MultipartMsg)
  | event (pipe : PipeId) (e : InletEvent)
  | activateRead (pipe : PipeId)
  | disconnect (pipe : PipeId)
  | pipeTerminated (pipe : PipeId)
  | xrecv (accepts : Msg → Bool)
  | xhasIn (accepts : Msg → Bool)

namespace XSubRecv

/-- The queue of the socket changes. -/
def setQueue (s : Dropping XSubRecv) (queue : FairQueue) : Dropping XSubRecv :=
  { s with socket := { s.socket with queue } }

/-- A pipe is destroyed only in the states that `pipe_t::process_pipe_term_ack` allows. -/
def step (s : Dropping XSubRecv) : SubRecvAction → Except Fault (Dropping XSubRecv)
  | .attach pipe held =>
    if pipe ∈ s.socket.queue.fq.pipes.items then .ok s
    else
      let held := held.flatMap MultipartMsg.parts
      .ok { setQueue s (s.socket.queue.attach pipe { parts := held }) with
        dropped := s.dropped.erase pipe }
  | .event pipe e => .ok (setQueue s (s.socket.queue.modify pipe (e.apply ·)))
  | .activateRead pipe =>
    if pipe ∈ s.socket.queue.fq.pipes.items then
      .ok (setQueue s (s.socket.queue.activateRead pipe))
    else .ok s
  | .disconnect pipe =>
    .ok { setQueue s (s.socket.queue.modify pipe (·.terminate false)) with
      dropped := insert pipe s.dropped }
  | .pipeTerminated pipe =>
    if pipe ∈ s.socket.queue.fq.pipes.items ∧ (s.socket.queue.pipes pipe).ending then
      .ok (setQueue s (s.socket.queue.pipeTerminated pipe))
    else .ok s
  | .xrecv accepts =>
    match s.socket.xrecv accepts with
    | .error e => .error e
    | .ok (none, socket) => .ok { s with socket }
    | .ok (some _, socket) => .ok ⟨socket, ∅⟩
  | .xhasIn accepts => (s.socket.xhasIn accepts).map fun r => { s with socket := r.2 }

/-- No message of a pipe that is disconnected is half received, and the reader does not lose
its place. -/
def Admissible (s : Dropping XSubRecv) : SubRecvAction → Prop
  | .disconnect pipe => ¬ (s.socket.queue.fq.more = true ∧ s.socket.queue.fq.IsCurrent pipe)
  | .pipeTerminated pipe =>
    s.socket.queue.fq.more = true → pipe ∈ s.socket.queue.fq.pipes.items →
      ¬ s.socket.queue.fq.Redirects pipe
  | _ => True

instance (s : Dropping XSubRecv) (a : SubRecvAction) : Decidable (Admissible s a) := by
  unfold Admissible
  split <;> infer_instance

/-- Receiving does not fault, and what is received begins a message unless one is half
received, and does not continue one of a pipe that was disconnected. -/
def Receives (s : Dropping XSubRecv) : Prop :=
  ∀ accepts, ∃ r s', s.socket.xrecv accepts = .ok (r, s') ∧ ∀ frame, r = some frame →
      (frame.first = !s.socket.moreRecv) ∧ (frame.first = false → frame.pipe ∉ s.dropped)

structure Inv (s : Dropping XSubRecv) : Prop where
  tidy : s.socket.queue.Tidy
  /-- The more flag of the socket is that of the fair queue, as far as the message in
  `message` has not been handed out. -/
  delivered : s.socket.message = none → s.socket.moreRecv = s.socket.queue.fq.more
  fetched : ∀ frame, s.socket.message = some frame →
    s.socket.moreRecv = false ∧ frame.first = true ∧ frame.msg.more = s.socket.queue.fq.more
  closed : s.socket.queue.Closed s.dropped

theorem inv_new (filter : Bool) : Inv ⟨new filter, ∅⟩ where
  tidy := ⟨empty_steady, empty_clean⟩
  delivered _ := rfl
  fetched frame h := by cases h
  closed p hp := by simp at hp

variable {s : Dropping XSubRecv} {pipe : PipeId}

theorem Inv.setQueue (hI : Inv s) {queue : FairQueue}
    (ht : queue.Tidy) (hm : queue.fq.more = s.socket.queue.fq.more)
    (hc : queue.Closed dropped) : Inv ⟨{ s.socket with queue }, dropped⟩ where
  tidy := ht
  delivered h := (hI.delivered h).trans hm.symm
  fetched frame h := by
    obtain ⟨hr, hf, hmore⟩ := hI.fetched frame h
    exact ⟨hr, hf, hmore.trans hm.symm⟩
  closed := hc

theorem Inv.xrecv (hI : Inv s) (accepts : Msg → Bool) :
    (∃ frame s', s.socket.xrecv accepts = .ok (some frame, s') ∧ Inv ⟨s', ∅⟩ ∧
      (frame.first = !s.socket.moreRecv) ∧ (frame.first = false → frame.pipe ∉ s.dropped)) ∨
    (∃ s', s.socket.xrecv accepts = .ok (none, s') ∧ Inv { s with socket := s' }) := by
  cases hmsg : s.socket.message with
  | some frame =>
    obtain ⟨hr, hfirst, hmore⟩ := hI.fetched frame hmsg
    refine .inl ⟨frame, _, xrecv_of_message hmsg accepts,
      ⟨hI.tidy, fun _ => hmore, nofun, by simp⟩, ?_⟩
    rw [hr, hfirst]
    exact ⟨rfl, nofun⟩
  | none =>
    have hdel := hI.delivered hmsg
    have haccept : s.socket.queue.fq.more = true →
        ∀ m, (s.socket.moreRecv || !s.socket.filter || accepts m) = true := by
      intro hmore m
      simp [hdel.trans hmore]
    have hnone : ∀ frame, s.socket.message ≠ some frame := by simp [hmsg]
    rw [xrecv_of_none hmsg]
    rcases hI.tidy.fetch (s.socket.queue.held + 1) (Nat.lt_succ_self _) haccept with
      ⟨frame, queue, heq, ht, ha, hfirst, hmore, hread⟩ | ⟨queue, heq, ht, ha, hno, hno'⟩
    · rw [heq]
      refine .inl ⟨frame, _, rfl, ⟨ht, fun _ => hmore.symm, fun fr h => absurd h (hnone fr),
        by simp⟩, by rw [hfirst, hdel], fun _ hmem => ?_⟩
      rw [hI.closed _ hmem] at hread
      cases hread
    · rw [heq]
      exact .inr ⟨_, rfl, ht, fun _ => (hdel.trans hno).trans hno'.symm,
        fun fr h => absurd h (hnone fr), hI.closed.mono ha.reading⟩

theorem Inv.xhasIn (hI : Inv s) (accepts : Msg → Bool) :
    ∃ r s', s.socket.xhasIn accepts = .ok (r, s') ∧ Inv { s with socket := s' } := by
  unfold XSubRecv.xhasIn
  split
  · exact ⟨true, s.socket, rfl, hI⟩
  rename_i hcond
  simp only [Bool.or_eq_true, not_or, Bool.not_eq_true, Option.isSome_eq_false_iff,
    Option.isNone_iff_eq_none] at hcond
  obtain ⟨hmr, hmsg⟩ := hcond
  have hno := (hI.delivered hmsg).symm.trans hmr
  have haccept : s.socket.queue.fq.more = true → ∀ m, (!s.socket.filter || accepts m) = true := by
    rw [hno]
    intro h
    cases h
  rcases hI.tidy.fetch (s.socket.queue.held + 1) (Nat.lt_succ_self _) haccept with
    ⟨frame, queue, heq, ht, ha, hfirst, hmore, -⟩ | ⟨queue, heq, ht, ha, -, hno'⟩
  · rw [heq]
    refine ⟨true, _, rfl, ht, nofun, fun fr h => ?_, hI.closed.mono ha.reading⟩
    cases h
    exact ⟨hmr, by rw [hfirst, hno]; rfl, hmore.symm⟩
  rw [heq]
  refine ⟨false, _, rfl, ht, fun _ => hmr.trans hno'.symm, fun fr h => ?_,
    hI.closed.mono ha.reading⟩
  rw [show s.socket.message = some fr from h] at hmsg
  cases hmsg

/-- Every admissible step keeps the invariant and does not fault. -/
theorem Inv.step (hI : Inv s) {a : SubRecvAction} (hC : Admissible s a) :
    ∃ s', step s a = .ok s' ∧ Inv s' := by
  have hs := hI.tidy.steady
  have hclean := hI.tidy.clean
  cases a with
  | attach pipe held =>
    simp only [XSubRecv.step]
    split
    · exact ⟨s, rfl, hI⟩
    · rename_i hmem
      refine ⟨_, rfl, hI.setQueue ⟨hs.attach hmem rfl (framed_flatMap held),
        hclean.attach hs hmem rfl⟩ rfl (hI.closed.update _ _ _)⟩
  | event pipe e =>
    have hread : (e.apply (s.socket.queue.pipes pipe)).reading = true →
        (s.socket.queue.pipes pipe).reading = true := fun h =>
      (apply_reading _ e).symm.trans h
    refine ⟨_, rfl, hI.setQueue ⟨?_, hclean.modify (apply_midway _ e) hread⟩ rfl
      (hI.closed.modify pipe (e.apply ·) hread)⟩
    exact hs.modify (apply_inActive _ e) ((hs.ok.framed pipe).apply e)
      (apply_midway _ e) fun hp => (apply_reading _ e).trans hp.reading
  | activateRead pipe =>
    simp only [XSubRecv.step]
    split
    · rename_i hmem
      refine ⟨_, rfl, hI.setQueue ⟨hs.activateRead hmem, hclean.activateRead hs hmem⟩
        (activateRead_more _ pipe)
        (hI.closed.mono (activateRead_reading pipe))⟩
    · exact ⟨s, rfl, hI⟩
  | disconnect pipe =>
    obtain ⟨state, heq⟩ := (s.socket.queue.pipes pipe).terminate_eq false
    refine ⟨_, rfl, hI.setQueue ⟨?_, ?_⟩ rfl (hI.closed.disconnect pipe)⟩
    · exact hs.modify (by rw [heq]) ((hs.ok.framed pipe).terminate false) (by rw [heq])
        fun hp => absurd ⟨hp.more, hp.current⟩ hC
    · exact hclean.modify (by rw [heq]) terminate_reading_of
  | pipeTerminated pipe =>
    simp only [XSubRecv.step]
    split
    · rename_i hcond
      have hend := ending_reading hcond.2
      refine ⟨_, rfl, hI.setQueue ⟨hs.pipeTerminated hcond.1 hend fun hm => hC hm hcond.1,
        hclean.pipeTerminated hs hcond.1 fun hm => hC hm hcond.1⟩
        (pipeTerminated_more _ pipe) hI.closed⟩
    · exact ⟨s, rfl, hI⟩
  | xrecv accepts =>
    rcases hI.xrecv accepts with ⟨frame, s', heq, hI', -⟩ | ⟨s', heq, hI'⟩
    · exact ⟨⟨s', ∅⟩, by simp only [XSubRecv.step, heq], hI'⟩
    · exact ⟨{ s with socket := s' }, by simp only [XSubRecv.step, heq], hI'⟩
  | xhasIn accepts =>
    obtain ⟨r, s', heq, hI'⟩ := hI.xhasIn accepts
    exact ⟨{ s with socket := s' }, by simp only [XSubRecv.step, heq, Except.map], hI'⟩

theorem Inv.receives (hI : Inv s) : Receives s := by
  intro accepts
  rcases hI.xrecv accepts with ⟨frame, s', heq, -, hfirst, hdrop⟩ | ⟨s', heq, -⟩
  · refine ⟨_, s', heq, fun fr hfr => ?_⟩
    cases hfr
    exact ⟨hfirst, hdrop⟩
  · exact ⟨none, s', heq, nofun⟩

end XSubRecv

/-! ### ROUTER -/

/-- What can happen to a ROUTER, apart from sending. -/
inductive RouterAction
  | attach (pipe : PipeId) (held : List MultipartMsg) (locallyInitiated : Bool)
  | event (pipe : PipeId) (e : InletEvent)
  | activateRead (pipe : PipeId)
  | disconnect (pipe : PipeId)
  | pipeTerminated (pipe : PipeId)
  | setConnectRoutingId (id : Blob)
  | setHandover (value : Bool)
  | setRaw
  | xrecv
  | xhasIn

namespace Router

/-- A new pipe is attached once, pipes that are not attached are not heard of, and a pipe is
destroyed only in the states that `pipe_t::process_pipe_term_ack` allows. -/
def step (s : Dropping Router) : RouterAction → Except Fault (Dropping Router)
  | .attach pipe held locallyInitiated =>
    if s.socket.attached pipe then .ok s
    else
      let held := held.flatMap MultipartMsg.parts
      let queue := s.socket.queue.modify pipe fun _ => { parts := held }
      ({ s.socket with queue }.xattachPipe pipe locallyInitiated).map
        fun socket => ⟨socket, s.dropped.erase pipe⟩
  | .event pipe e =>
    .ok { s with socket :=
      { s.socket with queue := s.socket.queue.modify pipe (e.apply ·) } }
  | .activateRead pipe =>
    if s.socket.attached pipe then
      (s.socket.activateRead pipe).map fun socket => { s with socket }
    else .ok s
  | .disconnect pipe =>
    .ok ⟨{ s.socket with queue := s.socket.queue.modify pipe (·.terminate false) },
      insert pipe s.dropped⟩
  | .pipeTerminated pipe =>
    if s.socket.attached pipe ∧ (s.socket.queue.pipes pipe).ending then
      .ok { s with socket := s.socket.xpipeTerminated pipe }
    else .ok s
  | .setConnectRoutingId id =>
    .ok { s with socket :=
      { s.socket with table := { s.socket.table with connectRoutingId := id } } }
  | .setHandover value => .ok { s with socket := { s.socket with handover := value } }
  | .setRaw => .ok { s with socket := { s.socket with rawSocket := true } }
  | .xrecv =>
    match s.socket.xrecv with
    | .error e => .error e
    | .ok (none, socket) => .ok { s with socket }
    | .ok (some _, socket) => .ok ⟨socket, ∅⟩
  | .xhasIn => s.socket.xhasIn.map fun r => { s with socket := r.2 }

/-- No message of a pipe that is disconnected is half received, the reader does not lose its
place, and no pipe is destroyed that is to be terminated at the end of a message. -/
def Admissible (s : Dropping Router) : RouterAction → Prop
  | .disconnect pipe =>
    ¬ (s.socket.queue.fq.more = true ∧ s.socket.queue.fq.IsCurrent pipe) ∧
      ¬ (s.socket.prefetched = true ∧ s.socket.routingIdSent = true ∧
        s.socket.currentIn = some pipe)
  | .pipeTerminated pipe =>
    (s.socket.queue.fq.more = true → pipe ∈ s.socket.queue.fq.pipes.items →
        ¬ s.socket.queue.fq.Redirects pipe) ∧
      ¬ (s.socket.terminateCurrentIn = true ∧ s.socket.currentIn = some pipe)
  | _ => True

instance (s : Dropping Router) (a : RouterAction) : Decidable (Admissible s a) := by
  unfold Admissible
  split <;> infer_instance

/-- Receiving does not fault, and what is received begins a message (it is a routing id)
unless one is half received, and does not continue one of a pipe that was disconnected. -/
def Continues (s : Dropping Router) : Prop :=
  ∃ r s', s.socket.xrecv = .ok (r, s') ∧ ∀ frame, r = some frame →
      (frame.first = !s.socket.half) ∧ (frame.first = false → frame.pipe ∉ s.dropped)

structure Inv (s : Dropping Router) : Prop where
  recv : s.socket.Recv
  listed : s.socket.Listed (· ∈ s.socket.queue.fq.pipes.items)
  apart : ∀ p ∈ s.socket.anonymousPipes, p ∉ s.socket.queue.fq.pipes.items
  closed : s.socket.queue.Closed s.dropped
  pending : s.socket.prefetched = true → s.socket.routingIdSent = true →
    ∀ p, s.socket.currentIn = some p → p ∉ s.dropped

theorem inv_new (id : BitVec 32) : Inv ⟨new id, ∅⟩ where
  recv := recv_new id
  listed _ _ h := by cases h
  apart p hp := by simp [new] at hp
  closed p hp := by simp at hp
  pending h := by cases h

variable {s : Dropping Router} {s0 s' : Router} {pipe : PipeId}

/-- The peer at the pipe could not be identified. -/
theorem Inv.anonymous (hI : Inv ⟨s0, dropped⟩) (hi : s0.Identified pipe false s')
    (hp : pipe ∉ s0.queue.fq.pipes.items) {anonymousPipes : Finset PipeId}
    (ha : ∀ p ∈ anonymousPipes, p ∈ s0.anonymousPipes ∨ p = pipe) :
    Inv ⟨{ s' with anonymousPipes }, dropped⟩ where
  recv := hi.recv.setRest _ _ _ _
  listed id o ho := by
    have hl := hi.listed id o ho
    simp only [Bool.false_eq_true, false_and, or_false] at hl
    rw [← hi.keeps.fq] at hl
    exact hl
  apart p hmem := by
    rw [hi.keeps.fq]
    rcases ha p hmem with hmem | rfl
    · exact hI.apart p hmem
    · exact hp
  closed := hI.closed.mono hi.keeps.reading
  pending hpre hsent p hcur := by
    refine hI.pending (hi.keeps.prefetched.symm.trans hpre)
      (hi.keeps.routingIdSent.symm.trans hsent) p ?_
    exact hi.keeps.currentIn.symm.trans hcur

theorem Inv.identified (hI : Inv ⟨s0, dropped⟩) (hi : s0.Identified pipe true s')
    (hp : pipe ∉ s0.queue.fq.pipes.items) {anonymousPipes : Finset PipeId}
    (ha : ∀ p ∈ anonymousPipes, p ∈ s0.anonymousPipes ∧ p ≠ pipe) :
    Inv ⟨fqAttach { s' with anonymousPipes } pipe, dropped⟩ := by
  have hp' : pipe ∉ s'.queue.fq.pipes.items := by
    rw [hi.keeps.fq]
    exact hp
  have hok := hi.recv.ok
  have hpipes : (s'.queue.attach pipe (s'.queue.pipes pipe)).pipes = s'.queue.pipes :=
    Function.update_eq_self _ _
  refine ⟨?_, fun id o ho => ?_, fun p hmem => ?_, ?_, fun hpre hsent p hcur => ?_⟩
  · have hrecv : Recv { s' with queue := s'.queue.attach pipe (s'.queue.pipes pipe) } :=
      hi.recv.setQueue (hok.attach hp' (hi.awake rfl) (hok.framed pipe)) rfl
        (fun p hh _ => hh.attach hok hp' _) fun p hm _ _ => hok.fq.mem_attach.mpr (.inl hm)
    exact hrecv.setRest _ anonymousPipes _ _
  · refine hok.fq.mem_attach.mpr ?_
    rw [hi.keeps.fq]
    exact (hi.listed id o ho).imp_right fun h => h.2
  · obtain ⟨hmem, hne⟩ := ha p hmem
    intro hin
    rcases hok.fq.mem_attach.mp hin with hin | heq
    · rw [hi.keeps.fq] at hin
      exact hI.apart p hmem hin
    · exact hne heq
  · refine hI.closed.mono fun q hq => hi.keeps.reading q ?_
    rw [← hpipes]
    exact hq
  · refine hI.pending (hi.keeps.prefetched.symm.trans hpre)
      (hi.keeps.routingIdSent.symm.trans hsent) p ?_
    exact hi.keeps.currentIn.symm.trans hcur

theorem Inv.setPipes (hI : Inv s) {queue : FairQueue} (hrecv : Recv { s.socket with queue })
    (hmem : ∀ q, q ∈ queue.fq.pipes.items ↔ q ∈ s.socket.queue.fq.pipes.items)
    (hc : queue.Closed dropped)
    (hpend : s.socket.prefetched = true → s.socket.routingIdSent = true →
      ∀ p, s.socket.currentIn = some p → p ∉ dropped) :
    Inv ⟨{ s.socket with queue }, dropped⟩ where
  recv := hrecv
  listed id o ho := (hmem _).mpr (hI.listed id o ho)
  apart p hp hin := hI.apart p hp ((hmem p).mp hin)
  closed := hc
  pending := hpend

/-- A step that keeps the invariant or fails one of the assertions about routing ids. -/
def Steps (x : Except Fault (Dropping Router)) : Prop :=
  (∃ s', x = .ok s' ∧ Inv s') ∨ ∃ e, x = .error e ∧ IdFault e

theorem not_attached (h : ¬ s.socket.attached pipe = true) :
    pipe ∉ s.socket.queue.fq.pipes.items ∧ pipe ∉ s.socket.anonymousPipes := by
  simpa [attached] using h

theorem Inv.xattachPipe (hI : Inv ⟨s0, dropped⟩) (hp : pipe ∉ s0.queue.fq.pipes.items)
    (hanon : pipe ∉ s0.anonymousPipes) (ha : (s0.queue.pipes pipe).inActive = true)
    (locallyInitiated : Bool) :
    Steps ((s0.xattachPipe pipe locallyInitiated).map fun socket => ⟨socket, dropped⟩) := by
  unfold Router.xattachPipe
  rcases identifies_identifyPeer hI.recv hI.listed hp ha locallyInitiated with
    ⟨r, s', heq, hi⟩ | ⟨e, heq, he⟩
  · rw [heq]
    cases r with
    | true =>
      refine .inl ⟨_, rfl, hI.identified hi hp fun p hmem => ?_⟩
      rw [hi.keeps.anonymous] at hmem
      refine ⟨hmem, ?_⟩
      rintro rfl
      exact hanon hmem
    | false =>
      refine .inl ⟨_, rfl, hI.anonymous hi hp fun p hmem => ?_⟩
      rw [mem_insert, hi.keeps.anonymous] at hmem
      exact hmem.symm
  · rw [heq]
    exact .inr ⟨e, rfl, he⟩

theorem Inv.identifyActivated (hI : Inv ⟨s0, dropped⟩) (hp : pipe ∉ s0.queue.fq.pipes.items)
    (ha : (s0.queue.pipes pipe).inActive = true) :
    Steps ((s0.identifyActivated pipe).map fun socket => ⟨socket, dropped⟩) := by
  unfold Router.identifyActivated
  rcases identifies_identifyPeer hI.recv hI.listed hp ha false with
    ⟨r, s', heq, hi⟩ | ⟨e, heq, he⟩
  · rw [heq]
    cases r with
    | true =>
      refine .inl ⟨_, rfl, hI.identified hi hp fun p hmem => ?_⟩
      rw [hi.keeps.anonymous] at hmem
      exact ⟨mem_of_mem_erase hmem, ne_of_mem_erase hmem⟩
    | false =>
      refine .inl ⟨_, rfl, hI.anonymous hi hp fun p hmem => .inl ?_⟩
      rw [hi.keeps.anonymous] at hmem
      exact hmem
  · rw [heq]
    exact .inr ⟨e, rfl, he⟩

theorem Inv.modify (hI : Inv s) {f : Inlet → Inlet} (hok : (s.socket.queue.modify pipe f).Ok)
    (hh : s.socket.queue.Holds pipe → (f (s.socket.queue.pipes pipe)).reading = true ∧
      (f (s.socket.queue.pipes pipe)).midway = true)
    (hc : (s.socket.queue.modify pipe f).Closed dropped)
    (hpend : s.socket.prefetched = true → s.socket.routingIdSent = true →
      ∀ p, s.socket.currentIn = some p → p ∉ dropped) :
    Inv ⟨{ s.socket with queue := s.socket.queue.modify pipe f }, dropped⟩ := by
  refine hI.setPipes (hI.recv.setQueue hok rfl (fun p hp _ => hp.modify fun heq => ?_)
    fun p hm _ _ => hm) (fun _ => Iff.rfl) hc hpend
  subst heq
  exact hh hp

theorem Inv.pipeTerminated (hI : Inv s) (hend : (s.socket.queue.pipes pipe).reading = false)
    (hatt : s.socket.attached pipe = true) (hC : Admissible s (.pipeTerminated pipe)) :
    Inv { s with socket := s.socket.xpipeTerminated pipe } := by
  unfold xpipeTerminated
  split
  · exact ⟨hI.recv.setRest _ _ _ _, hI.listed,
      fun p hp => hI.apart p (mem_of_mem_erase hp), hI.closed, hI.pending⟩
  rename_i hanon
  have hmem : pipe ∈ s.socket.queue.fq.pipes.items := by simpa [attached, hanon] using hatt
  have hok := hI.recv.ok
  have hrecv : Recv { s.socket with queue := s.socket.queue.pipeTerminated pipe } := by
    refine hI.recv.setQueue (hok.pipeTerminated hmem) (pipeTerminated_more _ pipe)
      (fun p hp _ => hp.pipeTerminated hok hmem ?_ (hC.1 hp.more hmem)) fun p hm ht hcur => ?_
    · rintro rfl
      rw [hp.reading] at hend
      cases hend
    · refine (hok.fq.mem_pipeTerminated hmem).mpr ⟨hm, ?_⟩
      rintro rfl
      exact hC.2 ⟨ht, hcur⟩
  refine ⟨hrecv.setTable _, fun id o ho => ?_, fun p hp hin => ?_, hI.closed, hI.pending⟩
  · obtain ⟨hin, hne⟩ := hI.listed.erase pipe id o ho
    exact (hok.fq.mem_pipeTerminated hmem).mpr ⟨hin, hne⟩
  · exact hI.apart p hp ((hok.fq.mem_pipeTerminated hmem).mp hin).1

theorem Inv.xrecv (hI : Inv s) :
    (∃ frame s', s.socket.xrecv = .ok (some frame, s') ∧ Inv ⟨s', ∅⟩ ∧
      (frame.first = !s.socket.half) ∧ (frame.first = false → frame.pipe ∉ s.dropped)) ∨
    (∃ s', s.socket.xrecv = .ok (none, s') ∧ Inv { s with socket := s' }) := by
  rcases hI.recv.xrecv with ⟨frame, s', heq, hr⟩ | ⟨queue, heq, hr⟩
  · have ha := hr.received.advances
    refine .inl ⟨frame, s', heq, ⟨hr.received.recv, fun id o ho => ?_, fun p hp hin => ?_,
      by simp, by simp⟩, hr.first, fun hf hmem => ?_⟩
    · rw [hr.received.table] at ho
      exact (ha.mem _).mpr (hI.listed id o ho)
    · rw [hr.received.anonymous] at hp
      exact hI.apart p hp ((ha.mem p).mp hin)
    · rcases hr.source hf with ⟨hp, hs, hcur⟩ | hread
      · exact hI.pending hp hs _ hcur hmem
      · rw [hI.closed _ hmem] at hread
        cases hread
  · exact .inr ⟨_, heq, hI.setPipes hr.recv hr.advances.mem (hI.closed.mono hr.advances.reading)
      hI.pending⟩

theorem Inv.xhasIn (hI : Inv s) :
    ∃ r s', s.socket.xhasIn = .ok (r, s') ∧ Inv { s with socket := s' } := by
  obtain ⟨r, s', heq, hr, hpend⟩ := hI.recv.xhasIn
  refine ⟨r, s', heq, hr.recv, fun id o ho => ?_, fun p hp hin => ?_,
    hI.closed.mono hr.advances.reading, fun hp hs p hcur => ?_⟩
  · rw [hr.table] at ho
    exact (hr.advances.mem _).mpr (hI.listed id o ho)
  · rw [hr.anonymous] at hp
    exact hI.apart p hp ((hr.advances.mem p).mp hin)
  · obtain ⟨hp', hs', hcur'⟩ := hpend hp hs
    exact hI.pending hp' hs' p (hcur'.symm.trans hcur)

/-- Every admissible step keeps the invariant, unless an assertion about routing ids fails. -/
theorem Inv.step (hI : Inv s) {a : RouterAction} (hC : Admissible s a) : Steps (step s a) := by
  have hok := hI.recv.ok
  cases a with
  | attach pipe held locallyInitiated =>
    simp only [Router.step]
    split
    · exact .inl ⟨s, rfl, hI⟩
    rename_i hatt
    obtain ⟨hp, hanon⟩ := not_attached hatt
    refine Inv.xattachPipe (hI.modify ?_ (fun hh => ?_) (hI.closed.update _ _ _) ?_)
      hp hanon (by simp [FairQueue.modify]) locallyInitiated
    · exact hok.modify_detached hp (framed_flatMap held)
    · exact absurd rfl (hh.ne_of_not_mem hp)
    · exact fun hpre hs p hcur hmem =>
        hI.pending hpre hs p hcur (mem_of_mem_erase hmem)
  | event pipe e =>
    refine .inl ⟨_, rfl, hI.modify ?_ (fun hh => ?_) (hI.closed.modify _ _ ?_) hI.pending⟩
    · exact hok.modify (apply_inActive _ e) ((hok.framed pipe).apply e)
    · exact ⟨(apply_reading _ e).trans hh.reading, (apply_midway _ e).trans hh.midway⟩
    · exact fun h => (apply_reading _ e).symm.trans h
  | activateRead pipe =>
    simp only [Router.step]
    split
    · rename_i hatt
      unfold Router.activateRead
      split
      · rename_i hanon
        have hp := hI.apart pipe hanon
        split
        · refine Inv.identifyActivated (hI.modify ?_ (fun hh => ?_) (hI.closed.modify _ _ ?_)
            hI.pending) hp (by simp [FairQueue.modify])
          · exact hok.modify_detached hp (hok.framed pipe)
          · exact absurd rfl (hh.ne_of_not_mem hp)
          · exact fun h => h
        · exact .inl ⟨s, rfl, hI⟩
      · rename_i hanon
        have hmem : pipe ∈ s.socket.queue.fq.pipes.items := by simpa [attached, hanon] using hatt
        refine .inl ⟨_, rfl, hI.setPipes (hI.recv.setQueue (hok.activateRead hmem)
          (FairQueue.activateRead_more _ pipe) (fun p hp _ => hp.activateRead hok hmem)
          fun p hm _ _ => (hok.mem_activateRead hmem).mpr hm) (fun q => hok.mem_activateRead hmem)
          (hI.closed.mono (FairQueue.activateRead_reading pipe)) hI.pending⟩
    · exact .inl ⟨s, rfl, hI⟩
  | disconnect pipe =>
    obtain ⟨state, heq⟩ := (s.socket.queue.pipes pipe).terminate_eq false
    refine .inl ⟨_, rfl, hI.modify ?_ (fun hh => ?_) (hI.closed.disconnect pipe) ?_⟩
    · exact hok.modify (by rw [heq]) ((hok.framed pipe).terminate false)
    · exact absurd ⟨hh.more, hh.current⟩ hC.1
    · intro hp hs p hcur hmem
      rcases mem_insert.mp hmem with rfl | hmem
      · exact hC.2 ⟨hp, hs, hcur⟩
      · exact hI.pending hp hs p hcur hmem
  | pipeTerminated pipe =>
    simp only [Router.step]
    split
    · rename_i hcond
      exact .inl ⟨_, rfl, hI.pipeTerminated (ending_reading hcond.2) hcond.1 hC⟩
    · exact .inl ⟨s, rfl, hI⟩
  | setConnectRoutingId id =>
    exact .inl ⟨_, rfl, hI.recv.setTable _, hI.listed, hI.apart, hI.closed, hI.pending⟩
  | setHandover value =>
    exact .inl ⟨_, rfl, hI.recv.setRest _ _ value _, hI.listed, hI.apart, hI.closed, hI.pending⟩
  | setRaw =>
    exact .inl ⟨_, rfl, hI.recv.setRest _ _ _ true, hI.listed, hI.apart, hI.closed, hI.pending⟩
  | xrecv =>
    rcases hI.xrecv with ⟨frame, s', heq, hI', -⟩ | ⟨s', heq, hI'⟩
    · exact .inl ⟨⟨s', ∅⟩, by simp only [Router.step, heq], hI'⟩
    · exact .inl ⟨{ s with socket := s' }, by simp only [Router.step, heq], hI'⟩
  | xhasIn =>
    obtain ⟨r, s', heq, hI'⟩ := hI.xhasIn
    exact .inl ⟨{ s with socket := s' }, by simp only [Router.step, heq, Except.map], hI'⟩

theorem Inv.continues (hI : Inv s) : Continues s := by
  rcases hI.xrecv with ⟨frame, s', heq, -, hfirst, hdrop⟩ | ⟨s', heq, -⟩
  · refine ⟨_, s', heq, fun fr hfr => ?_⟩
    cases hfr
    exact ⟨hfirst, hdrop⟩
  · exact ⟨none, s', heq, nofun⟩

end Router

/-! ### Whole runs -/

/-- In every run in which no pipe is disconnected in the middle of its message and the reader
does not lose its place, receiving goes on: the socket does not fault (a ROUTER apart from the
assertions about routing ids), and the next frame begins a message or continues one of a pipe
that is still connected. -/
theorem receives_after_disconnect (filter : Bool) (id : BitVec 32) :
    (∀ as : List SubRecvAction,
      CheckedRun.Along XSubRecv.step XSubRecv.Admissible ⟨.new filter, ∅⟩ as →
      ∃ s, run XSubRecv.step ⟨.new filter, ∅⟩ as = .ok s ∧ XSubRecv.Receives s) ∧
    ∀ as : List RouterAction, CheckedRun.Along step Admissible ⟨.new id, ∅⟩ as →
      (∃ s, run step ⟨.new id, ∅⟩ as = .ok s ∧ Continues s) ∨
      ∃ e, run step ⟨.new id, ∅⟩ as = .error e ∧ IdFault e := by
  refine ⟨fun as ha => ?_, fun as ha => ?_⟩
  · obtain ⟨s, hr, hI⟩ := run_ok_of_step
      (fun s a hI hC => XSubRecv.Inv.step hI hC) (XSubRecv.inv_new filter) ha
    exact ⟨s, hr, hI.receives⟩
  rcases run_ok_or_fault
    (fun s a hI hC => Inv.step hI hC) (inv_new id) ha with ⟨s, hr, hI⟩ | hfault
  · exact .inl ⟨s, hr, hI.continues⟩
  · exact .inr hfault

/-- One pipe is disconnected after its message, the other one holds the next. -/
def disconnectSub : List SubRecvAction :=
  [.attach 0 [.ofData [[1]] [2], .ofData [] [3]], .attach 1 [.ofData [] [4]],
    .xrecv fun _ => true, .xrecv fun _ => true, .disconnect 0]

def disconnectRouter : List RouterAction :=
  [.attach 0 [.ofData [] [7], .ofData [[1]] [2]] false,
    .attach 1 [.ofData [] [8], .ofData [] [4]] false, .xrecv, .xrecv, .xrecv, .disconnect 0]

/-- Both sockets receive; the ids of the two peers of the ROUTER are different. -/
theorem receives_after_disconnect_runs :
    (∃ s, run XSubRecv.step ⟨.new true, ∅⟩ disconnectSub = .ok s ∧ XSubRecv.Receives s) ∧
    ∃ s, run step ⟨.new 5, ∅⟩ disconnectRouter = .ok s ∧ Continues s := by
  obtain ⟨hsub, hrouter⟩ := receives_after_disconnect true 5
  refine ⟨hsub disconnectSub (by decide), (hrouter disconnectRouter (by decide)).resolve_right ?_⟩
  rintro ⟨e, he, -⟩
  cases he

/-- A SUB socket disconnects after the first of the two parts of a message: the next receive
fails the assertion of `recvpipe`. -/
theorem disconnect_in_message_aborts :
    run XSubRecv.step ⟨.new true, ∅⟩
      [.attach 0 [.ofData [[1]] [2]], .xrecv fun _ => true, .disconnect 0,
        .xrecv fun _ => true] = .error .fqAtomicity :=
  rfl

end ServerLink

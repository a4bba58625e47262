import ServerLink.Pipe.PipePair
import ServerLink.Pipe.TermEffect

/-!
# ServerLink.Pipe.PipeEffects

The methods of a pipe do what `ServerLink.Pipe.TermEffect` lists, and none of their
assertions fails, as long as the queues the pipe points to are there (`Usable`) and
commands arrive in the states the protocol promises.
-/

namespace ServerLink

open FlushQueue List

/-- What the termination protocol reads of a pipe. -/
def Pipe.endpoint (p : Pipe) : Endpoint where
  inPipe := p.inPipe
  outPipe := p.outPipe
  inActive := p.inActive
  state := p.state
  notified := p.notified
  deleted := p.deleted

def PipeEnd.party (x : PipeEnd) : Party := { x.pipe.endpoint with inbox := x.inbox }

namespace PipeCall

/-- The queues a pipe points to can be used. -/
structure Usable (c : PipeCall) : Prop where
  alive : c.pipe.deleted = false
  inLive : c.heap.Live c.pipe.inPipe
  outLive : ∀ q, c.pipe.outPipe = some q → c.heap.Live q ∧ q ≠ c.pipe.inPipe
  outSome : c.pipe.state ≠ .termAckSent → c.pipe.state ≠ .termReqSent2 →
    ∃ q, c.pipe.outPipe = some q
  queues : ∀ q queue, c.heap.cell q = some queue → QueueOk queue
  fresh : ∀ {q}, c.heap.Live q → q ≠ c.heap.next

/-- A method that does not fail and has an effect the protocol knows. -/
def Does (c : PipeCall) (r : Except Fault PipeCall) : Prop :=
  ∃ c', r = .ok c' ∧ Effect c.pipe.endpoint c.heap c'.pipe.endpoint c'.heap c'.sent

variable {c : PipeCall} {q : QueueId} {queue : Queue}

/-! ### The methods, when their queues are there -/

theorem queue_eq (hc : c.heap.cell q = some queue) : c.queue q = .ok queue := by
  simp [PipeCall.queue, hc]

/-- Valid messages can be closed. -/
theorem closeMsgs_ok {ms : List Msg} (h : ∀ m ∈ ms, m.check = true) : closeMsgs ms = .ok () := by
  induction ms with
  | nil => rfl
  | cons m ms ih =>
    simp only [closeMsgs, Msg.close, h m (by simp), if_true]
    exact ih fun m hm => h m (mem_cons_of_mem _ hm)

theorem rollbackMsgs_ok {ms : List Msg} (h : ∀ m ∈ ms, m.check = true ∧ m.more = true) :
    rollbackMsgs ms = .ok () := by
  induction ms with
  | nil => rfl
  | cons m ms ih =>
    simp only [rollbackMsgs, Msg.close, h m (by simp), if_true]
    exact ih fun m hm => h m (mem_cons_of_mem _ hm)

/-- The credentials in front are closed, and nothing else. -/
theorem skipCredentials_ok {ms : List Msg} (h : ∀ m ∈ ms, m.check = true) :
    ∃ popped rest, ms = popped ++ rest ∧ (∀ m ∈ popped, m.isCredential = true) ∧
      skipCredentials ms = .ok rest := by
  induction ms with
  | nil => exact ⟨[], [], rfl, by simp, rfl⟩
  | cons m ms ih =>
    cases hm : m.isCredential with
    | false => exact ⟨[], m :: ms, rfl, by simp, by simp [skipCredentials, hm]⟩
    | true =>
      obtain ⟨popped, rest, hms, hcred, heq⟩ := ih fun m hm => h m (mem_cons_of_mem _ hm)
      refine ⟨m :: popped, rest, by rw [hms]; rfl, ?_, ?_⟩
      · simpa [hm] using hcred
      · simpa [skipCredentials, hm, Msg.close, h m (by simp)] using heq

/-- `rollback` takes out the parts that are not a complete message. -/
theorem rollback_eq (hq : c.pipe.outPipe = some q) (hc : c.heap.cell q = some queue)
    (hok : QueueOk queue) : c.rollback = .ok (c.setQueue q queue.unwriteAll.2) := by
  have hmsgs : rollbackMsgs queue.unwriteAll.1 = .ok () := by
    refine rollbackMsgs_ok fun m hm => ?_
    have hmem : m ∈ queue.incomplete := by simpa [unwriteAll] using hm
    exact ⟨hok.valid m (by simp [items, hmem]), hok.parts m hmem⟩
  simp only [rollback, hq, queue_eq hc, bind, Except.bind, hmsgs, pure, Except.pure]

/-- `flush` publishes, and wakes up a reader that sleeps. -/
theorem flush_eq (hs : c.pipe.state ≠ .termAckSent) (hq : c.pipe.outPipe = some q)
    (hc : c.heap.cell q = some queue) :
    c.flush = .ok { c with
      heap := c.heap.set q queue.flush.2, sent := c.sent ++ wakeUp (!queue.flush.1) } := by
  simp only [flush, hs, if_false, hq, queue_eq hc, bind, Except.bind, pure, Except.pure]
  cases queue.flush.1 <;> simp [wakeUp, send, setQueue]

/-- The queue after the delimiter was written. -/
def delimit (queue : Queue) : Bool × Queue :=
  (queue.unwriteAll.2.write Msg.initDelimiter false).flush

theorem writeDelimiter_eq (hs : c.pipe.state ≠ .termAckSent) (hq : c.pipe.outPipe = some q)
    (hc : c.heap.cell q = some queue) (hok : QueueOk queue) :
    c.writeDelimiter q = .ok { c with
      heap := c.heap.set q (delimit queue).2
      sent := c.sent ++ wakeUp (!(delimit queue).1) } := by
  have hqueue : (c.setQueue q queue.unwriteAll.2).queue q = .ok queue.unwriteAll.2 :=
    queue_eq (Arena.cell_set _ _ _)
  simp only [writeDelimiter, rollback_eq hq hc hok, hqueue, bind, Except.bind]
  rw [flush_eq (c := (c.setQueue q _).setQueue q _) hs hq (Arena.cell_set _ _ _)]
  simp [setQueue, delimit]

/-- The delimiter is the last thing that goes out. -/
theorem stopOutput_eq (hs : c.pipe.state ≠ .termAckSent) (hq : c.pipe.outPipe = some q)
    (hc : c.heap.cell q = some queue) (hok : QueueOk queue) :
    c.stopOutput = .ok
      { pipe := { c.pipe with outActive := false }
        heap := c.heap.set q (delimit queue).2
        sent := c.sent ++ wakeUp (!(delimit queue).1) } := by
  have hw : ({ c with pipe := { c.pipe with outActive := false } } : PipeCall).writeDelimiter q
      = _ := writeDelimiter_eq hs hq hc hok
  simp only [stopOutput]
  split
  case h_1 hn => simp [hq] at hn
  case h_2 q' hq' =>
    cases hq.symm.trans hq'
    exact hw

theorem delimit_written (queue : Queue) : queue.Written (delimit queue).2 (!(delimit queue).1) :=
  ((written_unwriteAll queue).trans (written_write _ _ _)).trans (written_flush _)

theorem delimit_ok (hok : QueueOk queue) : QueueOk (delimit queue).2 :=
  (hok.unwriteAll.write (m := Msg.initDelimiter) rfl fun _ => rfl).flush

/-- The delimiter is published at once. -/
theorem delimit_hasDelimiter (queue : Queue) : HasDelimiter (delimit queue).2.flushed := by
  refine ⟨Msg.initDelimiter, ?_, rfl⟩
  rw [delimit, FlushQueue.flush_flushed]
  simp [FlushQueue.write, FlushQueue.unwriteAll]

/-! ### The methods have known effects -/

/-- The queues of a usable pipe have not been freed. -/
theorem Usable.inQueue (hu : c.Usable) :
    ∃ queue, c.heap.cell c.pipe.inPipe = some queue ∧ QueueOk queue := by
  obtain ⟨queue, hc⟩ := Arena.live_iff.mp hu.inLive
  exact ⟨queue, hc, hu.queues _ _ hc⟩

theorem Usable.outQueue (hu : c.Usable) (hq : c.pipe.outPipe = some q) :
    ∃ queue, c.heap.cell q = some queue ∧ QueueOk queue := by
  obtain ⟨queue, hc⟩ := Arena.live_iff.mp (hu.outLive q hq).1
  exact ⟨queue, hc, hu.queues _ _ hc⟩

theorem Usable.reading_iff (hu : c.Usable) : c.pipe.endpoint.Reading ↔ c.pipe.reading = true := by
  simp [Endpoint.Reading, Endpoint.status, Pipe.endpoint, hu.alive, Pipe.reading]

theorem Usable.reading (hu : c.Usable) (hr : c.pipe.reading = true) :
    c.pipe.endpoint.Reading :=
  hu.reading_iff.mpr hr

/-- Only fields the protocol does not read have changed. -/
theorem does_nothing (hsent : c.sent = []) {p : Pipe} (hp : p.endpoint = c.pipe.endpoint) :
    c.Does (.ok { c with pipe := p }) := by
  refine ⟨_, rfl, ?_⟩
  rw [hp, hsent]
  exact .nothing

theorem does_rollback (hu : c.Usable) (hsent : c.sent = []) : c.Does c.rollback := by
  cases hq : c.pipe.outPipe with
  | none =>
    simp only [rollback, hq]
    exact does_nothing hsent rfl
  | some q =>
    obtain ⟨queue, hc, hok⟩ := hu.outQueue hq
    refine ⟨_, rollback_eq hq hc hok, ?_⟩
    show Effect _ _ _ _ c.sent
    rw [hsent]
    exact .wrote hq hc (written_unwriteAll queue) hok.unwriteAll
      fun _ hn m hm => hn m (items_unwriteAll hm)

theorem does_flush (hu : c.Usable) (hsent : c.sent = []) : c.Does c.flush := by
  by_cases hs : c.pipe.state = .termAckSent
  · simp only [flush, hs, if_true]
    exact does_nothing hsent rfl
  cases hq : c.pipe.outPipe with
  | none =>
    simp only [flush, hs, if_false, hq]
    exact does_nothing hsent rfl
  | some q =>
    obtain ⟨queue, hc, hok⟩ := hu.outQueue hq
    refine ⟨_, flush_eq hs hq hc, ?_⟩
    rw [hsent]
    exact .wrote hq hc (written_flush queue) hok.flush fun _ hn => by
      rwa [items_flush]

/-- `check_write` says yes and changes nothing, or it says no and may note that the pipe is full. -/
theorem checkWrite_cases (c : PipeCall) :
    (c.checkWrite = (true, c) ∧ c.pipe.outActive = true ∧ c.pipe.state = .active ∧
        c.pipe.checkHwm = true) ∨
      ∃ act, c.checkWrite = (false, { c with pipe := { c.pipe with outActive := act } }) ∧
        (c.pipe.outActive = true → c.pipe.state = .active → c.pipe.checkHwm = false ∧ act = false) ∧
        (c.pipe.outActive = false → act = false) := by
  unfold checkWrite
  split
  case isTrue h =>
    refine .inr ⟨c.pipe.outActive, rfl, fun ha hs => ?_, id⟩
    simp [ha, hs] at h
  case isFalse h =>
    have hact : c.pipe.outActive = true ∧ c.pipe.state = .active := by simpa using h
    split
    case isTrue hh => exact .inl ⟨rfl, hact.1, hact.2, hh⟩
    case isFalse hh => exact .inr ⟨false, rfl, fun _ _ => ⟨by simpa using hh, rfl⟩, fun _ => rfl⟩

theorem does_checkWrite (hsent : c.sent = []) : c.Does (.ok c.checkWrite.2) := by
  rcases c.checkWrite_cases with ⟨h, -⟩ | ⟨act, h, -⟩
  · rw [h]
    exact does_nothing hsent rfl
  · rw [h]
    exact does_nothing hsent rfl

theorem write_eq (h : c.checkWrite = (true, c)) (hq : c.pipe.outPipe = some q)
    (hc : c.heap.cell q = some queue) (m : Msg) :
    c.write m = .ok (true, { c with
      pipe := { c.pipe with msgsWritten := c.pipe.msgsWritten + count m }
      heap := c.heap.set q (queue.write m m.more) }) := by
  simp only [write, h, hq, queue_eq hc, bind, Except.bind, pure, Except.pure, setQueue]

/-- A part goes into the queue, or it is refused. -/
theorem does_write (hu : c.Usable) (hsent : c.sent = []) (m : OwnerMsg) :
    c.Does ((c.write m.msg).map Prod.snd) := by
  rcases c.checkWrite_cases with ⟨h, -, hs, -⟩ | ⟨act, h, -⟩
  · obtain ⟨q, hq⟩ := hu.outSome (by simp [hs]) (by simp [hs])
    obtain ⟨queue, hc, hok⟩ := hu.outQueue hq
    rw [write_eq h hq hc]
    refine ⟨_, rfl, ?_⟩
    rw [hsent]
    refine .wrote hq hc (written_write queue _ _)
      (hok.write m.valid (by simp [m.notDelimiter])) fun _ hn m' hm' => ?_
    rw [items_write, mem_append, mem_singleton] at hm'
    rcases hm' with hm' | rfl
    · exact hn m' hm'
    · exact m.notDelimiter
  · simp only [write, h, Except.map]
    exact does_nothing hsent rfl

theorem processDelimiter_waiting {c' : PipeCall} (hs : c.pipe.state = .waitingForDelimiter)
    (hr : c.rollback = .ok c') : c.processDelimiter = .ok (c'.ack .termAckSent) := by
  simp only [processDelimiter, hs, hr, bind, Except.bind, pure, Except.pure]

/-- A delimiter ends the reading, and is acknowledged if the termination waits for it. -/
theorem does_processDelimiter (hu : c.Usable) (hsent : c.sent = [])
    (hr : c.pipe.reading = true) (hact : c.pipe.inActive = true) {popped rest : List Msg}
    {m : Msg} (hc : c.heap.cell c.pipe.inPipe = some queue)
    (hf : queue.flushed = popped ++ m :: rest) (hm : m.isDelimiter = true) :
    c.Does (c.setQueue c.pipe.inPipe { queue with flushed := rest }).processDelimiter := by
  have hok : QueueOk { queue with flushed := rest } :=
    (hu.queues _ _ hc).pop (by rw [hf, ← append_cons]) queue.asleep
  have hst : c.pipe.state = .active ∨ c.pipe.state = .waitingForDelimiter := by
    simpa [Pipe.reading] using hr
  rcases hst with hst | hst
  · refine ⟨{ c with
      pipe := { c.pipe with state := .delimiterReceived }
      heap := c.heap.set c.pipe.inPipe { queue with flushed := rest } }, ?_, ?_⟩
    · simp only [processDelimiter, setQueue, hst]
    · rw [hsent]
      exact .readDelimiter hst hact hc hf hm
  obtain ⟨q, hq⟩ := hu.outSome (by simp [hst]) (by simp [hst])
  obtain ⟨out, hout, hoko⟩ := hu.outQueue hq
  have hroll := rollback_eq (c := c.setQueue c.pipe.inPipe { queue with flushed := rest }) hq
    ((Arena.cell_set_of_ne _ _ (hu.outLive q hq).2).trans hout) hoko
  refine ⟨_, processDelimiter_waiting hst hroll, ?_⟩
  show Effect _ _ _ _ (c.sent ++ _)
  rw [hsent]
  exact .ack hst hq hout hok

/-! ### Reading -/

theorem checkRead_eq (hact : c.pipe.inActive = true) (hr : c.pipe.reading = true)
    (hc : c.heap.cell c.pipe.inPipe = some queue) :
    c.checkRead =
      match queue.flushed with
      | [] => .ok (false, { c with pipe := { c.pipe with inActive := false } }.setQueue
          c.pipe.inPipe { queue with flushed := [], asleep := true })
      | m :: rest =>
        if m.isDelimiter then
          (c.setQueue c.pipe.inPipe { queue with flushed := rest }).processDelimiter.map (false, ·)
        else .ok (true, c.setQueue c.pipe.inPipe queue) := by
  simp only [checkRead, hact, hr, Bool.not_true, Bool.or_self, Bool.false_eq_true, if_false,
    queue_eq hc, bind, Except.bind, pure, Except.pure]
  cases hf : queue.flushed with
  | nil => simp [FlushQueue.checkRead, hf]
  | cons m rest =>
    simp only [FlushQueue.checkRead, FlushQueue.read, hf, head?_cons, Option.any_some]
    split
    · cases (c.setQueue c.pipe.inPipe { queue with flushed := rest }).processDelimiter <;> rfl
    · rfl

/-- What `read` does at a pipe that is awake, by the first message that is no credential. -/
theorem read_eq (hact : c.pipe.inActive = true) (hr : c.pipe.reading = true)
    (hc : c.heap.cell c.pipe.inPipe = some queue) {flushed : List Msg}
    (hf : skipCredentials queue.flushed = .ok flushed) :
    c.read =
      match flushed with
      | [] => .ok (none, { c with pipe := { c.pipe with inActive := false } }.setQueue
          c.pipe.inPipe { queue with flushed := [], asleep := true })
      | m :: rest =>
        let c := c.setQueue c.pipe.inPipe { queue with flushed := rest }
        if m.isDelimiter then c.processDelimiter.map (none, ·)
        else .ok (some m, c.countRead m) := by
  simp only [read, hact, hr, Bool.not_true, Bool.or_self, Bool.false_eq_true, if_false,
    queue_eq hc, hf, bind, Except.bind, pure, Except.pure]
  cases flushed with
  | nil => simp [FlushQueue.read]
  | cons m rest =>
    simp only [FlushQueue.read]
    split
    · cases (c.setQueue c.pipe.inPipe { queue with flushed := rest }).processDelimiter <;> rfl
    · rfl

theorem Does.map {α : Type} {r : Except Fault PipeCall} (h : c.Does r) (f : PipeCall → α × PipeCall)
    (hf : ∀ c, (f c).2 = c) : c.Does ((r.map f).map Prod.snd) := by
  obtain ⟨c', rfl, he⟩ := h
  exact ⟨c', by simp [Except.map, hf], he⟩

/-- Reading is not allowed now: the calls return at once. -/
theorem not_readable (h : ¬ (c.pipe.inActive = true ∧ c.pipe.reading = true)) :
    (!c.pipe.inActive || !c.pipe.reading) = true := by
  cases ha : c.pipe.inActive <;> simp_all

theorem does_checkRead (hu : c.Usable) (hsent : c.sent = []) :
    c.Does (c.checkRead.map Prod.snd) := by
  by_cases hr : c.pipe.inActive = true ∧ c.pipe.reading = true
  · obtain ⟨hact, hr⟩ := hr
    obtain ⟨queue, hc, hok⟩ := hu.inQueue
    rw [checkRead_eq hact hr hc]
    cases hf : queue.flushed with
    | nil =>
      refine ⟨_, rfl, ?_⟩
      rw [hsent]
      exact .emptied (hu.reading hr) hc (by simp [hf, NoDelimiter])
    | cons m rest =>
      cases hm : m.isDelimiter with
      | true =>
        simp only [hm, if_true]
        have hf' : queue.flushed = [] ++ m :: rest := hf
        exact (does_processDelimiter hu hsent hr hact hc hf' hm).map _ fun _ => rfl
      | false =>
        simp only [hm, Bool.false_eq_true, if_false]
        refine ⟨_, rfl, ?_⟩
        show Effect _ _ _ _ c.sent
        rw [hsent]
        exact .readSome (hu.reading hr) hact hc (nil_append _).symm (by simp [NoDelimiter])
          (by simp)
  · simp only [checkRead, not_readable hr, if_true, Except.map]
    exact does_nothing hsent rfl

theorem report_activateWrite {lwm n : Int} : ∀ cmd ∈ report lwm n, ∃ n, cmd = .activateWrite n := by
  unfold report
  split <;> simp

theorem does_read (hu : c.Usable) (hsent : c.sent = []) : c.Does (c.read.map Prod.snd) := by
  by_cases hr : c.pipe.inActive = true ∧ c.pipe.reading = true
  · obtain ⟨hact, hr⟩ := hr
    obtain ⟨queue, hc, hok⟩ := hu.inQueue
    have hvalid : ∀ m ∈ queue.flushed, m.check = true := fun m hm =>
      hok.valid m (by simp [items, hm])
    obtain ⟨popped, flushed, hf, hcred, hskip⟩ := skipCredentials_ok hvalid
    have hpop : NoDelimiter popped := fun m hm => by
      have hplain := hok.plain m (by simp [items, hf, hm])
      simpa [hcred m hm] using hplain
    rw [read_eq hact hr hc hskip]
    cases flushed with
    | nil =>
      refine ⟨_, rfl, ?_⟩
      rw [hsent]
      exact .emptied (hu.reading hr) hc (by simpa [hf] using hpop)
    | cons m rest =>
      cases hm : m.isDelimiter with
      | true =>
        simp only [hm, if_true]
        exact (does_processDelimiter hu hsent hr hact hc hf hm).map _ fun _ => rfl
      | false =>
        simp only [hm, Bool.false_eq_true, if_false]
        refine ⟨_, rfl, ?_⟩
        show Effect c.pipe.endpoint _ c.pipe.endpoint _ (c.sent ++ _)
        rw [hsent]
        have hf' : queue.flushed = (popped ++ [m]) ++ rest := by rw [hf, ← append_cons]
        refine .readSome (hu.reading hr) hact hc hf' (fun m' hm' => ?_) report_activateWrite
        rw [mem_append, mem_singleton] at hm'
        rcases hm' with hm' | rfl
        · exact hpop m' hm'
        · exact hm
  · simp only [read, not_readable hr, if_true, Except.map]
    exact does_nothing hsent rfl

/-! ### Terminating -/

/-- The state of a pipe that `terminate` asks the peer from. -/
theorem terminate_ask (hs : c.pipe.state = .active ∨ c.pipe.state = .delimiterReceived)
    (hq : c.pipe.outPipe = some q) (hc : c.heap.cell q = some queue) (hok : QueueOk queue)
    (delay : Bool) :
    c.terminate delay = .ok
      { pipe := { c.pipe with delay, state := .termReqSent1, outActive := false }
        heap := c.heap.set q (delimit queue).2
        sent := (c.sent ++ [.pipeTerm]) ++ wakeUp (!(delimit queue).1) } := by
  have hstop : (({ c with pipe := { c.pipe with delay, state := .termReqSent1 } } :
      PipeCall).send .pipeTerm).stopOutput = _ := stopOutput_eq (by simp [send]) hq hc hok
  rcases hs with hs | hs
  · simp only [terminate, hs]
    exact hstop
  · simp only [terminate, hs]
    exact hstop

/-- A waiting pipe goes on waiting, and sends a delimiter of its own. -/
theorem terminate_wait (hs : c.pipe.state = .waitingForDelimiter)
    (hq : c.pipe.outPipe = some q) (hc : c.heap.cell q = some queue) (hok : QueueOk queue) :
    c.terminate true = .ok
      { pipe := { c.pipe with delay := true, outActive := false }
        heap := c.heap.set q (delimit queue).2
        sent := c.sent ++ wakeUp (!(delimit queue).1) } := by
  have hstop : ({ c with pipe := { c.pipe with delay := true } } : PipeCall).stopOutput = _ :=
    stopOutput_eq (by simp [hs]) hq hc hok
  simp only [hs] at hstop
  simp only [terminate, hs, if_true]
  exact hstop

/-- Without delay, a termination that waits for the delimiter is acknowledged. -/
theorem terminate_ack (hs : c.pipe.state = .waitingForDelimiter)
    (hq : c.pipe.outPipe = some q) (hc : c.heap.cell q = some queue) (hok : QueueOk queue) :
    c.terminate false = .ok
      { pipe := { c.pipe with
          delay := false, state := .termAckSent, outPipe := none, outActive := false }
        heap := c.heap.set q queue.unwriteAll.2
        sent := c.sent ++ [.pipeTermAck] } := by
  have hroll : ({ c with pipe := { c.pipe with delay := false } } : PipeCall).rollback = _ :=
    rollback_eq hq hc hok
  simp only [hs] at hroll
  simp only [terminate, hs, Bool.false_eq_true, if_false, hroll, bind, Except.bind]
  rfl

/-- `terminate` has a known effect, and the pipe is not active any more. -/
theorem does_terminate (hu : c.Usable) (hsent : c.sent = []) (delay : Bool) :
    ∃ c', c.terminate delay = .ok c' ∧
      Effect c.pipe.endpoint c.heap c'.pipe.endpoint c'.heap c'.sent ∧
      c'.pipe.state ≠ .active := by
  cases hs : c.pipe.state with
  | termReqSent1 | termReqSent2 | termAckSent =>
    have heq : c.terminate delay = .ok { c with pipe := { c.pipe with delay } } := by
      simp only [terminate, hs]
    refine ⟨_, heq, ?_, by simp [hs]⟩
    rw [hsent]
    exact .nothing
  | active | delimiterReceived =>
    obtain ⟨q, hq⟩ := hu.outSome (by simp [hs]) (by simp [hs])
    obtain ⟨queue, hc, hok⟩ := hu.outQueue hq
    refine ⟨_, terminate_ask (by simp [hs]) hq hc hok delay, ?_, by simp⟩
    rw [hsent]
    exact .ask (by simp [Pipe.endpoint, hs]) hq hc (delimit_written queue) (delimit_ok hok)
      (delimit_hasDelimiter queue)
  | waitingForDelimiter =>
    obtain ⟨q, hq⟩ := hu.outSome (by simp [hs]) (by simp [hs])
    obtain ⟨queue, hc, hok⟩ := hu.outQueue hq
    cases delay with
    | true =>
      refine ⟨_, terminate_wait hs hq hc hok, ?_, by simp [hs]⟩
      rw [hsent]
      exact .wrote hq hc (delimit_written queue) (delimit_ok hok)
        fun hact => by simp [Pipe.endpoint, hs] at hact
    | false =>
      obtain ⟨inQueue, hin, hokin⟩ := hu.inQueue
      refine ⟨_, terminate_ack hs hq hc hok, ?_, by simp⟩
      have hheap : c.heap.set q queue.unwriteAll.2 =
          (c.heap.set c.pipe.inPipe inQueue).set q queue.unwriteAll.2 := by
        rw [Arena.set_self hin]
      rw [hsent, hheap]
      exact .ack hs hq hc hokin

/-- `reconnect` of a session hiccups a pipe and terminates it right after that. -/
theorem does_hiccupTerminate (hu : c.Usable) (hsent : c.sent = []) :
    ∃ c', c.hiccup.terminate false = .ok c' ∧
      Effect c.pipe.endpoint c.heap c'.pipe.endpoint c'.heap c'.sent ∧
      c'.pipe.state ≠ .active := by
  by_cases hs : c.pipe.state = .active
  · obtain ⟨q, hq⟩ := hu.outSome (by simp [hs]) (by simp [hs])
    obtain ⟨queue, hc, hok⟩ := hu.outQueue hq
    have hhic : c.hiccup =
        { pipe := { c.pipe with inPipe := c.heap.next, inActive := true }
          heap := c.heap.alloc {}
          sent := c.sent ++ [.hiccup c.heap.next] } := by
      simp only [hiccup, hs, if_true, send]
    have hcell : c.hiccup.heap.cell q = some queue := by
      rw [hhic]
      exact (Arena.cell_alloc_of_ne _ _ (hu.fresh (hu.outLive q hq).1)).trans hc
    have hask := terminate_ask (c := c.hiccup) (.inl (by rw [hhic]; exact hs))
      (by rw [hhic]; exact hq) hcell hok false
    rw [hhic] at hask ⊢
    refine ⟨_, hask, ?_, by simp⟩
    rw [hsent]
    exact .hiccupAsk hs hq hc (delimit_written queue) (delimit_ok hok) (delimit_hasDelimiter queue)
  · simp only [hiccup, hs, if_false]
    exact does_terminate hu hsent false

/-! ### Commands -/

/-- The processing of a command does not fail and has an effect the protocol knows. -/
def Handles (c : PipeCall) (cmd : Command) (r : Except Fault PipeCall) : Prop :=
  ∃ c', r = .ok c' ∧ Handled c.pipe.endpoint c.heap cmd c'.pipe.endpoint c'.heap c'.sent

theorem handles_activateRead (hu : c.Usable) (hsent : c.sent = []) :
    c.Handles .activateRead (.ok c.processActivateRead) := by
  refine ⟨_, rfl, ?_⟩
  unfold processActivateRead
  split
  case isTrue =>
    rw [hsent]
    exact .activateRead fun _ => rfl
  case isFalse h =>
    have hact : c.pipe.endpoint.Reading → c.pipe.inActive = true := fun hr => by
      simpa [hu.reading_iff.mp hr] using h
    rw [hsent]
    exact .activateRead hact

theorem handles_activateWrite (hsent : c.sent = []) (n : Int) :
    c.Handles (.activateWrite n) (.ok (c.processActivateWrite n)) := by
  refine ⟨_, rfl, ?_⟩
  have hsame : (c.processActivateWrite n).pipe.endpoint = c.pipe.endpoint ∧
      (c.processActivateWrite n).heap = c.heap ∧ (c.processActivateWrite n).sent = c.sent := by
    simp only [processActivateWrite]
    split <;> exact ⟨rfl, rfl, rfl⟩
  rw [hsame.1, hsame.2.1, hsame.2.2, hsent]
  exact .activateWrite n

/-- The unread messages of the old queue are lost, and the pipe writes to the new one. -/
theorem handles_hiccup (hu : c.Usable) (hsent : c.sent = []) (new : QueueId)
    (hq : c.pipe.outPipe = some q) : c.Handles (.hiccup new) (c.processHiccup new) := by
  obtain ⟨queue, hc, hok⟩ := hu.outQueue hq
  have hclose : closeMsgs queue.flush.2.readAll.1 = .ok () :=
    closeMsgs_ok fun m hm => hok.flush.valid m (mem_append_left _ (mem_append_left _ hm))
  have heq : c.processHiccup new = .ok { c with
      pipe := { c.pipe with
        msgsWritten := c.pipe.msgsWritten - queue.flush.2.readAll.1.countP fun m => !m.more
        outPipe := some new
        outActive := true }
      heap := c.heap.free q } := by
    simp only [processHiccup, hq, queue_eq hc, hclose, bind, Except.bind, pure, Except.pure]
  refine ⟨_, heq, ?_⟩
  rw [hsent]
  exact .hiccup new hq

/-- With messages left to read the acknowledgement waits for the delimiter. -/
theorem handles_pipeTerm (hsent : c.sent = [])
    (hs : c.pipe.state = .active ∨ c.pipe.state = .delimiterReceived ∨
      c.pipe.state = .termReqSent1) : c.Handles .pipeTerm c.processPipeTerm := by
  rcases hs with hs | hs | hs
  · cases hd : c.pipe.delay with
    | true =>
      have heq : c.processPipeTerm =
          .ok { c with pipe := { c.pipe with state := .waitingForDelimiter } } := by
        simp only [processPipeTerm, hs, hd, if_true]
      refine ⟨_, heq, ?_⟩
      rw [hsent]
      exact .wait hs
    | false =>
      have heq : c.processPipeTerm = .ok (c.ack .termAckSent) := by
        simp only [processPipeTerm, hs, hd, Bool.false_eq_true, if_false]
      refine ⟨_, heq, ?_⟩
      show Handled _ _ _ _ _ (c.sent ++ _)
      rw [hsent]
      exact .ack (.inl hs)
  · have heq : c.processPipeTerm = .ok (c.ack .termAckSent) := by simp only [processPipeTerm, hs]
    refine ⟨_, heq, ?_⟩
    show Handled _ _ _ _ _ (c.sent ++ _)
    rw [hsent]
    exact .ack (.inr hs)
  · have heq : c.processPipeTerm = .ok (c.ack .termReqSent2) := by simp only [processPipeTerm, hs]
    refine ⟨_, heq, ?_⟩
    show Handled _ _ _ _ _ (c.sent ++ _)
    rw [hsent]
    exact .ackAsked hs

theorem destroy_eq (hc : c.heap.cell c.pipe.inPipe = some queue) (hok : QueueOk queue) :
    c.destroy = .ok { c with
      pipe := { c.pipe with deleted := true }, heap := c.heap.free c.pipe.inPipe } := by
  have hclose : closeMsgs queue.readAll.1 = .ok () :=
    closeMsgs_ok fun m hm => hok.valid m (mem_append_left _ (mem_append_left _ hm))
  simp only [destroy, queue_eq hc, hclose, bind, Except.bind, pure, Except.pure]

/-- The pipe is deleted with the queue it reads from. -/
theorem handles_pipeTermAck (hu : c.Usable) (hsent : c.sent = [])
    (hs : c.pipe.state = .termReqSent1 ∨
      ((c.pipe.state = .termAckSent ∨ c.pipe.state = .termReqSent2) ∧ c.pipe.outPipe = none)) :
    c.Handles .pipeTermAck c.processPipeTermAck := by
  obtain ⟨queue, hc, hok⟩ := hu.inQueue
  rcases hs with hs | ⟨hs, hout⟩
  · have heq : c.processPipeTermAck = (c.notify.ack .termReqSent1).destroy := by
      simp only [processPipeTermAck, hs]
    refine ⟨_, heq.trans (destroy_eq hc hok), ?_⟩
    show Handled _ _ _ { c.pipe.endpoint with
      state := .termReqSent1, outPipe := none, notified := _, deleted := true } _ (c.sent ++ _)
    rw [hsent, ← hs]
    exact .deleteAsked hs
  have heq : c.processPipeTermAck = c.notify.destroy := by
    rcases hs with hs | hs <;> simp only [processPipeTermAck, hs]
  refine ⟨_, heq.trans (destroy_eq hc hok), ?_⟩
  show Handled _ _ _ { c.pipe.endpoint with
    outPipe := c.pipe.outPipe, notified := _, deleted := true } _ c.sent
  rw [hsent, hout]
  exact .delete hs

/-! ### Steps -/

/-- Every call of an owner has a known effect. -/
theorem does_method (hu : c.Usable) (hsent : c.sent = []) (a : PipeAction) :
    c.Does (PipePair.method a c) := by
  cases a with
  | write m => exact does_write hu hsent m
  | rollback => exact does_rollback hu hsent
  | flush => exact does_flush hu hsent
  | checkWrite => exact does_checkWrite hsent
  | checkRead => exact does_checkRead hu hsent
  | read => exact does_read hu hsent
  | setNodelay => exact does_nothing hsent rfl
  | terminate delay =>
    obtain ⟨c', heq, he, -⟩ := does_terminate hu hsent delay
    exact ⟨c', heq, he⟩
  | hiccupTerminate =>
    obtain ⟨c', heq, he, -⟩ := does_hiccupTerminate hu hsent
    exact ⟨c', heq, he⟩
  | deliver => exact does_nothing hsent rfl

end PipeCall

end ServerLink

import ServerLink.Lib.CreditWindow
import ServerLink.Pipe.Termination

/-!
# ServerLink.Pipe.FlowControl

Flow control between two active pipe ends. One end writes with the limit `_hwm`; the other
reads and reports its count every `_lwm` messages, half the same limit. The counters of the
two ends and the reports on their way form a `Window`, and every step of the pair is a step
of it, as long as nobody terminates the pipe.
-/

namespace ServerLink

open PipeCall FlushQueue CheckedRun Arena

variable {queue : Queue}

/-- The counts reported by the commands in an inbox. -/
def reports : List Command → List Int
  | [] => []
  | .activateWrite n :: cs => n :: reports cs
  | _ :: cs => reports cs

@[simp] theorem reports_append (xs ys : List Command) :
    reports (xs ++ ys) = reports xs ++ reports ys := by
  induction xs with
  | nil => rfl
  | cons c cs ih => cases c <;> simp [reports, ih]

@[simp] theorem reports_wakeUp (woken : Bool) : reports (wakeUp woken) = [] := by
  cases woken <;> rfl

/-- How many of the messages count. -/
def countAll : List Msg → Int
  | [] => 0
  | m :: ms => count m + countAll ms

@[simp] theorem countAll_append (xs ys : List Msg) :
    countAll (xs ++ ys) = countAll xs + countAll ys := by
  induction xs with
  | nil => simp [countAll]
  | cons m ms ih => simp [countAll, ih, Int.add_assoc]

/-- The messages of a queue that count and have not been read: those that are complete,
published or not. -/
def unread (queue : Queue) : Int := countAll (queue.flushed ++ queue.pending)

/-- The window between a writing and a reading end. -/
def window (w r : PipeEnd) : Window where
  written := w.pipe.msgsWritten
  acked := w.pipe.peersMsgsRead
  reports := reports w.inbox
  read := r.pipe.msgsRead
  stopped := !w.pipe.outActive

/-- What holds of an end `w` that writes with the given limit to an end `r`. -/
structure Flow (limit : Int) (w r : PipeEnd) (h : Arena Queue) : Prop where
  ok : (window w r).Ok limit (Pipe.computeLwm limit) (2 ^ 64)
  hwm : w.pipe.hwm = limit
  lwm : r.pipe.lwm = Pipe.computeLwm limit
  counted : ∀ queue, h.cell r.pipe.inPipe = some queue →
    unread queue = w.pipe.msgsWritten - r.pipe.msgsRead
  plain : ∀ queue, h.cell r.pipe.inPipe = some queue →
    ∀ m ∈ queue.items, m.isCredential = false

/-- The queue between a writing and a reading end holds as many complete messages as the
counters say, and no credentials. -/
structure Metered (w r : PipeEnd) (h : Arena Queue) : Prop where
  counted : ∀ queue, h.cell r.pipe.inPipe = some queue →
    unread queue = w.pipe.msgsWritten - r.pipe.msgsRead
  plain : ∀ queue, h.cell r.pipe.inPipe = some queue →
    ∀ m ∈ queue.items, m.isCredential = false

theorem Flow.metered {limit : Int} {w r : PipeEnd} {h : Arena Queue} (hf : Flow limit w r h) :
    Metered w r h := ⟨hf.counted, hf.plain⟩

/-- The ends `w` and `r` become `w'` and `r'`: their window makes a step, with the limits
the pipes have. -/
structure Moved (w r w' r' : PipeEnd) (h' : Arena Queue) : Prop where
  metered : Metered w' r' h'
  step : Window.Step w.pipe.hwm r.pipe.lwm (2 ^ 64) (window w r) (window w' r')
  hwm : w'.pipe.hwm = w.pipe.hwm
  lwm : r'.pipe.lwm = r.pipe.lwm

namespace PipeCall

/-- What a call that has nothing to do with termination does to an active pipe, the
counters included. -/
inductive FlowEffect (c : PipeCall) : PipeCall → Prop
  | nothing {inActive delay : Bool} :
      FlowEffect c { c with pipe := { c.pipe with inActive, delay } }
  | refused (ho : c.pipe.outActive = true) (hh : c.pipe.checkHwm = false) :
      FlowEffect c { c with pipe := { c.pipe with outActive := false } }
  | wrote {q : QueueId} {queue : Queue} {m : Msg} (hq : c.pipe.outPipe = some q)
      (hc : c.heap.cell q = some queue) (ho : c.pipe.outActive = true)
      (hh : c.pipe.checkHwm = true) (hm : m.isCredential = false) :
      FlowEffect c { c with
        pipe := { c.pipe with msgsWritten := c.pipe.msgsWritten + count m }
        heap := c.heap.set q (queue.write m m.more) }
  /-- The outbound queue changes, but not what is complete in it. -/
  | kept {q : QueueId} {queue queue' : Queue} {woken : Bool} (hq : c.pipe.outPipe = some q)
      (hc : c.heap.cell q = some queue) (hu : unread queue' = unread queue)
      (hi : ∀ m ∈ queue'.items, m ∈ queue.items) :
      FlowEffect c { c with heap := c.heap.set q queue', sent := c.sent ++ wakeUp woken }
  /-- There is nothing to read but credentials. -/
  | slept {queue : Queue} (hc : c.heap.cell c.pipe.inPipe = some queue)
      (hf : ∀ m ∈ queue.flushed, m.isCredential = true) :
      FlowEffect c { c with
        pipe := { c.pipe with inActive := false }
        heap := c.heap.set c.pipe.inPipe { queue with flushed := [], asleep := true } }
  | read {queue : Queue} {popped rest : List Msg} {m : Msg}
      (hc : c.heap.cell c.pipe.inPipe = some queue)
      (hf : queue.flushed = popped ++ m :: rest) (hp : ∀ m ∈ popped, m.isCredential = true) :
      FlowEffect c ((c.setQueue c.pipe.inPipe { queue with flushed := rest }).countRead m)

/-- A plain call keeps the state of the pipe. -/
theorem FlowEffect.status {c c' : PipeCall} (he : FlowEffect c c') :
    c'.pipe.endpoint.status = c.pipe.endpoint.status := by
  cases he <;> rfl

/-- The pipe is active, and nothing in its inbound queue ends it. -/
structure Active (c : PipeCall) : Prop extends Usable c where
  active : c.pipe.state = .active
  undelimited : ∀ queue, c.heap.cell c.pipe.inPipe = some queue → NoDelimiter queue.items
  sent : c.sent = []

variable {c : PipeCall}

theorem unread_flush (queue : Queue) : unread queue.flush.2 = unread queue := by
  simp [unread, flush_flushed, flush_pending]

/-- `check_write` at most notes that the pipe is full. -/
theorem flow_checkWrite (hs : c.pipe.state = .active) : FlowEffect c c.checkWrite.2 := by
  rcases c.checkWrite_cases with ⟨h, -⟩ | ⟨act, h, hfull, hstop⟩
  · rw [h]
    exact .nothing
  rw [h]
  cases ho : c.pipe.outActive with
  | true =>
    obtain ⟨hh, rfl⟩ := hfull ho hs
    exact .refused ho hh
  | false =>
    obtain rfl := hstop ho
    rw [← ho]
    exact .nothing

theorem flow_rollback {q : QueueId} (hq : c.pipe.outPipe = some q)
    (hc : c.heap.cell q = some queue) : FlowEffect c (c.setQueue q queue.unwriteAll.2) := by
  have hk : FlowEffect c { c with
      heap := c.heap.set q queue.unwriteAll.2, sent := c.sent ++ wakeUp false } :=
    .kept hq hc rfl fun m hm => items_unwriteAll hm
  simpa [setQueue, wakeUp] using hk

theorem flow_checkRead (ha : c.Active) :
    ∃ c', c.checkRead.map Prod.snd = .ok c' ∧ FlowEffect c c' := by
  by_cases hr : c.pipe.inActive = true ∧ c.pipe.reading = true
  · obtain ⟨hact, hr⟩ := hr
    obtain ⟨queue, hc, hok⟩ := ha.inQueue
    rw [checkRead_eq hact hr hc]
    cases hf : queue.flushed with
    | nil => exact ⟨_, rfl, .slept hc (by simp [hf])⟩
    | cons m rest =>
      have hm : m.isDelimiter = false :=
        ha.undelimited queue hc m (by simp [items, hf])
      simp only [hm, Bool.false_eq_true, if_false]
      refine ⟨_, rfl, ?_⟩
      rw [setQueue, set_self hc]
      exact .nothing
  · simp only [checkRead, not_readable hr, if_true, Except.map]
    exact ⟨_, rfl, .nothing⟩

theorem flow_read (ha : c.Active) : ∃ c', c.read.map Prod.snd = .ok c' ∧ FlowEffect c c' := by
  by_cases hr : c.pipe.inActive = true ∧ c.pipe.reading = true
  · obtain ⟨hact, hr⟩ := hr
    obtain ⟨queue, hc, hok⟩ := ha.inQueue
    have hvalid : ∀ m ∈ queue.flushed, m.check = true := fun m hm =>
      hok.valid m (by simp [items, hm])
    obtain ⟨popped, flushed, hf, hcred, hskip⟩ := skipCredentials_ok hvalid
    rw [read_eq hact hr hc hskip]
    cases flushed with
    | nil => exact ⟨_, rfl, .slept hc (by simpa [hf] using hcred)⟩
    | cons m rest =>
      have hm : m.isDelimiter = false :=
        ha.undelimited queue hc m (by simp [items, hf])
      simp only [hm, Bool.false_eq_true, if_false]
      exact ⟨_, rfl, .read hc hf hcred⟩
  · simp only [read, not_readable hr, if_true, Except.map]
    exact ⟨_, rfl, .nothing⟩

/-- Every plain call has one of these effects. -/
theorem flow_method (ha : c.Active) {a : PipeAction} (hp : a.Plain) :
    ∃ c', PipePair.method a c = .ok c' ∧ FlowEffect c c' := by
  have hne : c.pipe.state ≠ .termAckSent := by simp [ha.active]
  obtain ⟨q, hq⟩ := ha.outSome hne (by simp [ha.active])
  obtain ⟨queue, hc, hok⟩ := ha.outQueue hq
  cases a with
  | write m =>
    have hflow := flow_checkWrite ha.active
    rcases c.checkWrite_cases with ⟨hw, ho, -, hh⟩ | ⟨act, hw, -⟩
    · have heq : PipePair.method (.write m) c = .ok _ :=
        congrArg (Except.map Prod.snd) (write_eq hw hq hc m.msg)
      exact ⟨_, heq, .wrote hq hc ho hh hp⟩
    · refine ⟨c.checkWrite.2, ?_, hflow⟩
      simp [PipePair.method, write, hw, Except.map]
  | rollback => exact ⟨_, rollback_eq hq hc hok, flow_rollback hq hc⟩
  | flush => exact ⟨_, flush_eq hne hq hc, .kept hq hc (unread_flush queue) (by simp)⟩
  | checkWrite => exact ⟨_, rfl, flow_checkWrite ha.active⟩
  | checkRead => exact flow_checkRead ha
  | read => exact flow_read ha
  | setNodelay => exact ⟨_, rfl, .nothing⟩
  | deliver => exact ⟨_, rfl, .nothing⟩
  | terminate delay => exact absurd hp (by simp [PipeAction.Plain])
  | hiccupTerminate => exact absurd hp (by simp [PipeAction.Plain])

end PipeCall

/-! ### The counts -/

theorem count_cases (m : Msg) : count m = 0 ∨ count m = 1 := by
  unfold count
  split <;> simp

theorem countAll_nonneg (ms : List Msg) : 0 ≤ countAll ms := by
  induction ms with
  | nil => exact Int.le_refl 0
  | cons m ms ih =>
    rw [countAll]
    rcases count_cases m with h | h <;> omega

/-- The parts of a message that is not complete do not count. -/
theorem countAll_parts {ms : List Msg} (h : ∀ m ∈ ms, m.more = true) : countAll ms = 0 := by
  induction ms with
  | nil => rfl
  | cons m ms ih =>
    rw [countAll, ih fun m hm => h m (List.mem_cons_of_mem _ hm)]
    simp [count, h m (by simp)]

theorem unread_write (hok : QueueOk queue) (m : Msg) :
    unread (queue.write m m.more) = unread queue + count m := by
  cases hm : m.more with
  | true => simp [unread, FlushQueue.write, count, hm]
  | false =>
    have hparts := countAll_parts hok.parts
    simp only [unread, FlushQueue.write, Bool.false_eq_true, if_false, countAll_append, countAll]
    omega

theorem unread_pop {m : Msg} {rest : List Msg} (hf : queue.flushed = m :: rest) (asleep : Bool) :
    unread queue = unread { queue with flushed := rest, asleep } + count m ∧
      count m ≤ unread queue := by
  have hnonneg := countAll_nonneg (rest ++ queue.pending)
  simp only [unread, hf, List.cons_append, countAll] at hnonneg ⊢
  omega

section Limit

variable {limit : Int} {w r : PipeEnd} {h : Arena Queue}

theorem computeLwm_pos (hl : 0 < limit) : 0 < Pipe.computeLwm limit := by
  rw [Pipe.computeLwm, Int.tdiv_eq_ediv_of_nonneg (by omega)]
  omega

theorem computeLwm_le (hl : 0 < limit) : Pipe.computeLwm limit ≤ limit := by
  rw [Pipe.computeLwm, Int.tdiv_eq_ediv_of_nonneg (by omega)]
  omega

/-- The difference `check_hwm` computes does not wrap. -/
theorem Flow.diff (hf : Flow limit w r h) (hlt : limit < 2 ^ 31 - 1) :
    0 ≤ w.pipe.msgsWritten - w.pipe.peersMsgsRead ∧
      (w.pipe.msgsWritten - w.pipe.peersMsgsRead) % 2 ^ 64 =
        w.pipe.msgsWritten - w.pipe.peersMsgsRead := by
  have h1 : w.pipe.peersMsgsRead ≤ r.pipe.msgsRead := hf.ok.reported _ (by simp [window])
  have h2 : r.pipe.msgsRead ≤ w.pipe.msgsWritten := hf.ok.read_le
  have h3 : w.pipe.msgsWritten - w.pipe.peersMsgsRead ≤ limit := hf.ok.window
  refine ⟨by omega, Int.emod_eq_of_lt (by omega) ?_⟩
  omega

/-- The window makes a step: the limit is kept. -/
theorem Flow.moved (hf : Flow limit w r h) (hl : 0 < limit) (hlt : limit < 2 ^ 31 - 1)
    {w' r' : PipeEnd} {h' : Arena Queue} (hs : Moved w r w' r' h') : Flow limit w' r' h' where
  ok := by
    have hstep := hs.step
    rw [hf.hwm, hf.lwm] at hstep
    exact hf.ok.step hl (computeLwm_pos hl) (by omega) hstep
  hwm := hs.hwm.trans hf.hwm
  lwm := hs.lwm.trans hf.lwm
  counted := hs.metered.counted
  plain := hs.metered.plain

end Limit

section Steps

variable {w r : PipeEnd} {h : Arena Queue}

/-- `check_hwm` compares the difference of the counters with a positive limit. -/
theorem checkHwm_eq_true (p : Pipe) :
    p.checkHwm = true ↔ (0 < p.hwm → (p.msgsWritten - p.peersMsgsRead) % 2 ^ 64 < p.hwm) := by
  simp only [Pipe.checkHwm, Bool.not_eq_true', Bool.and_eq_false_iff, decide_eq_false_iff_not,
    ge_iff_le, gt_iff_lt, Int.not_le]
  by_cases hpos : 0 < p.hwm <;> simp [hpos]

theorem checkHwm_eq_false (p : Pipe) :
    p.checkHwm = false ↔ 0 < p.hwm ∧ p.hwm ≤ (p.msgsWritten - p.peersMsgsRead) % 2 ^ 64 := by
  rw [← Bool.not_eq_true, checkHwm_eq_true]
  simp

theorem reports_report (lwm n : Int) : reports (report lwm n) = Window.report (2 ^ 64) lwm n := by
  simp only [report, Window.report, Window.due, Bool.and_eq_true, decide_eq_true_eq,
    gt_iff_lt, beq_iff_eq]
  by_cases hpos : 0 < lwm
  · simp only [hpos, true_and, if_true]
    split <;> rfl
  · simp only [hpos, false_and, if_false, reports]

/-- What does not concern the window: commands that report nothing, and changes of the
reading end outside its count and its inbound queue. -/
theorem Metered.frame (hm : Metered w r h) {r' : PipeEnd} {cs : List Command}
    {h' : Arena Queue} (hcs : reports cs = []) (hread : r'.pipe.msgsRead = r.pipe.msgsRead)
    (hlwm : r'.pipe.lwm = r.pipe.lwm) (hin : r'.pipe.inPipe = r.pipe.inPipe)
    (hc : h'.cell r.pipe.inPipe = h.cell r.pipe.inPipe) :
    Moved w r { w with inbox := w.inbox ++ cs } r' h' where
  metered := by
    refine ⟨fun queue hq => ?_, fun queue hq => ?_⟩
    · rw [hin, hc] at hq
      rw [hread]
      exact hm.counted queue hq
    · rw [hin, hc] at hq
      exact hm.plain queue hq
  step := by
    have heq : window { w with inbox := w.inbox ++ cs } r' = window w r := by
      simp [window, hcs, hread]
    rw [heq]
    exact .same
  hwm := rfl
  lwm := hlwm

theorem Metered.write (hm : Metered w r h) (hout : w.pipe.outPipe = some r.pipe.inPipe)
    (hin : r.pipe.inPipe ≠ w.pipe.inPipe)
    (hok : ∀ queue, h.cell r.pipe.inPipe = some queue → QueueOk queue) {c : PipeCall}
    (he : PipeCall.FlowEffect { pipe := w.pipe, heap := h } c) :
    Moved w r { w with pipe := c.pipe } { r with inbox := r.inbox ++ c.sent } c.heap := by
  cases he with
  | nothing => exact ⟨⟨hm.counted, hm.plain⟩, .same, rfl, rfl⟩
  | refused ho hh =>
    obtain ⟨hl, hfull⟩ := (checkHwm_eq_false _).mp hh
    exact ⟨⟨hm.counted, hm.plain⟩, .stop hl hfull, rfl, rfl⟩
  | @wrote q queue m hq hc ho hh hcred =>
    cases hout.symm.trans hq
    have hrun : (window w r).stopped = false := congrArg not ho
    refine ⟨⟨fun queue' hc' => ?_, fun queue' hc' m' hm' => ?_⟩,
      .write (count_cases m) ((checkHwm_eq_true _).mp hh) hrun, rfl, rfl⟩
    · obtain rfl : queue.write m m.more = queue' := by simpa using hc'
      rw [unread_write (hok queue hc), hm.counted queue hc]
      show _ = w.pipe.msgsWritten + _ - r.pipe.msgsRead
      omega
    obtain rfl : queue.write m m.more = queue' := by simpa using hc'
    rw [items_write, List.mem_append, List.mem_singleton] at hm'
    rcases hm' with hm' | rfl
    · exact hm.plain queue hc m' hm'
    · exact hcred
  | @kept q queue queue' woken hq hc hu hi =>
    cases hout.symm.trans hq
    refine ⟨⟨fun queue1 hc1 => ?_, fun queue1 hc1 m hm' => ?_⟩, .same, rfl, rfl⟩
    · obtain rfl : queue' = queue1 := by simpa using hc1
      exact hu.trans (hm.counted queue hc)
    · obtain rfl : queue' = queue1 := by simpa using hc1
      exact hm.plain queue hc m (hi m hm')
  | slept hc hcred =>
    refine ⟨⟨fun queue1 hc1 => hm.counted queue1 ?_, fun queue1 hc1 => hm.plain queue1 ?_⟩,
      .same, rfl, rfl⟩
    all_goals rwa [cell_set_of_ne h _ hin] at hc1
  | read hc hfl hp =>
    refine ⟨⟨fun queue1 hc1 => hm.counted queue1 ?_, fun queue1 hc1 => hm.plain queue1 ?_⟩,
      .same, rfl, rfl⟩
    all_goals exact (cell_set_of_ne h _ hin).symm.trans hc1

theorem Metered.popped_nil (hm : Metered w r h) {popped rest : List Msg}
    (hc : h.cell r.pipe.inPipe = some queue) (hf : queue.flushed = popped ++ rest)
    (hp : ∀ m ∈ popped, m.isCredential = true) : popped = [] := by
  refine List.eq_nil_iff_forall_not_mem.mpr fun m hmem => ?_
  have hplain := hm.plain queue hc m (by simp [items, hf, hmem])
  simp [hp m hmem] at hplain

theorem Metered.read (hm : Metered w r h) (hout : r.pipe.outPipe = some w.pipe.inPipe)
    (hin : r.pipe.inPipe ≠ w.pipe.inPipe) {c : PipeCall}
    (he : PipeCall.FlowEffect { pipe := r.pipe, heap := h } c) :
    Moved w r { w with inbox := w.inbox ++ c.sent } { r with pipe := c.pipe } c.heap := by
  cases he with
  | nothing => exact hm.frame rfl rfl rfl rfl rfl
  | refused ho hh => exact hm.frame rfl rfl rfl rfl rfl
  | @wrote q queue m hq hc ho hh hcred =>
    cases hout.symm.trans hq
    exact hm.frame rfl rfl rfl rfl (cell_set_of_ne h _ hin)
  | @kept q queue queue' woken hq hc hu hi =>
    cases hout.symm.trans hq
    exact hm.frame (reports_wakeUp woken) rfl rfl rfl (cell_set_of_ne h _ hin)
  | @slept queue hc hcred =>
    have hall : queue.flushed = queue.flushed ++ [] := (List.append_nil _).symm
    have hempty := hm.popped_nil hc hall hcred
    refine ⟨⟨fun queue1 hc1 => ?_, fun queue1 hc1 m hm' => ?_⟩, ?_, rfl, rfl⟩
    · obtain rfl : ({ queue with flushed := [], asleep := true } : Queue) = queue1 :=
        Option.some.inj ((cell_set h _ _).symm.trans hc1)
      rw [← hm.counted queue hc]
      simp [unread, hempty]
    · obtain rfl : ({ queue with flushed := [], asleep := true } : Queue) = queue1 :=
        Option.some.inj ((cell_set h _ _).symm.trans hc1)
      exact hm.plain queue hc m (items_pop (List.append_nil _).symm true hm')
    · simpa [window] using Window.Step.same
  | @read queue popped rest m hc hfl hp =>
    obtain rfl := hm.popped_nil hc hfl hp
    have hpop := unread_pop hfl queue.asleep
    have hun := hm.counted queue hc
    refine ⟨⟨fun queue1 hc1 => ?_, fun queue1 hc1 m hm' => ?_⟩, ?_, rfl, rfl⟩
    · obtain rfl : ({ queue with flushed := rest } : Queue) = queue1 :=
        Option.some.inj ((cell_set h _ _).symm.trans hc1)
      show unread _ = w.pipe.msgsWritten - (r.pipe.msgsRead + count _)
      omega
    · obtain rfl : ({ queue with flushed := rest } : Queue) = queue1 :=
        Option.some.inj ((cell_set h _ _).symm.trans hc1)
      have hfl' : queue.flushed = [_] ++ rest := hfl
      exact hm.plain queue hc m (items_pop hfl' queue.asleep hm')
    have hle : (window w r).read + count m ≤ (window w r).written := by
      show r.pipe.msgsRead + _ ≤ w.pipe.msgsWritten
      omega
    have hread : Window.Step w.pipe.hwm r.pipe.lwm (2 ^ 64) (window w r) _ :=
      .read (count_cases m) hle
    simpa only [window, countRead, setQueue, List.nil_append,
      reports_append, reports_report] using hread

end Steps

namespace PipePair

variable {s : PipePair}
variable {s' : PipePair} {n : Int}

/-! ### Steps -/

/-- Two active ends, seen from the first: nothing of the termination protocol is on its way
to it, and it writes to the queue the other reads from. -/
structure Quiet (s : PipePair) : Prop where
  inbox : termCommands s.first.inbox = []
  active : s.first.pipe.deleted = false ∧ s.first.pipe.state = .active
  out : s.first.pipe.outPipe = some s.second.pipe.inPipe
  ne : s.second.pipe.inPipe ≠ s.first.pipe.inPipe

theorem Inv.quiet (hi : s.Inv) (hidle : s.Idle) : s.Quiet where
  inbox := (hi.symm.linked_of_active (hidle .second)).active_peer.1
  active := Endpoint.status_eq_some.mp (hidle .first)
  out := hi.out_of_active (hidle .first) (hidle .second)
  ne := hi.in_ne (Endpoint.status_eq_some.mp (hidle .first)).1
    (Endpoint.status_eq_some.mp (hidle .second)).1

theorem Inv.activeCall (hi : s.Inv) (hidle : s.Idle) :
    PipeCall.Active { pipe := s.first.pipe, heap := s.heap } where
  toUsable := hi.usable (hi.quiet hidle).active.1
  active := (hi.quiet hidle).active.2
  undelimited := (hi.undelimited (hidle .first) (hidle .second)).1
  sent := rfl

/-- The windows of both directions survive the change from `s` to `s'`. -/
def KeepsFlow (s s' : PipePair) : Prop :=
  ∀ limit, 0 < limit → limit < 2 ^ 31 - 1 →
    (Flow limit s.first s.second s.heap → Flow limit s'.first s'.second s'.heap) ∧
    (Flow limit s.second s.first s.heap → Flow limit s'.second s'.first s'.heap)

theorem idle_of_first (hidle : s.Idle)
    (h1 : s'.first.pipe.endpoint.status = s.first.pipe.endpoint.status)
    (h2 : s'.second.pipe.endpoint.status = s.second.pipe.endpoint.status) : s'.Idle := by
  intro x
  cases x with
  | first => exact h1.trans (hidle .first)
  | second => exact h2.trans (hidle .second)

/-- The change from `s` to `s'` is a step of the windows of both directions. -/
def Moves (s s' : PipePair) : Prop :=
  (Metered s.first s.second s.heap → Moved s.first s.second s'.first s'.second s'.heap) ∧
    (Metered s.second s.first s.heap → Moved s.second s.first s'.second s'.first s'.heap)

theorem Moves.keepsFlow (hm : Moves s s') : KeepsFlow s s' := fun _ hl hlt =>
  ⟨fun hf => hf.moved hl hlt (hm.1 hf.metered), fun hf => hf.moved hl hlt (hm.2 hf.metered)⟩

theorem Moves.refl (s : PipePair) : Moves s s :=
  ⟨fun hm => ⟨hm, .same, rfl, rfl⟩, fun hm => ⟨hm, .same, rfl, rfl⟩⟩

theorem Inv.moves_call (hi : s.Inv) (hidle : s.Idle) {a : PipeAction} (hp : a.Plain)
    (hs : s.call (method a) = .ok s') : s'.Idle ∧ Moves s s' := by
  obtain ⟨c, hm, he⟩ := flow_method (hi.activeCall hidle) hp
  have hq := hi.quiet hidle
  simp only [call, hm] at hs
  split at hs
  · cases hs
  · cases hs
    exact ⟨idle_of_first hidle he.status rfl, fun hf => hf.write hq.out hq.ne (hi.queues _) he,
      fun hf => hf.read hq.out hq.ne.symm he⟩

/-- An active pipe goes on writing when a report arrives. -/
theorem processActivateWrite_active {c : PipeCall} (hs : c.pipe.state = .active) (n : Int) :
    c.processActivateWrite n =
      { c with pipe := { c.pipe with peersMsgsRead := n, outActive := true } } := by
  cases ho : c.pipe.outActive <;> simp [processActivateWrite, hs, ho]

theorem processActivateRead_eq (c : PipeCall) :
    ∃ act, c.processActivateRead = { c with pipe := { c.pipe with inActive := act } } := by
  unfold processActivateRead
  split
  · exact ⟨true, rfl⟩
  · exact ⟨c.pipe.inActive, rfl⟩

theorem Inv.moves_deliver (hi : s.Inv) (hidle : s.Idle) {cmd : Command} {rest : List Command}
    (hinbox : s.first.inbox = cmd :: rest)
    (hs : s.stepFirst .deliver = .ok s') : s'.Idle ∧ Moves s s' := by
  have hq := hi.quiet hidle
  have hterm := hq.inbox
  simp only [PipePair.stepFirst, hinbox, hq.active.1, Bool.false_eq_true, if_false, call,
    processCommand] at hs
  cases cmd with
  | hiccup | pipeTerm | pipeTermAck => simp [hinbox, termCommands] at hterm
  | activateRead =>
    obtain ⟨act, hact⟩ := processActivateRead_eq { pipe := s.first.pipe, heap := s.heap }
    simp only [hact, List.isEmpty_nil, Bool.not_true, Bool.and_false, Bool.false_eq_true,
      if_false, List.append_nil] at hs
    cases hs
    refine ⟨idle_of_first hidle rfl rfl, fun hm => ⟨⟨hm.counted, hm.plain⟩, ?_, rfl, rfl⟩,
      fun hm => ⟨⟨hm.counted, hm.plain⟩, .same, rfl, rfl⟩⟩
    simpa only [window, hinbox, reports] using Window.Step.same
  | activateWrite n =>
    have hact : processActivateWrite { pipe := s.first.pipe, heap := s.heap } n = _ :=
      processActivateWrite_active hq.active.2 n
    simp only [hact, List.isEmpty_nil, Bool.not_true, Bool.and_false, Bool.false_eq_true, if_false,
      List.append_nil] at hs
    cases hs
    have hr : (window s.first s.second).reports = n :: reports rest := by
      simp [window, hinbox, reports]
    exact ⟨idle_of_first hidle rfl rfl, fun hm => ⟨⟨hm.counted, hm.plain⟩, .ack hr, rfl, rfl⟩,
      fun hm => ⟨⟨hm.counted, hm.plain⟩, .same, rfl, rfl⟩⟩

/-- Every plain step of the first end is a step of the windows. -/
theorem Inv.moves_stepFirst (hi : s.Inv) (hidle : s.Idle) {a : PipeAction} (hp : a.Plain)
    (hs : s.stepFirst a = .ok s') : s'.Idle ∧ Moves s s' := by
  by_cases hdel : a = .deliver
  · subst hdel
    cases hinbox : s.first.inbox with
    | nil =>
      simp only [PipePair.stepFirst, hinbox] at hs
      cases hs
      exact ⟨hidle, .refl s⟩
    | cons cmd rest => exact hi.moves_deliver hidle hinbox hs
  · rw [stepFirst_eq hdel, (hi.quiet hidle).active.1, if_neg Bool.false_ne_true] at hs
    exact hi.moves_call hidle hp hs

theorem Idle.swap (hidle : s.Idle) : s.swap.Idle := fun x => by
  rw [side_swap]
  exact hidle x.other

/-- Every plain step is a step of the windows. -/
theorem Inv.moves_step (hi : s.Inv) (hidle : s.Idle) {a : PipeSide × PipeAction} (hp : a.2.Plain) :
    ∃ s', s.step a = .ok s' ∧ s'.Inv ∧ s'.Idle ∧ Moves s s' := by
  obtain ⟨s', hs, hi', -⟩ := hi.step a
  refine ⟨s', hs, hi', ?_⟩
  obtain ⟨y, a⟩ := a
  cases y with
  | first => exact hi.moves_stepFirst hidle hp hs
  | second =>
    obtain ⟨s1, hs1, -, -⟩ := hi.swap.stepFirst a
    simp only [PipePair.step, hs1] at hs
    obtain rfl : s1.swap = s' := Except.ok.inj hs
    obtain ⟨hidle', hmoves⟩ := hi.swap.moves_stepFirst hidle.swap hp hs1
    exact ⟨hidle'.swap, hmoves.2, hmoves.1⟩

/-! ### Runs -/

/-- The limit the end on a side writes with. -/
def limit (hwm0 hwm1 : Int) : PipeSide → Int
  | .first => hwm0
  | .second => hwm1

/-- The invariant of plain runs, for the direction in which side `x` writes. -/
structure FlowInv (n : Int) (x : PipeSide) (s : PipePair) : Prop where
  inv : s.Inv
  idle : s.Idle
  flow : Flow n (s.side x) (s.side x.other) s.heap

/-- Whichever side acts, the writer stays within its credit. -/
theorem FlowInv.step {x : PipeSide} (hf : FlowInv n x s) (hl : 0 < n) (hlt : n < 2 ^ 31 - 1)
    {a : PipeSide × PipeAction} (hp : a.2.Plain) :
    ∃ s', s.step a = .ok s' ∧ FlowInv n x s' := by
  obtain ⟨s', hs, hi', hidle', hmoves⟩ := hf.inv.moves_step hf.idle hp
  obtain ⟨h1, h2⟩ := hmoves.keepsFlow n hl hlt
  refine ⟨s', hs, hi', hidle', ?_⟩
  cases x with
  | first => exact h1 hf.flow
  | second => exact h2 hf.flow

theorem flow_new {i o : QueueId} {inhwm outhwm : Int} {h : Arena Queue} (hl : 0 < n)
    (hc : h.cell o = some {}) :
    Flow n { pipe := Pipe.new i o inhwm n } { pipe := Pipe.new o i n outhwm } h where
  ok := by
    refine ⟨List.pairwise_singleton _ _, ?_, Int.le_refl _, ?_, ?_, ?_⟩
    · simp [window, Pipe.new, reports]
    · simp [window, Pipe.new, Int.le_of_lt hl]
    · simp [window, Pipe.new]
    · simp [window, Pipe.new, Window.lastReport, reports]
  hwm := rfl
  lwm := rfl
  counted queue hq := by
    obtain rfl : {} = queue := Option.some.inj (hc.symm.trans hq)
    rfl
  plain queue hq := by
    obtain rfl : {} = queue := Option.some.inj (hc.symm.trans hq)
    simp [items]

theorem flowInv_new (hwm0 hwm1 : Int) (x : PipeSide) (hl : 0 < limit hwm0 hwm1 x) :
    FlowInv (limit hwm0 hwm1 x) x (new hwm0 hwm1) where
  inv := inv_new hwm0 hwm1
  idle y := by cases y <;> rfl
  flow := by
    cases x with
    | first => exact flow_new hl rfl
    | second => exact flow_new hl rfl

theorem flowInv_run {hwm0 hwm1 : Int} {x : PipeSide} (hl : 0 < limit hwm0 hwm1 x)
    (hlt : limit hwm0 hwm1 x < 2 ^ 31 - 1) {acts : List (PipeSide × PipeAction)}
    (hp : ∀ a ∈ acts, a.2.Plain) :
    ∃ s, run step (new hwm0 hwm1) acts = .ok s ∧ FlowInv (limit hwm0 hwm1 x) x s :=
  run_ok_of_step (fun _ _ hf ha => hf.step hl hlt ha)
    (flowInv_new hwm0 hwm1 x hl) (along_of_forall hp _)

/-- What the counters of a writing end `w` and a reading end `r` say: the complete messages
not read yet are within the limit; every count reported, seen by the writer or on its way,
is at most the reader's, which is at most the writer's; and the unsigned difference of
`check_hwm` is the true one. -/
structure WithinLimit (n : Int) (w r : PipeEnd) (h : Arena Queue) : Prop where
  unread_le : ∃ queue, h.cell r.pipe.inPipe = some queue ∧ unread queue ≤ n
  reported : ∀ k ∈ w.pipe.peersMsgsRead :: reports w.inbox, k ≤ r.pipe.msgsRead
  read_le : r.pipe.msgsRead ≤ w.pipe.msgsWritten
  no_wrap : (w.pipe.msgsWritten - w.pipe.peersMsgsRead) % 2 ^ 64 =
    w.pipe.msgsWritten - w.pipe.peersMsgsRead

/-- The writer is not refused for good: it may write, or a report is on its way after which
it may. -/
def Unblocked (w : PipeEnd) (h : Arena Queue) : Prop :=
  (checkWrite { pipe := w.pipe, heap := h }).1 = true ∨ ∃ n, .activateWrite n ∈ w.inbox ∧
      ((processActivateWrite { pipe := w.pipe, heap := h } n).checkWrite).1 = true

theorem mem_of_mem_reports {cs : List Command} (h : n ∈ reports cs) : .activateWrite n ∈ cs := by
  induction cs with
  | nil => simp [reports] at h
  | cons c cs ih =>
    cases c with
    | activateWrite k =>
      rcases List.mem_cons.mp h with rfl | h
      · simp
      · exact List.mem_cons_of_mem _ (ih h)
    | _ => exact List.mem_cons_of_mem _ (ih h)

theorem checkWrite_of_room {c : PipeCall} (ho : c.pipe.outActive = true)
    (hs : c.pipe.state = .active) (hh : c.pipe.hwm = n) (hlt : n < 2 ^ 31 - 1)
    (h0 : 0 ≤ c.pipe.msgsWritten - c.pipe.peersMsgsRead)
    (hroom : c.pipe.msgsWritten - c.pipe.peersMsgsRead < n) : c.checkWrite.1 = true := by
  have hmod : (c.pipe.msgsWritten - c.pipe.peersMsgsRead) % 2 ^ 64 =
      c.pipe.msgsWritten - c.pipe.peersMsgsRead := Int.emod_eq_of_lt h0 (by omega)
  have hhwm : c.pipe.checkHwm = true := by
    rw [Pipe.checkHwm, hmod, hh]
    simp [hroom]
  simp [checkWrite, ho, hs, hhwm]

/-- When everything complete was read, the writer is not blocked for good. -/
theorem unblocked_of_read {w r : PipeEnd} {h : Arena Queue} (hf : Flow n w r h)
    (hs : w.pipe.state = .active) (hl : 0 < n) (hlt : n < 2 ^ 31 - 1)
    (hall : r.pipe.msgsRead = w.pipe.msgsWritten) : Unblocked w h := by
  have hroom := hf.ok.room_after_reports (computeLwm_pos hl) (computeLwm_le hl) hall
  have hlast := hf.ok.lastReport_le
  change w.pipe.msgsWritten - _ < n at hroom
  change _ ≤ r.pipe.msgsRead at hlast
  rcases List.eq_nil_or_concat (reports w.inbox) with hr | ⟨rs, k, hr⟩
  · -- the writer knows the last report
    have hk : (window w r).lastReport = w.pipe.peersMsgsRead := by
      simp [Window.lastReport, window, hr]
    rw [hk] at hroom hlast
    have ho : w.pipe.outActive = true := by
      cases ho : w.pipe.outActive with
      | true => rfl
      | false =>
        have hfull : n ≤ w.pipe.msgsWritten - w.pipe.peersMsgsRead :=
          hf.ok.stopped (by simp [window, ho])
        omega
    have h0 : 0 ≤ w.pipe.msgsWritten - w.pipe.peersMsgsRead := by omega
    exact .inl (checkWrite_of_room ho hs hf.hwm hlt h0 hroom)
  · have hk : (window w r).lastReport = k := by simp [Window.lastReport, window, hr]
    rw [hk] at hroom hlast
    refine .inr ⟨k, mem_of_mem_reports (by simp [hr]), ?_⟩
    rw [processActivateWrite_active (c := { pipe := w.pipe, heap := h }) hs]
    have h0 : 0 ≤ w.pipe.msgsWritten - k := by omega
    exact checkWrite_of_room rfl hs hf.hwm hlt h0 hroom

theorem Inv.side_queue (hi : s.Inv) (hidle : s.Idle) (x : PipeSide) :
    ∃ queue, s.heap.cell (s.side x).pipe.inPipe = some queue := by
  have hd := (Endpoint.status_eq_some.mp (hidle x)).1
  cases x with
  | first => exact live_iff.mp (hi.in_live hd)
  | second => exact live_iff.mp (hi.symm.in_live hd)

/-- Flow control. Whatever a plain run does, the counters of the writing end `x` and of its
peer stay within the limit, and a writer is not blocked for good once every complete
message was published and read. -/
theorem flow_control (hwm0 hwm1 : Int) (x : PipeSide) (hl : 0 < limit hwm0 hwm1 x)
    (hlt : limit hwm0 hwm1 x < 2 ^ 31 - 1) (acts : List (PipeSide × PipeAction))
    (hp : ∀ a ∈ acts, a.2.Plain) :
    ∃ s, run step (new hwm0 hwm1) acts = .ok s ∧
      WithinLimit (limit hwm0 hwm1 x) (s.side x) (s.side x.other) s.heap ∧
      ((∃ queue, s.heap.cell (s.side x.other).pipe.inPipe = some queue ∧
          queue.flushed = [] ∧ queue.pending = []) → Unblocked (s.side x) s.heap) := by
  obtain ⟨s, hs, hf⟩ := flowInv_run hl hlt hp
  refine ⟨s, hs, ⟨?_, hf.flow.ok.reported, hf.flow.ok.read_le, (hf.flow.diff hlt).2⟩, ?_⟩
  · obtain ⟨queue, hc⟩ := hf.inv.side_queue hf.idle x.other
    refine ⟨queue, hc, ?_⟩
    have hwindow : (s.side x).pipe.msgsWritten - (s.side x).pipe.peersMsgsRead ≤ _ :=
      hf.flow.ok.window
    have hacked : (s.side x).pipe.peersMsgsRead ≤ (s.side x.other).pipe.msgsRead :=
      hf.flow.ok.reported _ (by simp [window])
    rw [hf.flow.counted queue hc]
    omega
  · rintro ⟨queue, hc, hfl, hpe⟩
    have hcount := hf.flow.counted queue hc
    have hzero : unread queue = 0 := by simp [unread, hfl, hpe, countAll]
    exact unblocked_of_read hf.flow (Endpoint.status_eq_some.mp (hf.idle x)).2 hl hlt (by omega)

/-- A message of one byte. -/
def byteMsg (b : UInt8) : OwnerMsg := ⟨Msg.initBuffer [b], rfl, rfl⟩

theorem flow_control_read :
    ∃ s, run step (new 1 1)
        [(.first, .write (byteMsg 7)), (.first, .flush), (.second, .read)] = .ok s ∧
      WithinLimit 1 s.first s.second s.heap := by
  obtain ⟨s, hs, hw, -⟩ := flow_control 1 1 .first (by decide) (by decide)
    [(.first, .write (byteMsg 7)), (.first, .flush), (.second, .read)]
    (by simp [PipeAction.Plain]; rfl)
  exact ⟨s, hs, hw⟩

/-- A writer that does not flush is refused while its reader has read everything
published, and no report is on its way. -/
theorem blocked_unflushed :
    ∃ s, run step (new 1 1)
        [(.first, .write (byteMsg 7)), (.first, .write (byteMsg 8)), (.second, .read)] = .ok s ∧
      s.heap.cell s.second.pipe.inPipe = some { pending := [(byteMsg 7).msg], asleep := true } ∧
      s.first.inbox = [] ∧
      (checkWrite { pipe := s.first.pipe, heap := s.heap }).1 = false := by
  refine ⟨_, rfl, ?_, ?_, ?_⟩ <;> decide

end PipePair

end ServerLink

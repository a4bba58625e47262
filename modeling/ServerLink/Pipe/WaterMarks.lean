import ServerLink.Pipe.FlowControl

/-!
# ServerLink.Pipe.WaterMarks

The high-water marks of an inproc pipe and how options change them (`set_hwms`,
`set_hwms_boost`, `update_pipe_options`). An option change touches only the end of the
socket it is made on: that end's limit as a writer and its reporting interval as a reader.
The limit and the interval of one direction therefore live on different ends and can drift
apart, and then a writer can be refused for good. The window of a direction says which
changes are harmless (`Window.Timely`).
-/

namespace ServerLink

open PipePair

/-- The options `sndhwm` and `rcvhwm` of a socket. -/
structure HwmOptions where
  sndhwm : Int := 1000
  rcvhwm : Int := 1000
  deriving Repr, DecidableEq

inductive HwmOption
  | sndhwm
  | rcvhwm
  deriving Repr, DecidableEq

/-- `options_t::setsockopt` for the two options: a negative value is refused. -/
def HwmOptions.setsockopt (o : HwmOptions) (opt : HwmOption) (value : Int) : HwmOptions :=
  if 0 ≤ value then
    match opt with
    | .sndhwm => { o with sndhwm := value }
    | .rcvhwm => { o with rcvhwm := value }
  else o

/-- The boosts of a pipe end; -1 stands for none. -/
structure HwmBoost where
  inHwmBoost : Int := -1
  outHwmBoost : Int := -1
  deriving Repr, DecidableEq

/-- A high-water mark with its boost: infinite, which is 0, if either side's is. The sum is
an `int` in the source. -/
def boosted (hwm boost : Int) : Int :=
  if hwm ≤ 0 ∨ boost = 0 then 0 else hwm + max boost 0

/-- `set_hwms`. -/
def Pipe.setHwms (p : Pipe) (b : HwmBoost) (inhwm outhwm : Int) : Pipe :=
  { p with
    lwm := Pipe.computeLwm (boosted inhwm b.inHwmBoost)
    hwm := boosted outhwm b.outHwmBoost }

/-- Change the pipe on one side. -/
def PipePair.mapPipe (s : PipePair) (f : Pipe → Pipe) : PipeSide → PipePair
  | .first => { s with first := { s.first with pipe := f s.first.pipe } }
  | .second => { s with second := { s.second with pipe := f s.second.pipe } }

/-- A pipe between two sockets of one process, with their options. The connecting socket
has the first end. -/
structure InprocPipe where
  pair : PipePair
  options : PipeSide → HwmOptions
  boosts : PipeSide → HwmBoost

/-- What the sockets do to the pipe: calls and deliveries that have nothing to do with
termination, and option changes. -/
inductive InprocAction
  | pipe (x : PipeSide) (a : PipeAction) (plain : a.Plain)
  | setsockopt (x : PipeSide) (opt : HwmOption) (value : Int)

namespace InprocPipe

/-- The pipe that `connect` makes when it has found the endpoint: `bound` are the options of the
other socket when it bound, `b` those it has now. Without the endpoint there is no pipe, since
`pipepair` is called with a null pointer for one of the parents. -/
def connected (c bound b : HwmOptions) : InprocPipe where
  pair := new c.sndhwm bound.rcvhwm
  options
    | .first => c
    | .second => b
  boosts
    | .first => { inHwmBoost := bound.sndhwm, outHwmBoost := bound.rcvhwm }
    | .second => { inHwmBoost := c.sndhwm, outHwmBoost := c.rcvhwm }

/-- `socket_base_t::setsockopt`: the pipes are updated whether or not the value was
accepted. -/
def setsockopt (s : InprocPipe) (x : PipeSide) (opt : HwmOption) (value : Int) : InprocPipe :=
  let o := (s.options x).setsockopt opt value
  { s with
    pair := s.pair.mapPipe (·.setHwms (s.boosts x) o.rcvhwm o.sndhwm) x
    options := Function.update s.options x o }

def step (s : InprocPipe) : InprocAction → Except Fault InprocPipe
  | .pipe x a _ => (s.pair.step (x, a)).map fun pair => { s with pair }
  | .setsockopt x opt value => .ok (s.setsockopt x opt value)

/-- The window of the direction in which side `x` writes. -/
def window (s : InprocPipe) (x : PipeSide) : Window :=
  ServerLink.window (s.pair.side x) (s.pair.side x.other)

/-- Side `x` is refused for good: every complete message was published and read, so that
reading produces no more reports, and neither now nor after any report on its way may it
write. -/
def Stalled (s : InprocPipe) (x : PipeSide) : Prop :=
  (∃ queue, s.pair.heap.cell (s.pair.side x.other).pipe.inPipe = some queue ∧
      queue.flushed = [] ∧ queue.pending = []) ∧
    ¬ Unblocked (s.pair.side x) s.pair.heap

/-- An option change is harmless: with the limit and the interval it sets on its end, and
those the other end has, the reader's next report comes within the writer's limit of the
last one, in both directions; and if the writer has stopped, and no report is on its way,
the reader's next report comes before it has read everything. -/
def Harmless (s : InprocPipe) : InprocAction → Prop
  | .pipe _ _ _ => True
  | .setsockopt x opt value =>
    (s.window x).Timely (boosted ((s.options x).setsockopt opt value).sndhwm
        (s.boosts x).outHwmBoost) (s.pair.side x.other).pipe.lwm (2 ^ 64) ∧
      (s.window x.other).Timely (s.pair.side x.other).pipe.hwm
        (Pipe.computeLwm (boosted ((s.options x).setsockopt opt value).rcvhwm
          (s.boosts x).inHwmBoost)) (2 ^ 64)

/-! ### The invariant -/

/-- What holds of the direction in which side `x` writes. -/
structure Flows (s : InprocPipe) (x : PipeSide) : Prop where
  metered : Metered (s.pair.side x) (s.pair.side x.other) s.pair.heap
  ordered : (s.window x).Ordered
  timely : (s.window x).Timely (s.pair.side x).pipe.hwm (s.pair.side x.other).pipe.lwm (2 ^ 64)

structure Inv (s : InprocPipe) : Prop where
  inv : s.pair.Inv
  idle : s.pair.Idle
  flows : ∀ x, s.Flows x

variable {s : InprocPipe}

/-- A step of the window keeps the direction flowing. -/
theorem Flows.moved {x : PipeSide} (h : s.Flows x) {s' : InprocPipe}
    (hm : Moved (s.pair.side x) (s.pair.side x.other) (s'.pair.side x) (s'.pair.side x.other)
      s'.pair.heap) : s'.Flows x where
  metered := hm.metered
  ordered := h.ordered.step hm.step
  timely := by
    rw [hm.hwm, hm.lwm]
    exact h.timely.step h.ordered (by decide) hm.step

theorem Inv.pipe (h : s.Inv) (x : PipeSide) {a : PipeAction} (plain : a.Plain) :
    ∃ s', s.step (.pipe x a plain) = .ok s' ∧ s'.Inv := by
  obtain ⟨pair, hs, hi, hidle, hmoves⟩ := h.inv.moves_step (a := (x, a)) h.idle plain
  refine ⟨{ s with pair }, by simp only [step, hs, Except.map], hi, hidle, fun y => ?_⟩
  cases y with
  | first => exact (h.flows .first).moved (hmoves.1 (h.flows .first).metered)
  | second => exact (h.flows .second).moved (hmoves.2 (h.flows .second).metered)

theorem Inv.setsockopt (h : s.Inv) {x : PipeSide} {opt : HwmOption} {value : Int}
    (hok : s.Harmless (.setsockopt x opt value)) : (s.setsockopt x opt value).Inv := by
  have h1 := h.flows .first
  have h2 := h.flows .second
  cases x with
  | first =>
    refine ⟨h.inv, fun y => ?_, fun y => ?_⟩
    · cases y with
      | first => exact h.idle .first
      | second => exact h.idle .second
    · cases y with
      | first => exact ⟨⟨h1.metered.counted, h1.metered.plain⟩, h1.ordered, hok.1⟩
      | second => exact ⟨⟨h2.metered.counted, h2.metered.plain⟩, h2.ordered, hok.2⟩
  | second =>
    refine ⟨h.inv, fun y => ?_, fun y => ?_⟩
    · cases y with
      | first => exact h.idle .first
      | second => exact h.idle .second
    · cases y with
      | first => exact ⟨⟨h1.metered.counted, h1.metered.plain⟩, h1.ordered, hok.2⟩
      | second => exact ⟨⟨h2.metered.counted, h2.metered.plain⟩, h2.ordered, hok.1⟩

/-- Only a change of a water mark can do harm. -/
theorem Inv.step (h : s.Inv) {a : InprocAction} (hok : s.Harmless a) :
    ∃ s', InprocPipe.step s a = .ok s' ∧ s'.Inv := by
  cases a with
  | pipe x a plain => exact h.pipe x plain
  | setsockopt x opt value => exact ⟨_, rfl, h.setsockopt hok⟩

/-! ### A new pipe -/

/-- In a new pipe the limit of each direction and its reader's interval come from the same
number. -/
theorem timely_new (hwm : Int) {w : Window} (hr : w.reports = []) (ha : w.acked = 0)
    (h0 : w.read = 0) (hrun : w.stopped = false) :
    w.Timely hwm (Pipe.computeLwm hwm) (2 ^ 64) where
  regular hl := by
    have hp := computeLwm_pos hl
    have hle := computeLwm_le hl
    refine ⟨hp, hle, ?_⟩
    have hdue : Window.DueBy (2 ^ 64) (Pipe.computeLwm hwm) 0 (0 + Pipe.computeLwm hwm) :=
      Window.dueBy_period 0 hp (by decide)
    obtain ⟨i, hlt, hi, hz⟩ := hdue
    exact ⟨i, by omega, by simp only [Window.lastReport, hr, List.getLastD_nil, ha]; omega, hz⟩
  waking hs := by simp [hrun] at hs

theorem ordered_new {w : Window} (hr : w.reports = []) (ha : w.acked = 0) (h0 : w.read = 0)
    (hw : w.written = 0) : w.Ordered where
  sorted := by simp [hr]
  reported := by simp [hr, ha, h0]
  read_le := by omega

theorem inv_new (hwm0 hwm1 : Int) (options : PipeSide → HwmOptions)
    (boosts : PipeSide → HwmBoost) : Inv ⟨PipePair.new hwm0 hwm1, options, boosts⟩ where
  inv := PipePair.inv_new hwm0 hwm1
  idle x := by cases x <;> rfl
  flows x := by
    have hcell : ∀ queue, some ({} : Queue) = some queue →
        unread queue = 0 - 0 ∧ ∀ m ∈ queue.items, m.isCredential = false := by
      intro queue hq
      cases hq
      exact ⟨rfl, by simp [FlushQueue.items]⟩
    cases x with
    | first =>
      exact ⟨⟨fun q hq => (hcell q hq).1, fun q hq => (hcell q hq).2⟩,
        ordered_new rfl rfl rfl rfl, timely_new hwm0 rfl rfl rfl rfl⟩
    | second =>
      exact ⟨⟨fun q hq => (hcell q hq).1, fun q hq => (hcell q hq).2⟩,
        ordered_new rfl rfl rfl rfl, timely_new hwm1 rfl rfl rfl rfl⟩

theorem inv_connected (c bound b : HwmOptions) : (connected c bound b).Inv := inv_new _ _ _ _

/-! ### No stall -/

/-- Without a wrong limit, an active pipe that has not stopped accepts. -/
theorem checkWrite_of_diff {c : PipeCall} (ho : c.pipe.outActive = true)
    (hs : c.pipe.state = .active)
    (hroom : 0 < c.pipe.hwm →
      (c.pipe.msgsWritten - c.pipe.peersMsgsRead) % 2 ^ 64 < c.pipe.hwm) :
    c.checkWrite.1 = true := by
  have hh := (checkHwm_eq_true c.pipe).mpr hroom
  simp [PipeCall.checkWrite, ho, hs, hh]

/-- When everything complete was read, a writer in a timely window is not refused for
good. -/
theorem Flows.unblocked {x : PipeSide} (h : s.Flows x) (hs : (s.pair.side x).pipe.state = .active)
    (hall : (s.pair.side x.other).pipe.msgsRead = (s.pair.side x).pipe.msgsWritten) :
    Unblocked (s.pair.side x) s.pair.heap := by
  have hroom := h.timely.room_after_reports h.ordered (by decide) hall
  rcases List.eq_nil_or_concat (reports (s.pair.side x).inbox) with hr | ⟨rs, k, hr⟩
  · -- the writer knows the last report, so it has not stopped
    have hrun := h.timely.running hall hr
    have hlast : (s.window x).lastReport = (s.pair.side x).pipe.peersMsgsRead := by
      simp [Window.lastReport, window, ServerLink.window, hr]
    rw [hlast] at hroom
    have hact : (s.pair.side x).pipe.outActive = true := by
      simpa [window, ServerLink.window] using hrun
    exact .inl (checkWrite_of_diff hact hs hroom)
  · have hlast : (s.window x).lastReport = k := by
      simp [Window.lastReport, window, ServerLink.window, hr]
    rw [hlast] at hroom
    refine .inr ⟨k, mem_of_mem_reports (by simp [hr]), ?_⟩
    rw [processActivateWrite_active (c := ⟨_, _, []⟩) hs]
    exact checkWrite_of_diff rfl hs hroom

theorem Inv.not_stalled (h : s.Inv) (x : PipeSide) : ¬ s.Stalled x := by
  rintro ⟨⟨queue, hc, hfl, hpe⟩, hblocked⟩
  have hf := h.flows x
  have hcount := hf.metered.counted queue hc
  have hzero : unread queue = 0 := by simp [unread, hfl, hpe, countAll]
  exact hblocked (hf.unblocked (Endpoint.status_eq_some.mp (h.idle x)).2 (by omega))

/-- Option changes that are harmless never stall a connection: in every run all of whose
option changes are, neither end is ever refused for good. -/
theorem not_stalled_of_harmless (c bound b : HwmOptions) {acts : List InprocAction}
    (hok : CheckedRun.Along InprocPipe.step Harmless (connected c bound b) acts) :
    ∃ s, CheckedRun.run InprocPipe.step (connected c bound b) acts = .ok s ∧
      ∀ x, ¬ s.Stalled x := by
  obtain ⟨s, hs, hinv⟩ := CheckedRun.run_ok_of_step (fun _ _ h ha => Inv.step h ha)
    (inv_connected c bound b) hok
  exact ⟨s, hs, hinv.not_stalled⟩

/-- With the default marks on both sides the sending socket may set half of them later. -/
theorem not_stalled_default_halved :
    ∃ s, CheckedRun.run InprocPipe.step (connected {} {} {})
        [.setsockopt .first .sndhwm 500, .pipe .first (.write (byteMsg 7)) rfl,
          .pipe .first .flush trivial, .pipe .second .read trivial] = .ok s ∧
      ∀ x, ¬ s.Stalled x := by
  refine not_stalled_of_harmless {} {} {} ⟨⟨⟨fun _ => ?_, ?_⟩, fun _ => ?_, ?_⟩,
    trivial, trivial, trivial, trivial⟩
  · exact ⟨by decide, by decide, 500, by decide, by decide, by decide⟩
  · intro hs
    cases hs
  · exact ⟨by decide, by decide, 1000, by decide, by decide, by decide⟩
  · intro hs
    cases hs

/-- The bound socket publishes; it was made for ten messages and lowers its mark, before
anything was sent. The reader, who still reports every five messages, has read both
messages that the new limit allows, nothing is on its way, and the next one is refused. -/
theorem stalled_of_decrease :
    ∃ s, CheckedRun.run InprocPipe.step
        (connected { sndhwm := 10, rcvhwm := 1 } { sndhwm := 4, rcvhwm := 10 }
          { sndhwm := 4, rcvhwm := 10 })
        [.setsockopt .second .sndhwm 1, .pipe .second (.write (byteMsg 7)) rfl,
          .pipe .second (.write (byteMsg 8)) rfl, .pipe .second .flush trivial,
          .pipe .first .read trivial, .pipe .first .read trivial] = .ok s ∧
      s.Stalled .second := by
  refine ⟨_, rfl, ⟨_, rfl, rfl, rfl⟩, ?_⟩
  rintro (hw | ⟨n, hn, -⟩)
  · exact absurd hw (by decide)
  · exact List.not_mem_nil hn

end InprocPipe

end ServerLink

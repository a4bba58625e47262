import ServerLink.Lib.MachineInt
import ServerLink.Pipe.WaterMarks

/-!
# ServerLink.Pipe.Capacity

How many messages an inproc connection holds. A direction is meant to hold the writer's `SNDHWM`
plus the reader's `RCVHWM`, and to be unlimited if one of them is 0. The pipe refuses at a total
count of its own (`Pipe.granted`): its limit above the count the reader last reported, or the
present count once it has stopped. Writing does not move that count, so the direction has the
capacity it is meant to have if and only if the count is the one it should be.

`connect` makes the pipe with the limits of `pipepair` and stores the boosts; the boosts become
part of the limit only when an option is set. The last section is about the range of an `int`.
-/

namespace ServerLink

open PipeCall CheckedRun Pipe PipePair

/-- What `options_t::setsockopt` accepts. -/
structure HwmOptions.Valid (o : HwmOptions) : Prop where
  sndhwm : 0 ≤ o.sndhwm ∧ o.sndhwm < 2 ^ 31
  rcvhwm : 0 ≤ o.rcvhwm ∧ o.rcvhwm < 2 ^ 31

/-- The number of unread messages a direction is meant to hold; `none` for no limit. -/
def capacity (sndhwm rcvhwm : Int) : Option Int :=
  if sndhwm = 0 ∨ rcvhwm = 0 then none else some (sndhwm + rcvhwm)

namespace Pipe

/-- An active pipe after an attempt to write. -/
def offered (p : Pipe) (m : Msg) : Pipe :=
  if p.outActive && p.checkHwm then { p with msgsWritten := p.msgsWritten + count m }
  else { p with outActive := false }

variable {p : Pipe} {hwm : Int}

theorem offered_accepted (ho : p.outActive = true) (hh : p.checkHwm = true) (m : Msg) :
    p.offered m = { p with msgsWritten := p.msgsWritten + count m } := by
  simp only [offered, ho, hh, Bool.and_self, if_true]

theorem offered_refused (h : p.outActive = false ∨ p.checkHwm = false) (m : Msg) :
    p.offered m = { p with outActive := false } := by
  rcases h with h | h <;> simp only [offered, h, Bool.false_and, Bool.and_false, if_false,
    Bool.false_eq_true]

/-- The pipe after attempts to write. -/
def offeredAll (p : Pipe) (ms : List Msg) : Pipe := ms.foldl offered p

end Pipe

namespace InprocPipe

/-! ### What a direction accepts -/

/-- Messages the owner of a pipe writes, other than credentials. -/
abbrev PlainMsg := { m : OwnerMsg // m.msg.isCredential = false }

/-- Side `x` tries to write messages. -/
def writes (x : PipeSide) (ms : List PlainMsg) : List InprocAction :=
  ms.map fun m => .pipe x (.write m.1) m.2

/-- Two active ends that count what is between them. -/
structure Sound (s : InprocPipe) : Prop where
  inv : s.pair.Inv
  idle : s.pair.Idle
  metered : ∀ x, Metered (s.pair.side x) (s.pair.side x.other) s.pair.heap

variable {s s' : InprocPipe}

theorem Inv.sound (h : s.Inv) : s.Sound := ⟨h.inv, h.idle, fun x => (h.flows x).metered⟩

theorem Sound.setsockopt (h : s.Sound) (x : PipeSide) (opt : HwmOption) (value : Int) :
    (s.setsockopt x opt value).Sound := by
  have h1 := h.metered .first
  have h2 := h.metered .second
  cases x <;>
    refine ⟨h.inv, fun y => ?_, fun y => ?_⟩ <;>
    cases y
  all_goals first
    | exact h.idle .first
    | exact h.idle .second
    | exact ⟨h1.counted, h1.plain⟩
    | exact ⟨h2.counted, h2.plain⟩

/-- No event fails, and options may change at any time. -/
theorem Sound.step (h : s.Sound) (a : InprocAction) : ∃ s', s.step a = .ok s' ∧ s'.Sound := by
  cases a with
  | pipe x a plain =>
    obtain ⟨pair, hs, hi, hidle, hmoves⟩ := h.inv.moves_step (a := (x, a)) h.idle plain
    refine ⟨{ s with pair }, by simp only [InprocPipe.step, hs, Except.map], hi, hidle, ?_⟩
    intro y
    cases y with
    | first => exact (hmoves.1 (h.metered .first)).metered
    | second => exact (hmoves.2 (h.metered .second)).metered
  | setsockopt x opt value => exact ⟨_, rfl, h.setsockopt x opt value⟩

/-- A method of one end leaves the pipe of the other alone. -/
theorem call_eq_ok {s s' : PipePair} {method : PipeCall → Except Fault PipeCall}
    (h : s.call method = .ok s') :
    ∃ c, method { pipe := s.first.pipe, heap := s.heap } = .ok c ∧
      s'.first.pipe = c.pipe ∧ s'.second.pipe = s.second.pipe := by
  unfold call at h
  split at h
  · cases h
  rename_i c hc
  split at h
  · cases h
  · cases h
    exact ⟨c, hc, rfl, rfl⟩

/-- What an attempt to write does to the two pipes. -/
theorem stepFirst_write {s s' : PipePair} (hi : s.Inv) (hidle : s.Idle) {m : OwnerMsg}
    (hs : s.stepFirst (.write m) = .ok s') :
    s'.first.pipe = s.first.pipe.offered m.msg ∧ s'.second.pipe = s.second.pipe := by
  have hq := hi.quiet hidle
  rw [stepFirst_eq (by simp), hq.active.1, if_neg Bool.false_ne_true] at hs
  obtain ⟨c, hc, hfirst, hsecond⟩ := call_eq_ok hs
  refine ⟨hfirst.trans ?_, hsecond⟩
  obtain ⟨⟨accepted, c'⟩, hw, rfl⟩ := map_eq_ok hc
  rcases checkWrite_cases { pipe := s.first.pipe, heap := s.heap } with
    ⟨h, ho, -, hh⟩ | ⟨act, h, hfull, hstop⟩
  · obtain ⟨queue, hcell, -⟩ := (hi.activeCall hidle).toUsable.outQueue hq.out
    rw [write_eq h hq.out hcell] at hw
    cases hw
    exact (offered_accepted ho hh m.msg).symm
  have hact : act = false ∧ (s.first.pipe.outActive = false ∨ s.first.pipe.checkHwm = false) := by
    cases ho : s.first.pipe.outActive with
    | false => exact ⟨hstop ho, .inl rfl⟩
    | true => exact ⟨(hfull ho hq.active.2).2, .inr (hfull ho hq.active.2).1⟩
  obtain ⟨rfl, hrefused⟩ := hact
  simp only [write, h] at hw
  cases hw
  exact (offered_refused hrefused m.msg).symm

theorem Sound.write (h : s.Sound) (x : PipeSide) (m : PlainMsg) :
    ∃ s', s.step (.pipe x (.write m.1) m.2) = .ok s' ∧ s'.Sound ∧
      (s'.pair.side x).pipe = (s.pair.side x).pipe.offered m.1.msg ∧
      (s'.pair.side x.other).pipe = (s.pair.side x.other).pipe := by
  obtain ⟨s', hs, h'⟩ := h.step (.pipe x (.write m.1) m.2)
  refine ⟨s', hs, h', ?_⟩
  obtain ⟨pair, hp, rfl⟩ := map_eq_ok hs
  cases x with
  | first => exact stepFirst_write h.inv h.idle hp
  | second =>
    obtain ⟨swapped, hswapped, rfl⟩ := map_eq_ok hp
    exact stepFirst_write h.inv.swap h.idle.swap hswapped

theorem Sound.writes (h : s.Sound) (x : PipeSide) (ms : List PlainMsg) :
    ∃ s', run InprocPipe.step s (writes x ms) = .ok s' ∧ s'.Sound ∧
      (s'.pair.side x).pipe = (s.pair.side x).pipe.offeredAll (ms.map (·.1.msg)) ∧
      (s'.pair.side x.other).pipe = (s.pair.side x.other).pipe := by
  induction ms generalizing s with
  | nil => exact ⟨s, rfl, h, rfl, rfl⟩
  | cons m ms ih =>
    obtain ⟨s1, hs, h1, hx, ho⟩ := h.write x m
    obtain ⟨s', hr, h', hx', ho'⟩ := ih h1
    refine ⟨s', (run_cons_ok _ hs).trans hr, h', ?_, ho'.trans ho⟩
    rw [hx', hx]
    rfl

end InprocPipe

/-! ### The arithmetic of the marks -/

open MachineInt

/-- The marks of a pipe end that reads with the given limit: how often it reports, and that the
two limits are infinite only if an option of their direction is 0. -/
structure Pipe.MarksOk (p : Pipe) (limit : Int) (own peer : HwmOptions) : Prop where
  lwm : p.lwm = 0 ↔ limit = 0
  range : limit ≠ 0 → 1 ≤ p.lwm ∧ p.lwm ≤ limit
  inbound : limit = 0 → own.rcvhwm = 0 ∨ peer.sndhwm = 0
  outbound : p.hwm = 0 → own.sndhwm = 0 ∨ peer.rcvhwm = 0

/-- `set_hwms` computes nothing out of range. The sums are computed in any case. -/
def HwmBoost.Computes (b : HwmBoost) (own : HwmOptions) : Prop :=
  InRange (own.rcvhwm + max b.inHwmBoost 0) ∧ InRange (own.sndhwm + max b.outHwmBoost 0) ∧
    InRange (boosted own.rcvhwm b.inHwmBoost + 1)

/-- The sums of the options of a socket and of its peer are in range. -/
def HwmOptions.Adds (own peer : HwmOptions) : Prop :=
  (own.rcvhwm = 0 ∨ peer.sndhwm = 0 ∨ own.rcvhwm + peer.sndhwm < maxInt) ∧
    own.sndhwm + peer.rcvhwm ≤ maxInt

namespace InprocPipe

/-- The marks of a new pipe, and those that `set_hwms` computes when the sockets have set other
options. A new end has the limit of the other one for its inbound limit. -/
structure MarksOk (s : InprocPipe) (later : PipeSide → HwmOptions) : Prop where
  made : ∀ x, InRange ((s.pair.side x.other).pipe.hwm + 1) ∧
    (s.pair.side x).pipe.MarksOk (s.pair.side x.other).pipe.hwm (s.options x) (s.options x.other)
  set : ∀ x, (s.boosts x).Computes (later x) ∧
    ((s.pair.side x).pipe.setHwms (s.boosts x) (later x).rcvhwm (later x).sndhwm).MarksOk
      (boosted (later x).rcvhwm (s.boosts x).inHwmBoost) (later x) (s.options x.other)

variable {own peer : HwmOptions}

theorem marksOk_iff {p : Pipe} {limit : Int} (hl : 0 ≤ limit)
    (hlwm : p.lwm = computeLwm limit) : p.MarksOk limit own peer ↔
      (limit = 0 → own.rcvhwm = 0 ∨ peer.sndhwm = 0) ∧
        (p.hwm = 0 → own.sndhwm = 0 ∨ peer.rcvhwm = 0) := by
  refine ⟨fun h => ⟨h.inbound, h.outbound⟩, fun ⟨hin, hout⟩ => ?_⟩
  by_cases hpos : 0 < limit
  · have h1 := computeLwm_pos hpos
    have h2 := computeLwm_le hpos
    exact ⟨by omega, fun _ => by omega, hin, hout⟩
  · obtain rfl : limit = 0 := by omega
    exact ⟨iff_of_true hlwm rfl, fun h => absurd rfl h, hin, hout⟩

theorem inRange_succ_iff {x : Int} (h : 0 ≤ x) : InRange (x + 1) ↔ x < maxInt := by
  unfold InRange maxInt
  omega

theorem boosted_eq_zero_iff {hwm boost : Int} (hh : 0 ≤ hwm) (hb : 0 ≤ boost) :
    boosted hwm boost = 0 ↔ hwm = 0 ∨ boost = 0 := by
  unfold boosted
  split <;> omega

/-- `set_hwms` gives the limits their meaning if the boosts, which are the options the peer had,
are infinite only where the peer's options still make up for it. -/
theorem marksOk_setHwms_iff (p : Pipe) {had : HwmOptions} (hown : own.Valid) (hhad : had.Valid) :
    (p.setHwms ⟨had.sndhwm, had.rcvhwm⟩ own.rcvhwm own.sndhwm).MarksOk
        (boosted own.rcvhwm had.sndhwm) own peer ↔
      (had.sndhwm = 0 → own.rcvhwm = 0 ∨ peer.sndhwm = 0) ∧
        (had.rcvhwm = 0 → own.sndhwm = 0 ∨ peer.rcvhwm = 0) := by
  have h1 := hown.rcvhwm.1
  have h2 := hown.sndhwm.1
  have h3 := hhad.rcvhwm.1
  have h4 := hhad.sndhwm.1
  have hlimit : 0 ≤ boosted own.rcvhwm had.sndhwm := by
    unfold boosted
    split <;> omega
  refine (marksOk_iff hlimit rfl).trans ?_
  simp only [setHwms, boosted_eq_zero_iff h1 h4, boosted_eq_zero_iff h2 h3]
  omega

theorem computes_iff (hown : own.Valid) (hpeer : peer.Valid) :
    HwmBoost.Computes ⟨peer.sndhwm, peer.rcvhwm⟩ own ↔ own.Adds peer := by
  have h1 := hown.rcvhwm
  have h2 := hown.sndhwm
  have h4 := hpeer.sndhwm
  simp only [HwmBoost.Computes, HwmOptions.Adds, boosted, InRange, maxInt]
  split <;> omega

/-- When the marks of an inproc pipe are computed in range and mean what the options say. The pipe
uses the mark that the bound socket had for reading as its limit for writing, and the other end
keeps the marks it had as its boosts, so that a limit can be infinite without a reason; apart from
that only the sums are to blame. -/
theorem marksOk_connected_iff {c bound b : HwmOptions} {later : PipeSide → HwmOptions}
    (hc : c.Valid) (hbound : bound.Valid) (hl : ∀ x, (later x).Valid) :
    (connected c bound b).MarksOk later ↔ (c.sndhwm < maxInt ∧ bound.rcvhwm < maxInt) ∧
      (bound.rcvhwm = 0 → c.rcvhwm = 0 ∨ b.sndhwm = 0) ∧
      ((later .first).Adds bound ∧ (later .second).Adds c) ∧
      (bound.sndhwm = 0 → (later .first).rcvhwm = 0 ∨ b.sndhwm = 0) ∧
      (bound.rcvhwm = 0 → (later .first).sndhwm = 0 ∨ b.rcvhwm = 0) := by
  have hc1 := inRange_succ_iff hc.sndhwm.1
  have hb2 := inRange_succ_iff hbound.rcvhwm.1
  have hset1 := @marksOk_setHwms_iff _ b (connected c bound b).pair.first.pipe _ (hl .first) hbound
  refine ⟨fun h => ⟨⟨hc1.mp (h.made .second).1, hb2.mp (h.made .first).1⟩,
    (h.made .first).2.inbound, ⟨(computes_iff (hl .first) hbound).mp (h.set .first).1,
      (computes_iff (hl .second) hc).mp (h.set .second).1⟩, hset1.mp (h.set .first).2⟩, ?_⟩
  rintro ⟨hmade, hrev, ⟨h1, h2⟩, hset⟩
  refine ⟨fun x => ?_, fun x => ?_⟩
  · cases x with
    | first => exact ⟨hb2.mpr hmade.2, (marksOk_iff hbound.rcvhwm.1 rfl).mpr ⟨hrev, .inl⟩⟩
    | second =>
      exact ⟨hc1.mpr hmade.1, (marksOk_iff hc.sndhwm.1 rfl).mpr ⟨.inr, fun h => (hrev h).symm⟩⟩
  · cases x with
    | first => exact ⟨(computes_iff (hl _) hbound).mpr h1, hset1.mpr hset⟩
    | second =>
      exact ⟨(computes_iff (hl _) hc).mpr h2, (marksOk_setHwms_iff _ (hl _) hc).mpr ⟨.inr, .inr⟩⟩

/-- The bound socket has lowered its marks since it bound, and both sockets change theirs once
more. -/
theorem marksOk_connected_iff_lowered : HwmOptions.Valid ⟨20, 30⟩ ∧
    (connected ⟨20, 30⟩ ⟨500, 400⟩ ⟨50, 40⟩).MarksOk fun
      | .first => ⟨0, 7⟩
      | .second => ⟨9, 0⟩ := by
  have hc : HwmOptions.Valid ⟨20, 30⟩ := ⟨by decide, by decide⟩
  have hbound : HwmOptions.Valid ⟨500, 400⟩ := ⟨by decide, by decide⟩
  refine ⟨hc, (marksOk_connected_iff hc hbound ?_).mpr ?_⟩
  · intro x
    cases x <;> exact ⟨by decide, by decide⟩
  · exact ⟨by decide, by decide, ⟨⟨by decide, by decide⟩, by decide, by decide⟩, by decide,
      by decide⟩

/-- The largest mark is accepted, and its successor is computed. -/
theorem marks_overflow : HwmOptions.Valid ⟨1, maxInt⟩ ∧
    ¬ (connected {} ⟨1, maxInt⟩ ⟨1, maxInt⟩).MarksOk fun _ => {} := by
  refine ⟨⟨by decide, by decide⟩, fun h => ?_⟩
  exact absurd (h.made .first).1 (by decide)

end InprocPipe

end ServerLink

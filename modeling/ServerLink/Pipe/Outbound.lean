import ServerLink.Lib.Checked
import ServerLink.Pipe.Distribution
import ServerLink.Pipe.PipeEffects

/-!
# ServerLink.Pipe.Outbound

The outbound side of a pipe: the counters and flags `pipe_t::write` looks at, and what has been
written. `PipeCall.ShowsOut` connects it to the pipe and its queue. What the peer and the
termination of the pipe do to this side are events.

Only the last part of a message is counted, so a pipe that has room for the first part of a
message has room for all of them.
-/

namespace ServerLink

open ServerLink.Dist PipeCall Checked

/-- The outbound side of a pipe. -/
structure Outbound where
  pipe : Pipe
  /-- One of the two ends has asked for termination. A peer that hiccups does so. -/
  ending : Bool := false
  /-- The parts that were ever sent to a pipe of this number. -/
  written : List Msg := []
  /-- How many of them were flushed. -/
  flushed : Nat := 0

namespace Outbound

/-- `pipe_t::write`. -/
def write (o : Outbound) (msg : Msg) : Outbound × Bool :=
  if !o.pipe.outActive || o.pipe.state != .active then (o, false)
  else if o.pipe.checkHwm then
    ({ o with
        pipe := { o.pipe with msgsWritten := o.pipe.msgsWritten + count msg }
        written := o.written ++ [msg] }, true)
  else ({ o with pipe := { o.pipe with outActive := false } }, false)

/-- `pipe_t::flush`. -/
def flush (o : Outbound) : Outbound :=
  if o.pipe.state = .termAckSent then o else { o with flushed := o.written.length }

instance : WriteEnd Outbound := ⟨write, flush⟩

/-- `process_activate_write` tells the sink. -/
def wakes (o : Outbound) : Bool := !o.pipe.outActive && o.pipe.state == .active

/-- `process_activate_write`. -/
def activateWrite (o : Outbound) (msgsRead : Int) : Outbound :=
  { o with pipe := { o.pipe with
      peersMsgsRead := msgsRead, outActive := o.pipe.outActive || o.wakes } }

/-- `process_hiccup`, with so many messages in the queue that is dropped. -/
def hiccup (o : Outbound) (unread : Nat) : Outbound :=
  { o with
    pipe := { o.pipe with msgsWritten := o.pipe.msgsWritten - unread, outActive := true }
    ending := true }

/-- The pipe leaves the state `active`. -/
def finish (o : Outbound) (state : PipeState) (outActive : Bool) : Outbound :=
  { o with pipe := { o.pipe with state, outActive }, ending := true }

/-! ### Watermarks -/

structure Ok (o : Outbound) : Prop where
  /-- The high watermark is an `int`. -/
  hwm_lt : o.pipe.hwm < 2 ^ 31
  read_le : o.pipe.peersMsgsRead ≤ o.pipe.msgsWritten
  bounded : 0 < o.pipe.hwm → o.pipe.msgsWritten - o.pipe.peersMsgsRead ≤ o.pipe.hwm
  active : o.ending = false → o.pipe.state = .active
  /-- A pipe stops because it is full. -/
  stopped : o.ending = false → o.pipe.outActive = false → o.pipe.checkHwm = false

variable {o : Outbound} {msg : Msg}

theorem checkHwm_iff {p : Pipe} (hlt : p.hwm < 2 ^ 31) (hread : p.peersMsgsRead ≤ p.msgsWritten)
    (hb : 0 < p.hwm → p.msgsWritten - p.peersMsgsRead ≤ p.hwm) :
    p.checkHwm = true ↔ (0 < p.hwm → p.msgsWritten - p.peersMsgsRead < p.hwm) := by
  unfold Pipe.checkHwm
  simp only [Bool.not_eq_true', Bool.and_eq_false_iff, decide_eq_false_iff_not]
  omega

theorem Ok.checkHwm_iff (h : o.Ok) : o.pipe.checkHwm = true ↔
    (0 < o.pipe.hwm → o.pipe.msgsWritten - o.pipe.peersMsgsRead < o.pipe.hwm) :=
  Outbound.checkHwm_iff h.hwm_lt h.read_le h.bounded

theorem takes_iff : takes o msg = true ↔
    o.pipe.outActive = true ∧ o.pipe.state = .active ∧ o.pipe.checkHwm = true := by
  show (o.write msg).2 = true ↔ _
  unfold write
  cases o.pipe.outActive <;> cases o.pipe.checkHwm <;> cases hs : o.pipe.state <;> simp

/-- A pipe that is not being terminated takes a message if it is not full. -/
theorem Ok.takes (h : o.Ok) (he : o.ending = false) (hroom : o.pipe.checkHwm = true) (msg : Msg) :
    takes o msg = true := by
  refine takes_iff.mpr ⟨?_, h.active he, hroom⟩
  by_contra hact
  rw [h.stopped he (by simpa using hact)] at hroom
  cases hroom

theorem offered_cases (o : Outbound) (msg : Msg) :
    (takes o msg = true ∧ ∃ flushed, offered o msg =
      { o with
        pipe := { o.pipe with msgsWritten := o.pipe.msgsWritten + count msg }
        written := o.written ++ [msg]
        flushed } ∧ (msg.more = false → flushed = o.written.length + 1)) ∨
    (takes o msg = false ∧ ∃ outActive, offered o msg =
      { o with pipe := { o.pipe with outActive } } ∧
      (o.pipe.state = .active → outActive = false) ∧
      (outActive = false → o.pipe.outActive = true → o.pipe.checkHwm = false)) := by
  unfold offered
  cases htakes : takes o msg with
  | true =>
    obtain ⟨hact, hs, hroom⟩ := takes_iff.mp htakes
    have hw : WriteEnd.write o msg = ({ o with
        pipe := { o.pipe with msgsWritten := o.pipe.msgsWritten + count msg }
        written := o.written ++ [msg] }, true) := by
      show o.write msg = _
      simp [write, hact, hs, hroom]
    rw [hw]
    cases hmore : msg.more with
    | true => exact .inl ⟨rfl, o.flushed, rfl, nofun⟩
    | false =>
      exact .inl ⟨rfl, o.written.length + 1, by simp [WriteEnd.flush, flush, hs], fun _ => rfl⟩
  | false =>
    refine .inr ⟨rfl, ?_⟩
    show ∃ outActive, (o.write msg).1 = _ ∧ _
    unfold write
    split
    · rename_i hgo
      refine ⟨o.pipe.outActive, rfl, fun hs => ?_, fun h h' => by rw [h] at h'; cases h'⟩
      simpa [hs] using hgo
    rename_i hgo
    split
    · rename_i hroom
      have htrue : takes o msg = true :=
        takes_iff.mpr ⟨by simp_all, by simp_all, hroom⟩
      rw [htakes] at htrue
      cases htrue
    · rename_i hroom
      exact ⟨false, rfl, fun _ => rfl, fun _ _ => by simpa using hroom⟩

@[simp] theorem offered_ending (o : Outbound) (msg : Msg) : (offered o msg).ending = o.ending := by
  rcases o.offered_cases msg with ⟨-, _, heq, -⟩ | ⟨-, _, heq, -⟩
  · rw [heq]
  · rw [heq]

theorem offered_written (o : Outbound) (msg : Msg) : (offered o msg).written =
    if takes o msg then o.written ++ [msg] else o.written := by
  rcases o.offered_cases msg with ⟨ht, _, heq, -⟩ | ⟨ht, _, heq, -⟩
  · rw [heq, if_pos ht]
  · rw [heq, ht]
    rfl

/-- A part that is not the last one is not counted. -/
theorem offered_checkHwm (o : Outbound) (hmore : msg.more = true) :
    (offered o msg).pipe.checkHwm = o.pipe.checkHwm := by
  rcases o.offered_cases msg with ⟨-, _, heq, -⟩ | ⟨-, _, heq, -⟩
  · rw [heq]
    simp [Pipe.checkHwm, count, hmore]
  · rw [heq]
    rfl

/-- A pipe that refuses a message waits to be activated. -/
theorem Ok.offered_outActive (h : o.Ok) (he : o.ending = false)
    (ht : Dist.takes o msg = false) : (Dist.offered o msg).pipe.outActive = false := by
  rcases o.offered_cases msg with ⟨ht', -⟩ | ⟨-, _, heq, hout, -⟩
  · rw [ht] at ht'
    cases ht'
  · rw [heq]
    exact hout (h.active he)

/-- Taking a message does not change the flags. -/
theorem offered_wakes (o : Outbound) (ht : takes o msg = true) :
    (offered o msg).pipe.outActive = true ∧ (offered o msg).wakes = false := by
  obtain ⟨hact, -⟩ := takes_iff.mp ht
  rcases o.offered_cases msg with ⟨-, _, heq, -⟩ | ⟨ht', -⟩
  · rw [heq]
    simp [wakes, hact]
  · rw [ht] at ht'
    cases ht'

theorem Ok.offered (h : o.Ok) (msg : Msg) : (offered o msg).Ok := by
  rcases o.offered_cases msg with ⟨ht, _, heq, -⟩ | ⟨-, _, heq, -, hstop⟩
  · obtain ⟨hact, hs, hroom⟩ := takes_iff.mp ht
    have hlt := h.checkHwm_iff.mp hroom
    have hread := h.read_le
    have hcount : count msg = 0 ∨ count msg = 1 := by
      unfold count
      split
      · exact .inr rfl
      · exact .inl rfl
    rw [heq]
    refine ⟨h.hwm_lt, ?_, fun hpos => ?_, h.active, fun _ hstopped => ?_⟩
    · dsimp only
      omega
    · dsimp only at hpos ⊢
      omega
    · rw [hact] at hstopped
      cases hstopped
  · rw [heq]
    refine ⟨h.hwm_lt, h.read_le, h.bounded, h.active, fun he hout => ?_⟩
    cases hact : o.pipe.outActive with
    | true => exact hstop hout hact
    | false => exact h.stopped he hact

/-- Only the pipe and its end matter. -/
theorem Ok.congr {o' : Outbound} (h : o.Ok) (hp : o'.pipe = o.pipe) (he : o'.ending = o.ending) :
    o'.Ok := by
  obtain ⟨hlt, hread, hb, hact, hstop⟩ := h
  rw [← hp] at hlt hread hb hact hstop
  rw [← he] at hact hstop
  exact ⟨hlt, hread, hb, hact, hstop⟩

@[simp] theorem flush_pipe (o : Outbound) : o.flush.pipe = o.pipe := by
  unfold flush
  split <;> rfl

@[simp] theorem flush_ending (o : Outbound) : o.flush.ending = o.ending := by
  unfold flush
  split <;> rfl

theorem offered_pipe (o : Outbound) (msg : Msg) :
    (offered o msg).pipe = (o.write msg).1.pipe ∧
      (offered o msg).ending = (o.write msg).1.ending := by
  unfold offered
  split
  · exact ⟨flush_pipe _, flush_ending _⟩
  · exact ⟨rfl, rfl⟩

/-! ### Events -/

/-- The peer reports a number of messages it has read. -/
theorem Ok.activateWrite (h : o.Ok) {msgsRead : Int} (hge : o.pipe.peersMsgsRead ≤ msgsRead)
    (hle : msgsRead ≤ o.pipe.msgsWritten) :
    (o.activateWrite msgsRead).Ok ∧
      (o.pipe.checkHwm = true → (o.activateWrite msgsRead).pipe.checkHwm = true) := by
  have hbound : 0 < o.pipe.hwm → o.pipe.msgsWritten - msgsRead ≤ o.pipe.hwm := by
    intro hpos
    have := h.bounded hpos
    omega
  refine ⟨⟨h.hwm_lt, hle, hbound, h.active, fun he hout => ?_⟩, fun hroom => ?_⟩
  · have hs := h.active he
    simp [Outbound.activateWrite, wakes, hs] at hout
  have hlt := h.checkHwm_iff.mp hroom
  refine (Outbound.checkHwm_iff (p := (o.activateWrite msgsRead).pipe) h.hwm_lt hle
    hbound).mpr fun hpos => ?_
  have := hlt hpos
  simp only [Outbound.activateWrite]
  omega

/-- The peer drops messages it has not read. -/
theorem Ok.hiccup (h : o.Ok) {unread : Nat}
    (hle : (unread : Int) ≤ o.pipe.msgsWritten - o.pipe.peersMsgsRead) :
    (o.hiccup unread).Ok ∧ (o.pipe.checkHwm = true → (o.hiccup unread).pipe.checkHwm = true) := by
  have hread : o.pipe.peersMsgsRead ≤ o.pipe.msgsWritten - unread := by omega
  have hbound : 0 < o.pipe.hwm →
      o.pipe.msgsWritten - unread - o.pipe.peersMsgsRead ≤ o.pipe.hwm := by
    intro hpos
    have := h.bounded hpos
    omega
  refine ⟨⟨h.hwm_lt, hread, hbound, nofun, nofun⟩,
    fun hroom => ?_⟩
  have hlt := h.checkHwm_iff.mp hroom
  refine (Outbound.checkHwm_iff (p := (o.hiccup unread).pipe) h.hwm_lt hread
    hbound).mpr fun hpos => ?_
  have := hlt hpos
  simp only [Outbound.hiccup]
  omega

theorem Ok.finish (h : o.Ok) (state : PipeState) (outActive : Bool) :
    (o.finish state outActive).Ok :=
  ⟨h.hwm_lt, h.read_le, h.bounded, nofun, nofun⟩

end Outbound

/-- The write end of a new pipe. The library itself may have written to it. -/
structure NewOutbound where
  o : Outbound
  ok : o.Ok
  notEnding : o.ending = false
  outActive : o.pipe.outActive = true

/-! ### The pipe -/

namespace PipeCall

/-- The outbound side is that of the pipe, and what is in the queue was written last. -/
structure ShowsOut (c : PipeCall) (o : Outbound) : Prop where
  pipe : c.pipe = o.pipe
  queue : ∀ q, c.pipe.outPipe = some q →
    ∃ queue gone, c.heap.cell q = some queue ∧ o.written = gone ++ queue.items

variable {c : PipeCall} {o : Outbound}

/-- `pipe_t::write` does what the outbound side does. -/
theorem ShowsOut.write (hs : c.ShowsOut o) (m : Msg) :
    Ensures (c.write m) fun r => r.1 = (o.write m).2 ∧ r.2.ShowsOut (o.write m).1 := by
  unfold PipeCall.write PipeCall.checkWrite Outbound.write
  rw [← hs.pipe]
  by_cases hgo : (!c.pipe.outActive || c.pipe.state != .active) = true
  · simp only [if_pos hgo]
    exact .ok ⟨rfl, hs⟩
  simp only [if_neg hgo]
  by_cases hroom : c.pipe.checkHwm = true
  · simp only [if_pos hroom]
    split
    · exact .error _ _
    rename_i q hq
    obtain ⟨queue, gone, hcell, hgone⟩ := hs.queue q hq
    rw [queue_eq hcell]
    refine .pure ⟨rfl, rfl, fun q' hq' => ?_⟩
    cases hq.symm.trans hq'
    refine ⟨_, gone, Arena.cell_set _ _ _, ?_⟩
    rw [hgone, FlushQueue.items_write, List.append_assoc]
  · simp only [if_neg hroom]
    exact .ok ⟨rfl, rfl, hs.queue⟩

/-- `pipe_t::flush` does not change what has been written. -/
theorem ShowsOut.flush (hs : c.ShowsOut o) : Ensures c.flush (·.ShowsOut o.flush) := by
  have hsame : ∀ {c1 : PipeCall}, c1.ShowsOut o → c1.ShowsOut o.flush := by
    intro c1 hs1
    unfold Outbound.flush
    split
    · exact hs1
    · exact ⟨hs1.pipe, hs1.queue⟩
  refine .ite (fun _ => .ok (hsame hs)) fun _ => ?_
  split
  · exact .ok (hsame hs)
  rename_i q hq
  obtain ⟨queue, gone, hcell, hgone⟩ := hs.queue q hq
  have hset : (c.setQueue q queue.flush.2).ShowsOut o := by
    refine ⟨hs.pipe, fun q' hq' => ?_⟩
    cases hq.symm.trans hq'
    exact ⟨_, gone, Arena.cell_set _ _ _, by rw [hgone, FlushQueue.items_flush]⟩
  rw [queue_eq hcell]
  refine .pure (hsame ?_)
  split
  · exact hset
  · exact ⟨hset.pipe, hset.queue⟩

theorem ShowsOut.processActivateWrite (hs : c.ShowsOut o) (msgsRead : Int) :
    (c.processActivateWrite msgsRead).ShowsOut (o.activateWrite msgsRead) := by
  unfold PipeCall.processActivateWrite Outbound.activateWrite Outbound.wakes
  dsimp only
  rw [← hs.pipe]
  split
  · rename_i hw
    exact ⟨by simp [hw], hs.queue⟩
  · rename_i hw
    exact ⟨by simp [Bool.eq_false_iff.mpr hw], hs.queue⟩

end PipeCall

end ServerLink

import ServerLink.Lib.Checked
import ServerLink.Pipe.PipeEffects

/-!
# ServerLink.Pipe.Inlet

The read end of a pipe as the sockets use it: `Inlet` has what `pipe_t::read` and
`pipe_t::check_read` look at, and `PipeCall.Shows` connects it to the pipe. Credentials
are left out, since the program never writes one.

`Framed` is what the writers guarantee: only whole messages are ever published.
-/

namespace ServerLink

open Msg List Checked

/-- A message of one or more parts. -/
structure MultipartMsg where
  init : List Msg
  last : Msg
  init_more : ∀ m ∈ init, m.more = true
  last_more : last.more = false
  plain : ∀ m ∈ init ++ [last], m.isDelimiter = false
  /-- The library writes routing ids as messages of their own. -/
  routingId_alone : ∀ m ∈ init ++ [last], m.isRoutingId = true → init = []

def MultipartMsg.parts (x : MultipartMsg) : List Msg := x.init ++ [x.last]

/-- The message with the given data in its parts. -/
def MultipartMsg.ofData (init : List (List UInt8)) (last : List UInt8) : MultipartMsg where
  init := init.map fun data => (initBuffer data).setFlags moreFlag
  last := initBuffer last
  init_more m hm := by
    obtain ⟨data, -, rfl⟩ := mem_map.mp hm
    simp [more, setFlags, initBuffer, moreFlag]
  last_more := by simp [more, initBuffer]
  plain m hm := by
    rcases mem_append.mp hm with hm | hm
    · obtain ⟨data, -, rfl⟩ := mem_map.mp hm
      rcases typeOfSize_hasData data.length with h | h <;>
        simp [isDelimiter, setFlags, initBuffer, h]
    · rw [mem_singleton.mp hm]
      rcases typeOfSize_hasData last.length with h | h <;>
        simp [isDelimiter, initBuffer, h]
  routingId_alone m hm hid := by
    rcases mem_append.mp hm with hm | hm
    · obtain ⟨data, -, rfl⟩ := mem_map.mp hm
      simp [isRoutingId, setFlags, initBuffer, moreFlag, routingIdFlag] at hid
    · rw [mem_singleton.mp hm] at hid
      simp [isRoutingId, initBuffer, routingIdFlag] at hid

/-- The read end of a pipe. -/
structure Inlet where
  /-- Published by the peer and not read yet. -/
  parts : List Msg := []
  inActive : Bool := true
  state : PipeState := .active
  /-- The last part read has the more flag. The pipe does not keep this. -/
  midway : Bool := false
  deriving Repr, DecidableEq

namespace Inlet

/-- `_state == active || _state == waiting_for_delimiter`. -/
def reading (i : Inlet) : Bool := i.state == .active || i.state == .waitingForDelimiter

/-- The state after a delimiter was read (`process_delimiter`). -/
def delimited (i : Inlet) : PipeState :=
  match i.state with
  | .active => .delimiterReceived
  | .waitingForDelimiter => .termAckSent
  | state => state

/-- `pipe_t::read`. A delimiter ends the reading for good. -/
def read (i : Inlet) : Option Msg × Inlet :=
  if !i.inActive || !i.reading then (none, i)
  else
    match i.parts with
    | [] => (none, { i with inActive := false })
    | m :: rest =>
      if m.isDelimiter then (none, { i with parts := rest, state := i.delimited })
      else (some m, { i with parts := rest, midway := m.more })

/-- `pipe_t::check_read`. -/
def checkRead (i : Inlet) : Bool × Inlet :=
  if !i.inActive || !i.reading then (false, i)
  else
    match i.parts with
    | [] => (false, { i with inActive := false })
    | m :: rest =>
      if m.isDelimiter then (false, { i with parts := rest, state := i.delimited })
      else (true, i)

/-- The peer publishes. -/
def publish (i : Inlet) (ms : List Msg) : Inlet := { i with parts := i.parts ++ ms }

/-- `pipe_t::terminate`. -/
def terminate (i : Inlet) (delay : Bool) : Inlet :=
  match i.state with
  | .active | .delimiterReceived => { i with state := .termReqSent1 }
  | .waitingForDelimiter => if delay then i else { i with state := .termAckSent }
  | _ => i

/-- `pipe_t::process_pipe_term`, in the states in which the command can arrive. `_delay` is
set while the pipe is active. -/
def processPipeTerm (i : Inlet) : Inlet :=
  match i.state with
  | .active => { i with state := .waitingForDelimiter }
  | .delimiterReceived => { i with state := .termAckSent }
  | .termReqSent1 => { i with state := .termReqSent2 }
  | _ => i

/-- The states in which the acknowledgement of the peer destroys the pipe. -/
def ending (i : Inlet) : Bool :=
  i.state == .termReqSent1 || i.state == .termReqSent2 || i.state == .termAckSent

end Inlet

/-- What the peer does at its end: it publishes a message, or it terminates the pipe, which
publishes a delimiter and sends a command. -/
inductive InletEvent
  | publish (msg : MultipartMsg)
  | publishDelimiter
  | processPipeTerm

def InletEvent.apply (i : Inlet) : InletEvent → Inlet
  | .publish msg => i.publish msg.parts
  | .publishDelimiter => i.publish [.initDelimiter]
  | .processPipeTerm => i.processPipeTerm

namespace Inlet

/-- The messages in the list go to the end of the stream, and the first one is the rest of
a message if the reader is `midway`. -/
def Framed : Bool → List Msg → Prop
  | midway, [] => midway = false
  | midway, m :: rest =>
    if m.isDelimiter then midway = false ∧ Framed false rest
    else (m.isRoutingId = true → midway = false ∧ m.more = false) ∧ Framed m.more rest

/-- What is left to read ends with the end of a message. -/
def Ok (i : Inlet) : Prop := Framed i.midway i.parts

theorem Framed.append {ms : List Msg} (hms : Framed false ms) :
    ∀ {midway : Bool} {l : List Msg}, Framed midway l → Framed midway (l ++ ms)
  | _, [], h => by
      obtain rfl := h
      exact hms
  | midway, m :: rest, h => by
      rw [cons_append]
      unfold Framed at h ⊢
      split
      · rw [if_pos ‹_›] at h
        exact ⟨h.1, Framed.append hms h.2⟩
      · rw [if_neg ‹_›] at h
        exact ⟨h.1, Framed.append hms h.2⟩

theorem framed_append_last {last : Msg} (hlast : last.more = false) :
    ∀ {init : List Msg} {midway : Bool}, (∀ m ∈ init ++ [last], m.isDelimiter = false) →
      (∀ m ∈ init ++ [last], m.isRoutingId = false) → Framed midway (init ++ [last])
  | [], midway, hplain, hid => by
      have hdel := hplain last (by simp)
      simp [Framed, hdel, hid, hlast]
  | m :: rest, midway, hplain, hid => by
      have hdel := hplain m (by simp)
      have hm := hid m (by simp)
      rw [cons_append, Framed, if_neg (by simp [hdel])]
      exact ⟨by simp [hm], framed_append_last hlast
        (fun m' hm' => hplain m' (mem_cons_of_mem _ hm'))
        fun m' hm' => hid m' (mem_cons_of_mem _ hm')⟩

theorem framed_parts (x : MultipartMsg) : Framed false x.parts := by
  by_cases hinit : x.init = []
  · have hdel := x.plain x.last (by simp)
    simp [MultipartMsg.parts, hinit, Framed, hdel, x.last_more]
  refine framed_append_last x.last_more x.plain fun m hm => ?_
  cases hid : m.isRoutingId with
  | false => rfl
  | true => exact absurd (x.routingId_alone m hm hid) hinit

theorem framed_flatMap : ∀ xs : List MultipartMsg, Framed false (xs.flatMap MultipartMsg.parts)
  | [] => rfl
  | x :: xs => by
      exact Framed.append (framed_flatMap xs) (framed_parts x)

theorem framed_delimiter : Framed false [initDelimiter] := ⟨rfl, rfl⟩

variable {i i' : Inlet}

theorem Ok.publish (h : i.Ok) {ms : List Msg} (hms : Framed false ms) : (i.publish ms).Ok :=
  Framed.append hms h

theorem terminate_eq (i : Inlet) (delay : Bool) :
    ∃ state, i.terminate delay = { i with state } := by
  unfold terminate
  split
  · exact ⟨_, rfl⟩
  · exact ⟨_, rfl⟩
  · split
    · exact ⟨i.state, rfl⟩
    · exact ⟨_, rfl⟩
  · exact ⟨i.state, rfl⟩

theorem processPipeTerm_eq (i : Inlet) : ∃ state, i.processPipeTerm = { i with state } := by
  unfold processPipeTerm
  split
  · exact ⟨_, rfl⟩
  · exact ⟨_, rfl⟩
  · exact ⟨_, rfl⟩
  · exact ⟨i.state, rfl⟩

/-- A pipe whose peer has terminated it goes on reading. -/
theorem processPipeTerm_reading (i : Inlet) : i.processPipeTerm.reading = i.reading := by
  unfold reading processPipeTerm
  cases hs : i.state <;> simp only [hs] <;> rfl

theorem apply_inActive (i : Inlet) (e : InletEvent) : (e.apply i).inActive = i.inActive := by
  cases e with
  | publish msg => rfl
  | publishDelimiter => rfl
  | processPipeTerm =>
    obtain ⟨state, heq⟩ := i.processPipeTerm_eq
    simp [InletEvent.apply, heq]

theorem apply_midway (i : Inlet) (e : InletEvent) : (e.apply i).midway = i.midway := by
  cases e with
  | publish msg => rfl
  | publishDelimiter => rfl
  | processPipeTerm =>
    obtain ⟨state, heq⟩ := i.processPipeTerm_eq
    simp [InletEvent.apply, heq]

theorem apply_reading (i : Inlet) (e : InletEvent) : (e.apply i).reading = i.reading := by
  cases e with
  | publish msg => rfl
  | publishDelimiter => rfl
  | processPipeTerm => exact i.processPipeTerm_reading

theorem Ok.apply (h : i.Ok) (e : InletEvent) : (e.apply i).Ok := by
  cases e with
  | publish msg => exact h.publish (framed_parts msg)
  | publishDelimiter => exact h.publish framed_delimiter
  | processPipeTerm =>
    obtain ⟨state, heq⟩ := i.processPipeTerm_eq
    simp only [InletEvent.apply, heq]
    exact h

theorem Ok.terminate (h : i.Ok) (delay : Bool) : (i.terminate delay).Ok := by
  obtain ⟨state, heq⟩ := i.terminate_eq delay
  rw [heq]
  exact h

theorem ending_reading (h : i.ending = true) : i.reading = false := by
  unfold ending at h
  unfold reading
  cases hs : i.state <;> simp_all

/-- Without delay nothing is read any more. -/
theorem terminate_reading (i : Inlet) : (i.terminate false).reading = false := by
  unfold terminate reading
  split <;> simp_all

theorem terminate_reading_of {delay : Bool} (h : (i.terminate delay).reading = true) :
    i.reading = true := by
  unfold terminate at h
  split at h
  · cases h
  · cases h
  · rename_i hs
    simp [reading, hs]
  · exact h

theorem delimited_reading (i : Inlet) :
    ({ i with state := i.delimited } : Inlet).reading = false := by
  unfold delimited reading
  cases i.state <;> rfl

/-- A pipe that is awake and still reading looks at its queue. -/
theorem read_of_open (ha : i.inActive = true) (hr : i.reading = true) :
    i.read =
      match i.parts with
      | [] => (none, { i with inActive := false })
      | m :: rest =>
        if m.isDelimiter then (none, { i with parts := rest, state := i.delimited })
        else (some m, { i with parts := rest, midway := m.more }) := by
  have hopen : (!i.inActive || !i.reading) = false := by rw [ha, hr]; rfl
  rw [read, if_neg (by simp [hopen])]

theorem read_eq_some {m : Msg} (h : i.read = (some m, i')) :
    i.inActive = true ∧ i.reading = true ∧ m.isDelimiter = false ∧
      ∃ rest, i.parts = m :: rest ∧ i' = { i with parts := rest, midway := m.more } := by
  unfold read at h
  split at h
  · cases h
  rename_i hopen
  split at h
  · cases h
  rename_i m' rest hparts
  split at h
  · cases h
  rename_i hdel
  obtain ⟨rfl, rfl⟩ := Prod.mk.inj h |>.imp_left Option.some.inj
  simp only [Bool.or_eq_true, Bool.not_eq_true', not_or, Bool.not_eq_false] at hopen
  exact ⟨hopen.1, hopen.2, by simpa using hdel, rest, hparts, rfl⟩

/-- What a read that finds nothing does: the pipe may fall asleep, or read its delimiter. -/
theorem read_eq_none (h : i.read = (none, i')) :
    i' = i ∨ (i.parts = [] ∧ i' = { i with inActive := false }) ∨
      ∃ m rest, m.isDelimiter = true ∧ i.parts = m :: rest ∧
        i' = { i with parts := rest, state := i.delimited } := by
  unfold read at h
  split at h
  · exact .inl (Prod.mk.inj h).2.symm
  split at h
  · exact .inr (.inl ⟨‹_›, (Prod.mk.inj h).2.symm⟩)
  · split at h
    · exact .inr (.inr ⟨_, _, ‹_›, ‹_›, (Prod.mk.inj h).2.symm⟩)
    · cases h

theorem Ok.read_some (hi : i.Ok) {m : Msg} (h : i.read = (some m, i')) : i'.Ok := by
  obtain ⟨-, -, hdel, rest, hparts, rfl⟩ := read_eq_some h
  unfold Ok at hi
  rw [hparts, Framed, if_neg (by simp [hdel])] at hi
  exact hi.2

/-- A routing id is a message of its own. -/
theorem Ok.read_routingId (hi : i.Ok) {m : Msg} (h : i.read = (some m, i'))
    (hid : m.isRoutingId = true) : i.midway = false ∧ m.more = false := by
  obtain ⟨-, -, hdel, rest, hparts, rfl⟩ := read_eq_some h
  unfold Ok at hi
  rw [hparts, Framed, if_neg (by simp [hdel])] at hi
  exact hi.1 hid

theorem Ok.read_none (hi : i.Ok) (h : i.read = (none, i')) : i'.Ok := by
  rcases read_eq_none h with rfl | ⟨-, rfl⟩ | ⟨m, rest, hdel, hparts, rfl⟩
  · exact hi
  · exact hi
  · unfold Ok at hi ⊢
    rw [hparts, Framed, if_pos hdel] at hi
    rw [hi.1]
    exact hi.2

theorem Ok.read (hi : i.Ok) : i.read.2.Ok := by
  cases h : i.read with
  | mk r i' =>
    cases r with
    | none => exact hi.read_none h
    | some m => exact hi.read_some h

theorem read_reading_of (h : i.read.2.reading = true) : i.reading = true := by
  cases hr : i.read with
  | mk r i' =>
    rw [hr] at h
    cases r with
    | some m => exact (read_eq_some hr).2.1
    | none =>
      rcases read_eq_none hr with rfl | ⟨-, rfl⟩ | ⟨m, rest, -, -, rfl⟩
      · exact h
      · exact h
      · cases h.symm.trans (delimited_reading i)

/-- The reader has looked at the pipe and found nothing, or has not looked at it. -/
def Skips (i i' : Inlet) : Prop := i' = i ∨ i.read = (none, i')

/-- A read that finds nothing changes nothing the second time. -/
theorem read_none_again (h : i.read = (none, i')) : i'.read = (none, i') := by
  rcases read_eq_none h with rfl | ⟨-, rfl⟩ | ⟨m, rest, -, -, rfl⟩
  · exact h
  · simp [read]
  · have := delimited_reading i
    unfold reading at this
    simp [read, reading, this]

theorem Skips.trans {i'' : Inlet} (h : i.Skips i') (h' : i'.Skips i'') : i.Skips i'' := by
  rcases h with rfl | h
  · exact h'
  rcases h' with rfl | h'
  · exact .inr h
  · rw [read_none_again h] at h'
    rw [← (Prod.mk.inj h').2]
    exact .inr h

theorem Skips.midway (h : i.Skips i') : i'.midway = i.midway := by
  rcases h with rfl | h
  · rfl
  · rcases read_eq_none h with rfl | ⟨-, rfl⟩ | ⟨m, rest, -, -, rfl⟩ <;> rfl

/-- What is skipped can be read again only if it could before. -/
theorem Skips.reading (h : i.Skips i') (hr : i'.reading = true) : i.reading = true := by
  rcases h with rfl | h
  · exact hr
  · refine read_reading_of ?_
    rw [h]
    exact hr

theorem Skips.length_le (h : i.Skips i') : i'.parts.length ≤ i.parts.length := by
  rcases h with rfl | h
  · exact Nat.le_refl _
  rcases read_eq_none h with rfl | ⟨-, rfl⟩ | ⟨m, rest, -, hparts, rfl⟩
  · exact Nat.le_refl _
  · exact Nat.le_refl _
  · simp [hparts]

/-- In the middle of a message the next part is there. -/
theorem Ok.read_midway (hi : i.Ok) (ha : i.inActive = true) (hr : i.reading = true)
    (hm : i.midway = true) :
    ∃ m rest, i.parts = m :: rest ∧
      i.read = (some m, { i with parts := rest, midway := m.more }) := by
  unfold Ok at hi
  cases hparts : i.parts with
  | nil =>
    rw [hparts, Framed, hm] at hi
    cases hi
  | cons m rest =>
    rw [hparts, Framed] at hi
    have hdel : m.isDelimiter = false := by
      cases hd : m.isDelimiter with
      | false => rfl
      | true =>
        rw [if_pos hd, hm] at hi
        cases hi.1
    exact ⟨m, rest, rfl, by simp [Inlet.read_of_open ha hr, hparts, hdel]⟩

/-- `check_read` changes the pipe as a `read` that finds nothing does, or not at all. -/
theorem checkRead_eq (i : Inlet) :
    i.checkRead = if i.read.1.isSome then (true, i) else (false, i.read.2) := by
  unfold checkRead read
  split
  · rfl
  cases i.parts with
  | nil => rfl
  | cons m rest =>
    by_cases hdel : m.isDelimiter
    · simp [hdel]
    · simp [hdel]

end Inlet

/-! ### The pipe behind an inlet -/

namespace PipeCall

/-- The inlet is what the pipe shows to its reader. -/
structure Shows (c : PipeCall) (i : Inlet) : Prop where
  inActive : c.pipe.inActive = i.inActive
  state : c.pipe.state = i.state
  parts : ∃ queue, c.heap.cell c.pipe.inPipe = some queue ∧ queue.flushed = i.parts
  /-- The two directions have different queues. -/
  apart : c.pipe.outPipe ≠ some c.pipe.inPipe

variable {c c' : PipeCall} {i : Inlet}

theorem Shows.reading (hs : c.Shows i) : c.pipe.reading = i.reading := by
  unfold Pipe.reading Inlet.reading
  rw [hs.state]

theorem skipCredentials_eq {ms : List Msg} (h : ∀ m ∈ ms, m.isCredential = false) :
    skipCredentials ms = .ok ms := by
  cases ms with
  | nil => rfl
  | cons m rest => simp [skipCredentials, h m (by simp)]

theorem rollback_pipe (c : PipeCall) : Ensures c.rollback (·.pipe = c.pipe) := by
  unfold rollback
  split
  · exact .ok rfl
  · exact .seq fun _ _ => .seq fun _ _ => .pure rfl

/-- The reader does not see what happens to the outbound queue. -/
theorem Shows.setQueue (hs : c.Shows i) {q : QueueId} (hq : c.pipe.outPipe = some q)
    (queue : Queue) : (c.setQueue q queue).Shows i := by
  obtain ⟨inQueue, hin, hparts⟩ := hs.parts
  refine ⟨hs.inActive, hs.state, ⟨inQueue, ?_, hparts⟩, hs.apart⟩
  have hne : c.pipe.inPipe ≠ q := by
    rintro rfl
    exact hs.apart hq
  exact (Arena.cell_set_of_ne _ _ hne).trans hin

theorem Shows.send (hs : c.Shows i) (cmd : Command) : (c.send cmd).Shows i :=
  ⟨hs.inActive, hs.state, hs.parts, hs.apart⟩

theorem Shows.ack (hs : c.Shows i) (state : PipeState) : (c.ack state).Shows { i with state } :=
  ⟨hs.inActive, rfl, hs.parts, by simp [PipeCall.ack, PipeCall.send]⟩

theorem Shows.rollback (hs : c.Shows i) :
    Ensures c.rollback fun c' => c'.Shows i ∧ c'.pipe = c.pipe := by
  unfold PipeCall.rollback
  split
  · exact .ok ⟨hs, rfl⟩
  · exact .seq fun _ _ => .seq fun _ _ => .pure ⟨hs.setQueue ‹_› _, rfl⟩

theorem Shows.flush (hs : c.Shows i) : Ensures c.flush (·.Shows i) := by
  refine .ite (fun _ => .ok hs) fun _ => ?_
  split
  · exact .ok hs
  refine .seq fun queue _ => .pure ?_
  split
  · exact hs.setQueue ‹_› _
  · exact (hs.setQueue ‹_› _).send _

theorem Shows.stopOutput (hs : c.Shows i) : Ensures c.stopOutput (·.Shows i) := by
  have hs1 : ({ c with pipe := { c.pipe with outActive := false } } : PipeCall).Shows i :=
    ⟨hs.inActive, hs.state, hs.parts, hs.apart⟩
  unfold PipeCall.stopOutput
  dsimp only
  split
  · exact .ok hs1
  rename_i q hq
  refine hs1.rollback.bind fun c1 h1 => .seq fun queue _ => (h1.1.setQueue ?_ _).flush
  rw [h1.2]
  exact hq

/-- `pipe_t::terminate` does what the inlet does. -/
theorem Shows.terminate (hs : c.Shows i) (delay : Bool) :
    Ensures (c.terminate delay) (·.Shows (i.terminate delay)) := by
  obtain ⟨parts, inActive, state, midway⟩ := i
  have hset : ∀ state, ({ c with pipe := { c.pipe with delay, state } } : PipeCall).Shows
      ⟨parts, inActive, state, midway⟩ := fun _ => ⟨hs.inActive, rfl, hs.parts, hs.apart⟩
  unfold PipeCall.terminate Inlet.terminate
  dsimp only
  rw [hs.state]
  cases state with
  | termReqSent1 | termReqSent2 | termAckSent => exact .ok (hset _)
  | active | delimiterReceived => exact ((hset _).send _).stopOutput
  | waitingForDelimiter =>
    cases delay with
    | true => exact (hset _).stopOutput
    | false => exact (hset _).rollback.bind fun _ h1 => (h1.1.ack _).stopOutput

/-- A delimiter ends the reading; the inbound queue stays as it is. -/
theorem Shows.processDelimiter (hs : c.Shows i) :
    Ensures c.processDelimiter (·.Shows { i with state := i.delimited }) := by
  unfold PipeCall.processDelimiter Inlet.delimited
  rw [← hs.state]
  cases c.pipe.state with
  | active => exact .ok ⟨hs.inActive, rfl, hs.parts, hs.apart⟩
  | waitingForDelimiter => exact hs.rollback.bind fun _ h1 => .pure (h1.1.ack _)
  | delimiterReceived | termAckSent | termReqSent1 | termReqSent2 => exact .error _ _

/-- `pipe_t::read` does what the inlet does. -/
theorem Shows.read (hs : c.Shows i) (hcred : ∀ m ∈ i.parts, m.isCredential = false) :
    Ensures c.read fun r => r.1 = i.read.1 ∧ r.2.Shows i.read.2 := by
  obtain ⟨parts, inActive, state, midway⟩ := i
  obtain ⟨queue, hq, hparts⟩ := hs.parts
  have hskip : skipCredentials queue.flushed = .ok parts := hparts ▸ skipCredentials_eq hcred
  by_cases hopen : c.pipe.inActive = true ∧ c.pipe.reading = true
  · rw [read_eq hopen.1 hopen.2 hq hskip,
      Inlet.read_of_open (hs.inActive ▸ hopen.1) (hs.reading ▸ hopen.2)]
    cases parts with
    | nil => exact .ok ⟨rfl, rfl, hs.state, ⟨_, Arena.cell_set _ _ _, rfl⟩, hs.apart⟩
    | cons m rest =>
      have hset : (c.setQueue c.pipe.inPipe { queue with flushed := rest }).Shows
          ⟨rest, inActive, state, midway⟩ :=
        ⟨hs.inActive, hs.state, ⟨_, Arena.cell_set _ _ _, rfl⟩, hs.apart⟩
      cases hdel : m.isDelimiter with
      | true =>
        simp only [hdel, if_true]
        exact .map fun c1 h1 => ⟨rfl, hset.processDelimiter c1 h1⟩
      | false =>
        simp only [hdel, Bool.false_eq_true, if_false]
        exact .ok ⟨rfl, hset.inActive, hset.state, hset.parts, hset.apart⟩
  · have hclosed := not_readable hopen
    simp only [PipeCall.read, hclosed, if_true]
    rw [hs.inActive, hs.reading] at hclosed
    simp only [Inlet.read, hclosed, if_true]
    exact .ok ⟨rfl, hs⟩

/-- What the owner of a pipe reads (`ms`), among other calls, while the peer publishes `new`. -/
inductive Reads : PipeCall → List Msg → List Msg → Prop
  | done {c : PipeCall} : Reads c [] []
  | read {c c1 : PipeCall} {new ms : List Msg} {r : Option Msg} (hr : c.read = .ok (r, c1))
      (h : Reads c1 new ms) : Reads c new (r.toList ++ ms)
  | call {c c1 : PipeCall} {new ms : List Msg} {delay : Bool} (hc : c.terminate delay = .ok c1 ∨
      c.rollback = .ok c1 ∨ c.flush = .ok c1 ∨ c.processActivateRead = c1)
      (h : Reads c1 new ms) : Reads c new ms
  | publish {c : PipeCall} {ps new ms : List Msg} {q : Queue}
      (hq : c.heap.cell c.pipe.inPipe = some q)
      (h : Reads (c.setQueue c.pipe.inPipe { q with flushed := q.flushed ++ ps }) new ms) :
      Reads c (ps ++ new) ms

/-- **What is read.** Messages in front of the delimiter, in order and each of them once. -/
theorem reads_before_delimiter {new ms : List Msg} (h : Reads c new ms) (hs : c.Shows i)
    (hcred : ∀ m ∈ i.parts ++ new, m.isCredential = false) :
    ms <+: (i.parts ++ new).takeWhile (!·.isDelimiter) ∧ (i.reading = false → ms = []) := by
  induction h generalizing i with
  | done => exact And.intro nil_prefix fun _ => rfl
  | read hr _ ih =>
    obtain ⟨rfl, hs1⟩ := hs.read (fun m hm => hcred m (by simp [hm])) _ hr
    cases hread : i.read with
    | mk r i' =>
      rw [hread] at hs1
      cases r with
      | some m =>
        obtain ⟨-, hopen, hdel, rest, hparts, rfl⟩ := Inlet.read_eq_some hread
        rw [hparts] at hcred ⊢
        obtain ⟨hms, -⟩ := ih hs1 fun m' hm => hcred m' (mem_cons_of_mem _ hm)
        exact ⟨by simpa [hdel] using hms, fun hclosed => by simp [hopen] at hclosed⟩
      | none =>
        obtain rfl | ⟨-, rfl⟩ | ⟨m, rest, -, hparts, rfl⟩ := Inlet.read_eq_none hread
        · exact ih hs1 hcred
        · exact @ih { i with inActive := false } hs1 hcred
        rw [hparts] at hcred
        obtain ⟨-, hnil⟩ := ih hs1 fun m' hm => hcred m' (mem_cons_of_mem _ hm)
        rw [hnil (Inlet.delimited_reading _)]
        exact And.intro nil_prefix fun _ => rfl
  | @call c c1 new ms delay hc _ ih =>
    rcases hc with ht | hr | hf | rfl
    · have hparts : (i.terminate delay).parts = i.parts := by
        obtain ⟨state, he⟩ := i.terminate_eq delay
        rw [he]
      obtain ⟨hms, hnil⟩ := ih (hs.terminate delay _ ht) (by rwa [hparts])
      rw [hparts] at hms
      refine ⟨hms, fun hclosed => hnil (Bool.eq_false_iff.mpr fun hopen => ?_)⟩
      rw [Inlet.terminate_reading_of hopen] at hclosed
      cases hclosed
    · exact ih (hs.rollback _ hr).1 hcred
    · exact ih (hs.flush _ hf) hcred
    · unfold processActivateRead at ih
      split at ih
      · exact @ih { i with inActive := true } ⟨rfl, hs.state, hs.parts, hs.apart⟩ hcred
      · exact ih hs hcred
  | @publish c ps new ms q hq _ ih =>
    obtain ⟨q', hq', hparts⟩ := hs.parts
    cases hq.symm.trans hq'
    rw [← append_assoc] at hcred ⊢
    exact @ih { i with parts := i.parts ++ ps } ⟨hs.inActive, hs.state,
      ⟨_, Arena.cell_set _ _ _, by rw [hparts]⟩, hs.apart⟩ hcred

/-- Two messages are read among calls of `rollback`, `flush` and `process_activate_read`. What is
published behind the delimiter is not read, also not before the pipe is terminated. -/
theorem reads_before_delimiter_calls : ∃ c : PipeCall,
    Reads c [initBuffer [1], initBuffer [2], initDelimiter, initBuffer [3]]
      [initBuffer [1], initBuffer [2]] ∧
    [initBuffer [1], initBuffer [2]] <+:
      [initBuffer [1], initBuffer [2], initDelimiter, initBuffer [3]].takeWhile
        (!·.isDelimiter) := by
  have h : Reads ⟨.new 0 1 0 0, ⟨fun _ => some {}, 2⟩, []⟩
      ([initBuffer [1]] ++ ([initBuffer [2], initDelimiter] ++ ([initBuffer [3]] ++ [])))
      ((some (initBuffer [1])).toList ++ ((some (initBuffer [2])).toList ++
        (none.toList ++ (none.toList ++ [])))) := by
    refine .publish rfl (.read rfl (@Reads.call _ _ _ _ false (.inr (.inl rfl)) ?_))
    refine .publish rfl (@Reads.call _ _ _ _ false (.inr (.inr (.inl rfl))) ?_)
    refine .read rfl (.read rfl (.publish rfl ?_))
    refine @Reads.call _ _ _ _ false (.inr (.inr (.inr rfl))) (.read rfl ?_)
    exact @Reads.call _ _ _ _ true (.inl rfl) .done
  exact ⟨_, h, (@reads_before_delimiter _ { parts := [] } _ _ h
    ⟨rfl, rfl, ⟨{}, rfl, rfl⟩, by decide⟩ (by decide)).1⟩

end PipeCall

end ServerLink

import ServerLink.Core.Polling
import ServerLink.Core.XSubRecv
import ServerLink.Spot.Publish

/-!
# ServerLink.Spot.Receive

`spot_pubsub_t::recv`: a message is two frames of the receiving socket, the topic and the
data, and a call takes them one after the other. A call that finds the topic too long for
its buffer returns after the first of them; the next call takes the data for a topic.
`inStep_of_fits` says that this is the only way to get out of step.
-/

namespace ServerLink

open Function List CheckedRun

/-- What a call of `recv` that finds a frame returns. -/
inductive RecvAnswer
  | message (topicId : TopicId) (data : List UInt8)
  | error (e : Errno)
  /-- The topic has been taken, and the call waits for a frame with the data. -/
  | waits
  deriving Repr, DecidableEq

/-- A published message. -/
abbrev SpotMessage := TopicId × List UInt8

namespace SpotMessage

/-- Its two frames. -/
def toMultipart (x : SpotMessage) : MultipartMsg := .ofData [x.1] x.2

theorem toMultipart_parts (x : SpotMessage) :
    (toMultipart x).parts = [SpotInstance.topicFrame x.1, SpotInstance.dataFrame x.2] := rfl

end SpotMessage

/-- The receiving socket of an instance with the messages that were published to each of its
pipes and what the calls of `recv` have returned, each for the pipe of its first frame. -/
structure SpotReceiver where
  socket : XSubRecv
  published : PipeId → List SpotMessage
  answers : List (PipeId × RecvAnswer)

/-- What can happen: a publisher is connected, publishes a message, wakes the reader, and a
call of `recv`. -/
inductive ReceiveEvent
  | attach (pipe : PipeId)
  | publish (pipe : PipeId) (topicId : TopicId) (data : List UInt8)
  | activateRead (pipe : PipeId)
  | recv (topicBufSize dataBufSize : Nat)
  deriving Repr, DecidableEq

namespace SpotReceiver

open SpotInstance

variable {queue : FairQueue}

/-- An XSUB socket does not filter what it receives. -/
def new : SpotReceiver := ⟨.new false, fun _ => [], []⟩

/-- `recv`. Without a message it returns `EAGAIN` or goes on waiting. -/
def recv (s : XSubRecv) (topicBufSize dataBufSize : Nat) :
    Except Fault (Option (PipeId × RecvAnswer) × XSubRecv) :=
  match s.xrecv fun _ => true with
  | .error e => .error e
  | .ok (none, s) => .ok (none, s)
  | .ok (some topic, s) =>
    if topicBufSize < topic.msg.size then .ok (some (topic.pipe, .error .emsgsize), s)
    else
      match s.xrecv fun _ => true with
      | .error e => .error e
      | .ok (none, s) => .ok (some (topic.pipe, .waits), s)
      | .ok (some data, s) =>
        if dataBufSize < data.msg.size then .ok (some (topic.pipe, .error .emsgsize), s)
        else .ok (some (topic.pipe, .message topic.msg.data data.msg.data), s)

def step (s : SpotReceiver) : ReceiveEvent → Except Fault SpotReceiver
  | .attach pipe =>
    if pipe ∈ s.socket.queue.fq.pipes.items then .ok s
    else .ok { s with socket.queue := s.socket.queue.attach pipe {} }
  | .publish pipe topicId data =>
    if pipe ∈ s.socket.queue.fq.pipes.items then
      .ok { s with
        socket.queue := s.socket.queue.modify pipe
          (·.publish (SpotMessage.toMultipart (topicId, data)).parts)
        published := update s.published pipe (s.published pipe ++ [(topicId, data)]) }
    else .ok s
  | .activateRead pipe =>
    if pipe ∈ s.socket.queue.fq.pipes.items then
      .ok { s with socket.queue := s.socket.queue.activateRead pipe }
    else .ok s
  | .recv topicBufSize dataBufSize =>
    match recv s.socket topicBufSize dataBufSize with
    | .error e => .error e
    | .ok (answer, socket) => .ok { s with socket, answers := s.answers ++ answer.toList }

/-- The topic of the message that is next fits into the buffer. -/
def Fits (s : SpotReceiver) : ReceiveEvent → Prop
  | .recv topicBufSize _ => ∀ x ∈ s.socket.queue.rest.head?, x.2.size ≤ topicBufSize
  | _ => True

instance (s : SpotReceiver) (e : ReceiveEvent) : Decidable (s.Fits e) := by
  unfold Fits
  split <;> infer_instance

/-- What the calls have returned for messages of the pipe. -/
def answersOf (s : SpotReceiver) (p : PipeId) : List RecvAnswer :=
  (s.answers.filter (·.1 = p)).map Prod.snd

/-- The message was returned, or it was dropped since the data was too long. -/
def Answers (a : RecvAnswer) (x : SpotMessage) : Prop :=
  a = .message x.1 x.2 ∨ a = .error .emsgsize

/-- The answers are for the first messages of each pipe, in order and one for each; the
frames of the others are still there. -/
def InStep (s : SpotReceiver) : Prop :=
  ∀ p, ∃ taken remaining, s.published p = taken ++ remaining ∧
    List.Forall₂ Answers (s.answersOf p) taken ∧
    (p ∈ s.socket.queue.fq.pipes.items → (s.socket.queue.pipes p).parts =
      (remaining.map SpotMessage.toMultipart).flatMap MultipartMsg.parts)

/-- The reader is between two messages. -/
structure Inv (s : SpotReceiver) (taken remaining : PipeId → List SpotMessage) : Prop where
  steady : s.socket.queue.Steady
  between : s.socket.queue.fq.more = false
  message : s.socket.message = none
  filter : s.socket.filter = false
  contains : s.socket.queue.Contains fun p => (remaining p).map SpotMessage.toMultipart
  published : ∀ p, s.published p = taken p ++ remaining p
  unattached : ∀ p, p ∉ s.socket.queue.fq.pipes.items → remaining p = []
  answered : ∀ p, List.Forall₂ Answers (s.answersOf p) (taken p)

theorem new_inv : new.Inv (fun _ => []) fun _ => [] where
  steady := FairQueue.empty_steady
  between := rfl
  message := rfl
  filter := rfl
  contains p hp := by cases hp
  published _ := rfl
  unattached _ _ := rfl
  answered _ := .nil

variable {s s' : SpotReceiver} {taken remaining : PipeId → List SpotMessage} {p : PipeId}

theorem Inv.inStep (h : s.Inv taken remaining) : s.InStep := by
  intro p
  exact ⟨taken p, remaining p, h.published p, h.answered p, fun hp => h.contains p hp⟩

/-! ### What happens at the pipes -/

theorem Inv.attach (h : s.Inv taken remaining) (hp : p ∉ s.socket.queue.fq.pipes.items) :
    Inv { s with socket.queue := s.socket.queue.attach p {} } taken remaining := by
  have hmem : ∀ q, q ∈ (s.socket.queue.attach p {}).fq.pipes.items ↔
      q ∈ s.socket.queue.fq.pipes.items ∨ q = p := fun q => h.steady.ok.fq.mem_attach
  refine ⟨h.steady.attach hp rfl rfl, h.between, h.message, h.filter, fun q hq => ?_,
    h.published, fun q hq => h.unattached q fun hold => hq ((hmem q).mpr (Or.inl hold)), h.answered⟩
  by_cases hqp : q = p
  · subst hqp
    simp [FairQueue.attach, h.unattached q hp]
  · simp only [FairQueue.attach, update_of_ne hqp]
    exact h.contains q (((hmem q).mp hq).resolve_right hqp)

theorem Inv.publish (h : s.Inv taken remaining) (hp : p ∈ s.socket.queue.fq.pipes.items)
    (x : SpotMessage) :
    Inv { s with
        socket.queue := s.socket.queue.modify p (·.publish (SpotMessage.toMultipart x).parts)
        published := update s.published p (s.published p ++ [x]) } taken
      (update remaining p (remaining p ++ [x])) := by
  have hok := (h.steady.ok.framed p).publish (Inlet.framed_parts (SpotMessage.toMultipart x))
  have hsteady : (s.socket.queue.modify p (·.publish (SpotMessage.toMultipart x).parts)).Steady :=
    h.steady.modify rfl hok rfl fun hholds => hholds.reading
  refine ⟨hsteady, h.between, h.message, h.filter,
    fun q hq => ?_, fun q => ?_, fun q hq => ?_, h.answered⟩
  · by_cases hqp : q = p
    · subst hqp
      simp only [FairQueue.modify, update_self, Inlet.publish, map_append,
        flatMap_append, h.contains q hp, map_singleton, flatMap_singleton]
    · simp only [FairQueue.modify, update_of_ne hqp]
      exact h.contains q hq
  · by_cases hqp : q = p
    · subst hqp
      simp only [update_self, h.published q, append_assoc]
    · simp only [update_of_ne hqp]
      exact h.published q
  · have hqp : q ≠ p := fun heq => hq (heq ▸ hp)
    rw [update_of_ne hqp]
    exact h.unattached q hq

theorem Inv.activateRead (h : s.Inv taken remaining) (hp : p ∈ s.socket.queue.fq.pipes.items) :
    Inv { s with socket.queue := s.socket.queue.activateRead p } taken remaining := by
  have hmem : ∀ q, q ∈ (s.socket.queue.activateRead p).fq.pipes.items ↔
      q ∈ s.socket.queue.fq.pipes.items := fun q => h.steady.ok.mem_activateRead hp
  refine ⟨h.steady.activateRead hp, (s.socket.queue.activateRead_more p).trans h.between,
    h.message, h.filter, fun q hq => ?_, h.published,
    fun q hq => h.unattached q fun hold => hq ((hmem q).mpr hold), h.answered⟩
  obtain ⟨inActive, heq⟩ := s.socket.queue.activateRead_pipes p q
  rw [heq]
  exact h.contains q ((hmem q).mp hq)

/-! ### A call of `recv` -/

/-- The socket takes whatever frame its queue hands out. -/
theorem xrecv_plain {r : XSubRecv} (hm : r.message = none) (hf : r.filter = false) {m : Msg}
    (h : r.queue.recvpipe = .ok (some (p, m), queue)) :
    ∃ frame, (r.xrecv fun _ => true) = .ok (some frame, { r with queue, moreRecv := m.more }) ∧
      frame.pipe = p ∧ frame.msg = m := by
  refine ⟨⟨p, m, !(r.queue.pipes p).midway⟩, ?_, rfl, rfl⟩
  rw [XSubRecv.xrecv_of_none hm, FairQueue.fetch, FairQueue.recv, h]
  simp [hf]

theorem xrecv_nothing {r : XSubRecv} (hm : r.message = none)
    (h : r.queue.recvpipe = .ok (none, queue)) :
    (r.xrecv fun _ => true) = .ok (none, { r with queue }) := by
  rw [XSubRecv.xrecv_of_none hm, FairQueue.fetch, FairQueue.recv, h]

theorem Inv.recv_nothing (h : s.Inv taken remaining) (hf : s.socket.queue.Found queue)
    (hs : queue.Steady) : Inv { s with socket.queue := queue } taken remaining := by
  refine ⟨hs, hf.more.trans h.between, h.message, h.filter, fun q hq => ?_, h.published,
    fun q hq => h.unattached q fun hold => hq ((hf.mem q).mpr hold), h.answered⟩
  have hq := (hf.mem q).mp hq
  exact ((hf.skipped q).parts_eq (h.contains.plain hq)).trans (h.contains q hq)

/-- The two frames of the first message of a pipe are taken one after the other. -/
theorem Inv.takes (h : s.Inv taken remaining) {m : Msg}
    (heq : s.socket.queue.recvpipe = .ok (some (p, m), queue)) (ht : s.socket.queue.Took p m queue)
    (hs : queue.Steady) :
    ∃ x xs queue', remaining p = x :: xs ∧ m = topicFrame x.1 ∧
      queue.recvpipe = .ok (some (p, dataFrame x.2), queue') ∧
      s.socket.queue.Finishes p (SpotMessage.toMultipart x).parts queue' := by
  have hp : p ∈ s.socket.queue.fq.pipes.items := ht.active.mem
  obtain ⟨-, -, -, rest, hparts, hafter⟩ := Inlet.read_eq_some ht.read
  have hcontents : m :: rest =
      ((remaining p).map SpotMessage.toMultipart).flatMap MultipartMsg.parts :=
    hparts.symm.trans (h.contains p hp)
  cases hrem : remaining p with
  | nil =>
    rw [hrem] at hcontents
    cases hcontents
  | cons x xs =>
    rw [hrem, map_cons, flatMap_cons, SpotMessage.toMultipart_parts] at hcontents
    obtain ⟨rfl, hrest⟩ := cons.inj hcontents
    -- The topic has the more flag, so that the next frame comes from the same pipe.
    have hholds := ht.holds_more (topicFrame_more x.1)
    rcases hs.recvpipe with ⟨q, m', queue', heq', ht', hs'⟩ | ⟨_, -, -, -, hno⟩
    · obtain rfl : p = q := hholds.current.unique (ht'.current hholds.more)
      obtain ⟨-, -, -, rest', hparts', -⟩ := Inlet.read_eq_some ht'.read
      rw [hafter] at hparts'
      obtain rfl : m' = dataFrame x.2 :=
        (cons.inj (hparts'.symm.trans hrest)).1
      have hlast := FairQueue.finishes_last hs heq' ht' hs' (dataFrame_more x.2)
      exact ⟨x, xs, queue', rfl, rfl, heq', hlast.cons h.steady heq ht hs⟩
    · rw [hholds.more] at hno
      cases hno

/-- The first message of the pipe has been taken, and this is the answer for it. -/
theorem Inv.answer (h : s.Inv taken remaining) {x : SpotMessage} {xs : List SpotMessage}
    (hrem : remaining p = x :: xs) (hp : p ∈ s.socket.queue.fq.pipes.items)
    (hf : s.socket.queue.Finishes p (SpotMessage.toMultipart x).parts queue) (socket : XSubRecv)
    (hqueue : socket.queue = queue) (hmessage : socket.message = none)
    (hfilter : socket.filter = false) {a : RecvAnswer} (ha : Answers a x) :
    Inv { s with socket, answers := s.answers ++ [(p, a)] }
      (update taken p (taken p ++ [x])) (update remaining p xs) := by
  subst hqueue
  have hcontents : (remaining p).map SpotMessage.toMultipart =
      SpotMessage.toMultipart x :: xs.map SpotMessage.toMultipart := by
    rw [hrem, map_cons]
  refine ⟨hf.steady, hf.between, hmessage, hfilter, fun q hq => ?_, fun q => ?_, fun q hq => ?_,
    fun q => ?_⟩
  · refine ((hf.contains h.contains hp hcontents) q hq).trans ?_
    by_cases hqp : q = p
    · subst hqp
      simp only [update_self]
    · simp only [update_of_ne hqp]
  · show s.published q = _
    rw [h.published q]
    by_cases hqp : q = p
    · subst hqp
      simp only [update_self, hrem, append_assoc, singleton_append]
    · simp only [update_of_ne hqp]
  · have hold : q ∉ s.socket.queue.fq.pipes.items := fun hq' => hq ((hf.mem q).mpr hq')
    have hqp : q ≠ p := fun heq => hold (heq ▸ hp)
    rw [update_of_ne hqp]
    exact h.unattached q hold
  have hanswers : answersOf { s with socket, answers := s.answers ++ [(p, a)] } q =
      s.answersOf q ++ if p = q then [a] else [] := by
    simp only [answersOf, filter_append, map_append]
    by_cases hpq : p = q <;> simp [hpq]
  rw [hanswers]
  by_cases hqp : q = p
  · subst hqp
    rw [if_pos rfl, update_self]
    exact rel_append (h.answered q) (.cons ha .nil)
  · rw [if_neg (Ne.symm hqp), append_nil, update_of_ne hqp]
    exact h.answered q

theorem Inv.recv (h : s.Inv taken remaining) {topicBufSize dataBufSize : Nat}
    (hfits : s.Fits (.recv topicBufSize dataBufSize)) :
    ∃ s' taken' remaining', s.step (.recv topicBufSize dataBufSize) = .ok s' ∧
      s'.Inv taken' remaining' := by
  rcases h.steady.recvpipe with ⟨p, m, queue, heq, ht, hs⟩ | ⟨queue, heq, hf, hs, -⟩
  · obtain ⟨x, xs, queue', hrem, rfl, heq', hfin⟩ := h.takes heq ht hs
    obtain ⟨frame, hfirst, rfl, hmsg⟩ := xrecv_plain h.message h.filter heq
    have hsize : ¬ topicBufSize < frame.msg.size := by
      have := hfits (frame.pipe, topicFrame x.1) (by
        rw [h.steady.rest_took heq ht hs]
        rfl)
      rw [hmsg]
      exact Nat.not_lt.mpr this
    obtain ⟨frame', hsecond, -, hmsg'⟩ := xrecv_plain
      (r := { s.socket with queue, moreRecv := (topicFrame x.1).more }) h.message h.filter heq'
    have hstep : ∃ a, Answers a x ∧ SpotReceiver.recv s.socket topicBufSize dataBufSize =
        .ok (some (frame.pipe, a), { s.socket with
          queue := queue', moreRecv := (dataFrame x.2).more }) := by
      rw [SpotReceiver.recv, hfirst]
      simp only [if_neg hsize, hsecond]
      by_cases hdata : dataBufSize < frame'.msg.size
      · exact ⟨.error .emsgsize, Or.inr rfl, by rw [if_pos hdata]⟩
      · refine ⟨.message x.1 x.2, Or.inl rfl, ?_⟩
        rw [if_neg hdata, hmsg, hmsg']
        rfl
    obtain ⟨a, ha, hrecv⟩ := hstep
    refine ⟨_, _, _, ?_, h.answer hrem ht.active.mem hfin
      { s.socket with queue := queue', moreRecv := (dataFrame x.2).more } rfl h.message h.filter
      ha⟩
    rw [SpotReceiver.step, hrecv]
    rfl
  · refine ⟨{ s with socket.queue := queue }, taken, remaining, ?_, h.recv_nothing hf hs⟩
    rw [SpotReceiver.step, SpotReceiver.recv, xrecv_nothing h.message heq]
    simp

/-! ### Whole runs -/

theorem Inv.step (h : s.Inv taken remaining) {e : ReceiveEvent} (hfits : s.Fits e) :
    ∃ s' taken' remaining', s.step e = .ok s' ∧ s'.Inv taken' remaining' := by
  cases e with
  | attach pipe =>
    simp only [SpotReceiver.step]
    split
    · exact ⟨s, taken, remaining, rfl, h⟩
    · rename_i hp
      exact ⟨_, taken, remaining, rfl, h.attach hp⟩
  | publish pipe topicId data =>
    simp only [SpotReceiver.step]
    split
    · rename_i hp
      exact ⟨_, taken, _, rfl, h.publish hp (topicId, data)⟩
    · exact ⟨s, taken, remaining, rfl, h⟩
  | activateRead pipe =>
    simp only [SpotReceiver.step]
    split
    · rename_i hp
      exact ⟨_, taken, remaining, rfl, h.activateRead hp⟩
    · exact ⟨s, taken, remaining, rfl, h⟩
  | recv topicBufSize dataBufSize => exact h.recv hfits

/-- **Receiving.** In every run in which the topic that is next fits into the buffer of each
call of `recv`, the calls stay in step with the messages. -/
theorem inStep_of_fits {events : List ReceiveEvent}
    (hfits : CheckedRun.Along step Fits new events) :
    ∃ s, run step new events = .ok s ∧ s.InStep := by
  obtain ⟨s, hrun, taken, remaining, h⟩ := run_ok_of_step
    (I := fun s => ∃ taken remaining, Inv s taken remaining)
    (fun s e hI hfits => by
      obtain ⟨taken, remaining, h⟩ := hI
      obtain ⟨s', taken', remaining', hs', h'⟩ := h.step hfits
      exact ⟨s', hs', taken', remaining', h'⟩)
    ⟨fun _ => [], fun _ => [], new_inv⟩ hfits
  exact ⟨s, hrun, h.inStep⟩

/-- Two publishers; the data of one message does not fit, and that message is dropped. -/
theorem inStep_dropped :
    ∃ s, run step new [.attach 0, .attach 1, .publish 0 [97] [1, 2], .publish 1 [98] [3],
        .publish 0 [99] [4], .recv 1 1, .recv 1 1, .recv 1 1, .recv 1 1] = .ok s ∧ s.InStep :=
  inStep_of_fits (by decide +kernel)

/-- The topic `ab` does not fit; the next call returns the data of its message as a topic,
and the topic of the next message as its data. -/
theorem recv_out_of_step :
    ∃ s, run step new [.attach 0, .publish 0 [97, 98] [1], .publish 0 [99] [2],
        .recv 1 8, .recv 8 8] = .ok s ∧
      s.answers = [(0, .error .emsgsize), (0, .message [1] [99])] ∧
      s.published 0 = [([97, 98], [1]), ([99], [2])] :=
  exists_run (by decide +kernel)

end SpotReceiver

end ServerLink

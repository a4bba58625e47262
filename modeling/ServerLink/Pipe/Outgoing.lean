import ServerLink.Pipe.Inlet

/-!
# ServerLink.Pipe.Outgoing

What a pipe end puts into its outbound queue. `WritesTo` describes the pipe and the queue, and
`Outgoing` the queue between two calls of a writer that flushes every message. What the peer takes
out of the queue is not looked at, so that the flushed messages are all that were ever flushed.

Writing and flushing add to the queue. Whatever else happens at the pipe (`Settles`) drops the
parts of a message that is not complete or adds a delimiter, and does either only when the pipe
stops being active.
-/

namespace ServerLink

open List Arena Checked

/-- The pipe has not asked for termination nor acknowledged it. -/
def PipeState.isOpen : PipeState → Bool
  | .active | .delimiterReceived | .waitingForDelimiter => true
  | .termAckSent | .termReqSent1 | .termReqSent2 => false

namespace PipeCall

/-- The queue `q` is the one the pipe writes to, unless the pipe has given it up. -/
structure WritesTo (c : PipeCall) (q : QueueId) (queue : Queue) : Prop where
  cell : c.heap.cell q = some queue
  ok : QueueOk queue
  apart : c.pipe.inPipe ≠ q
  outPipe : c.pipe.outPipe = some q ∨ c.pipe.outPipe = none
  isOpen : c.pipe.state.isOpen = true → c.pipe.outPipe = some q

/-- All complete messages are flushed. -/
def Outgoing (c : PipeCall) (q : QueueId) (flushed incomplete : List Msg) : Prop :=
  ∃ queue, c.WritesTo q queue ∧ queue.flushed = flushed ∧ queue.pending = [] ∧
    queue.incomplete = incomplete

/-- Nothing is written. The queue stays as it is while the pipe is active. -/
structure Leaves (c : PipeCall) (q : QueueId) (queue : Queue) (c' : PipeCall) (queue' : Queue) :
    Prop where
  writes : c'.WritesTo q queue'
  active : c'.pipe.state = .active → c.pipe.state = .active ∧ queue' = queue
  outPipe : c'.pipe.outPipe = some q → c.pipe.outPipe = some q
  deleted : c'.pipe.deleted = c.pipe.deleted
  complete : ∃ n, queue'.complete = queue.complete ++ replicate n .initDelimiter
  flushed : queue.flushed <+: queue'.flushed
  pending : queue.pending = [] → queue'.pending = []
  incomplete : queue'.incomplete = queue.incomplete ∨ queue'.incomplete = []

/-- The same, whatever the queue holds. -/
def Settles (c : PipeCall) (q : QueueId) (c' : PipeCall) : Prop :=
  ∀ queue, c.WritesTo q queue → ∃ queue', c.Leaves q queue c' queue'

variable {c c' c'' : PipeCall} {q : QueueId} {queue : Queue} {flushed incomplete : List Msg}

theorem WritesTo.of_active (h : c.WritesTo q queue) (hs : c.pipe.state = .active) :
    c.pipe.outPipe = some q :=
  h.isOpen (by rw [hs]; rfl)

theorem Settles.trans (h : c.Settles q c') (h' : c'.Settles q c'') : c.Settles q c'' := by
  intro queue hw
  obtain ⟨queue1, h1⟩ := h queue hw
  obtain ⟨queue2, h2⟩ := h' queue1 h1.writes
  obtain ⟨n, hn⟩ := h1.complete
  obtain ⟨k, hk⟩ := h2.complete
  refine ⟨queue2, h2.writes, fun hs => ?_, fun ho => h1.outPipe (h2.outPipe ho),
    h2.deleted.trans h1.deleted, ⟨n + k, ?_⟩, h1.flushed.trans h2.flushed,
    fun hp => h2.pending (h1.pending hp), ?_⟩
  · obtain ⟨hs1, rfl⟩ := h2.active hs
    exact h1.active hs1
  · rw [hk, hn, append_assoc, replicate_append_replicate]
  · rcases h2.incomplete with hi | hi
    · rw [hi]
      exact h1.incomplete
    · exact .inr hi

/-- What it means for a writer that flushes every message. -/
theorem Settles.outgoing (h : c.Settles q c') (hout : c.Outgoing q flushed incomplete) :
    (c'.pipe.state = .active → c.pipe.state = .active) ∧
    (c'.pipe.outPipe = some q → c.pipe.outPipe = some q) ∧
    c'.pipe.deleted = c.pipe.deleted ∧
    ∃ n incomplete', c'.Outgoing q (flushed ++ replicate n .initDelimiter) incomplete' ∧
      (incomplete' = incomplete ∨ incomplete' = []) ∧
      (c'.pipe.state = .active → n = 0 ∧ incomplete' = incomplete) := by
  obtain ⟨queue, hw, rfl, hp, rfl⟩ := hout
  obtain ⟨queue', hl⟩ := h queue hw
  obtain ⟨n, hn⟩ := hl.complete
  have hp' := hl.pending hp
  rw [FlushQueue.complete, FlushQueue.complete, hp, hp', append_nil, append_nil] at hn
  refine ⟨fun hs => (hl.active hs).1, hl.outPipe, hl.deleted, n, queue'.incomplete,
    ⟨queue', hl.writes, hn, hp', rfl⟩, hl.incomplete, fun hs => ?_⟩
  obtain ⟨-, rfl⟩ := hl.active hs
  refine ⟨?_, rfl⟩
  simpa using hn

/-- The outbound queue is left alone, and the pipe does not become active. -/
theorem settles_of_cell (hcell : c'.heap.cell q = c.heap.cell q)
    (hin : c'.pipe.inPipe = c.pipe.inPipe) (hdel : c'.pipe.deleted = c.pipe.deleted)
    (hout : c'.pipe.outPipe = c.pipe.outPipe ∨
      c'.pipe.outPipe = none ∧ c'.pipe.state.isOpen = false)
    (hact : c'.pipe.state = .active → c.pipe.state = .active)
    (hopen : c'.pipe.state.isOpen = true → c.pipe.state.isOpen = true) : c.Settles q c' := by
  intro queue h
  refine ⟨queue, ⟨hcell.trans h.cell, h.ok, hin ▸ h.apart, ?_, fun hs => ?_⟩,
    fun hs => ⟨hact hs, rfl⟩, fun ho => ?_, hdel, ⟨0, (append_nil _).symm⟩,
    prefix_refl _, id, .inl rfl⟩
  · rcases hout with heq | ⟨hnone, -⟩
    · rw [heq]
      exact h.outPipe
    · exact .inr hnone
  · rcases hout with heq | ⟨-, hne⟩
    · exact heq.trans (h.isOpen (hopen hs))
    · rw [hne] at hs
      cases hs
  · rcases hout with heq | ⟨hnone, -⟩
    · exact heq.symm.trans ho
    · rw [hnone] at ho
      cases ho

theorem settles_refl (c : PipeCall) (q : QueueId) : c.Settles q c :=
  settles_of_cell rfl rfl rfl (.inl rfl) id id

/-! ### Writing -/

/-- `check_write` at most notes that the pipe is full. -/
theorem settles_checkWrite (c : PipeCall) (q : QueueId) : c.Settles q c.checkWrite.2 := by
  rcases c.checkWrite_cases with ⟨h, -⟩ | ⟨act, h, -⟩
  · rw [h]
    exact settles_refl c q
  · rw [h]
    exact settles_of_cell rfl rfl rfl (.inl rfl) id id

/-- The pipe after a part was written. -/
def wrote (c : PipeCall) (m : Msg) : Pipe :=
  { c.pipe with msgsWritten := c.pipe.msgsWritten + count m }

/-- A part is refused, or it goes into the queue. -/
theorem WritesTo.write (h : c.WritesTo q queue) (m : OwnerMsg) :
    (∃ c', c.write m.msg = .ok (false, c') ∧ c.Settles q c') ∨
    (c.pipe.state = .active ∧ ∃ c', c.write m.msg = .ok (true, c') ∧ c'.pipe = c.wrote m.msg ∧
      c'.WritesTo q (queue.write m.msg m.msg.more)) := by
  rcases c.checkWrite_cases with ⟨hcheck, -, hs, -⟩ | ⟨act, hcheck, -⟩
  · exact .inr ⟨hs, _, write_eq hcheck (h.of_active hs) h.cell m.msg, rfl,
      cell_set _ _ _, h.ok.write m.valid (by simp [m.notDelimiter]), h.apart, h.outPipe,
      h.isOpen⟩
  · have hw : c.write m.msg = .ok (false, { c with pipe := { c.pipe with outActive := act } }) := by
      simp only [PipeCall.write, hcheck]
    exact .inl ⟨_, hw, settles_of_cell rfl rfl rfl (.inl rfl) id id⟩

theorem WritesTo.flush (h : c.WritesTo q queue) (hs : c.pipe.state.isOpen = true) :
    ∃ c', c.flush = .ok c' ∧ c'.pipe = c.pipe ∧ c'.WritesTo q queue.flush.2 := by
  have hack : c.pipe.state ≠ .termAckSent := by
    intro hack
    rw [hack] at hs
    cases hs
  exact ⟨_, flush_eq hack (h.isOpen hs) h.cell, rfl, cell_set _ _ _, h.ok.flush, h.apart,
    h.outPipe, h.isOpen⟩

/-- `rollback` drops the parts of a message that is not complete. -/
theorem WritesTo.rollback (h : c.WritesTo q queue) :
    ∃ c' queue', c.rollback = .ok c' ∧ c'.pipe = c.pipe ∧ c'.WritesTo q queue' ∧
      (queue' = queue ∨ queue' = queue.unwriteAll.2) ∧
      (c.pipe.outPipe = some q → queue' = queue.unwriteAll.2) := by
  rcases h.outPipe with hq | hq
  · exact ⟨_, queue.unwriteAll.2, rollback_eq hq h.cell h.ok, rfl,
      ⟨cell_set _ _ _, h.ok.unwriteAll, h.apart, h.outPipe, h.isOpen⟩, .inr rfl,
      fun _ => rfl⟩
  refine ⟨c, queue, ?_, rfl, h, .inl rfl, fun hq' => ?_⟩
  · simp only [PipeCall.rollback]
    split
    · rfl
    · rename_i q' hq'
      rw [hq] at hq'
      cases hq'
  · rw [hq] at hq'
    cases hq'

/-- A part is refused, or it is added to those that are not flushed. The last part of a message
is flushed with the others. -/
theorem Outgoing.write (h : c.Outgoing q flushed incomplete) (m : OwnerMsg) :
    (∃ c', c.write m.msg = .ok (false, c') ∧ c.Settles q c') ∨
    (c.pipe.state = .active ∧ ∃ c', c.write m.msg = .ok (true, c') ∧ c'.pipe = c.wrote m.msg ∧
      (m.msg.more = true → c'.Outgoing q flushed (incomplete ++ [m.msg])) ∧
      (m.msg.more = false → ∃ c'', c'.flush = .ok c'' ∧ c''.pipe = c'.pipe ∧
        c''.Outgoing q (flushed ++ (incomplete ++ [m.msg])) [])) := by
  obtain ⟨queue, hw, rfl, hpend, rfl⟩ := h
  rcases hw.write m with hrefused | ⟨hs, c', heq, hpipe, hw'⟩
  · exact .inl hrefused
  refine .inr ⟨hs, c', heq, hpipe, fun hmore => ?_, fun hmore => ?_⟩
  · refine ⟨_, hw', ?_, ?_, ?_⟩
    · simp [FlushQueue.write, hmore]
    · simp [FlushQueue.write, hmore, hpend]
    · simp [FlushQueue.write, hmore]
  have hopen : c'.pipe.state.isOpen = true := by
    rw [hpipe]
    show c.pipe.state.isOpen = true
    rw [hs]
    rfl
  obtain ⟨c'', hf, hpipe', hw''⟩ := hw'.flush hopen
  refine ⟨c'', hf, hpipe', _, hw'', ?_, FlushQueue.flush_pending _, ?_⟩
  · rw [FlushQueue.flush_flushed]
    simp [FlushQueue.write, hmore, hpend]
  · rw [FlushQueue.flush_incomplete]
    simp [FlushQueue.write, hmore]

theorem Outgoing.rollback (h : c.Outgoing q flushed incomplete) :
    ∃ c' incomplete', c.rollback = .ok c' ∧ c'.pipe = c.pipe ∧
      c'.Outgoing q flushed incomplete' ∧ (c.pipe.outPipe = some q → incomplete' = []) := by
  obtain ⟨queue, hw, rfl, hpend, rfl⟩ := h
  obtain ⟨c', queue', heq, hpipe, hw', hor, hq⟩ := hw.rollback
  refine ⟨c', queue'.incomplete, heq, hpipe, ⟨queue', hw', ?_, ?_, rfl⟩, fun ho => ?_⟩
  · rcases hor with rfl | rfl <;> rfl
  · rcases hor with rfl | rfl <;> exact hpend
  · rw [hq ho]
    rfl

/-! ### The rest -/

/-- A pipe that gives up its queue after a rollback. -/
theorem settles_of_rollback {c1 : PipeCall} (hr : c.rollback = .ok c1)
    (hheap : c'.heap = c1.heap) (hin : c'.pipe.inPipe = c.pipe.inPipe)
    (hdel : c'.pipe.deleted = c.pipe.deleted)
    (hout : c'.pipe.outPipe = none) (hopen : c'.pipe.state.isOpen = false) : c.Settles q c' := by
  intro queue h
  obtain ⟨c2, queue', hr2, -, h2, hor, -⟩ := h.rollback
  cases hr2.symm.trans hr
  refine ⟨queue', ⟨hheap ▸ h2.cell, h2.ok, hin ▸ h.apart, .inr hout, fun hs => ?_⟩, fun hs => ?_,
    fun ho => ?_, hdel, ⟨0, ?_⟩, ?_, fun hp => ?_, ?_⟩
  · rw [hopen] at hs
    cases hs
  · rw [hs] at hopen
    cases hopen
  · rw [hout] at ho
    cases ho
  · rw [replicate_zero, append_nil]
    rcases hor with rfl | rfl <;> rfl
  · rcases hor with rfl | rfl <;> exact prefix_refl _
  · rcases hor with rfl | rfl <;> exact hp
  · rcases hor with rfl | rfl
    · exact .inl rfl
    · exact .inr rfl

theorem leaves_delimit (h : c.WritesTo q queue) (hcell : c'.heap.cell q = some (delimit queue).2)
    (hin : c'.pipe.inPipe = c.pipe.inPipe) (hdel : c'.pipe.deleted = c.pipe.deleted)
    (hout : c'.pipe.outPipe = c.pipe.outPipe) (hact : c'.pipe.state ≠ .active)
    (hopen : c'.pipe.state.isOpen = true → c.pipe.state.isOpen = true) :
    c.Leaves q queue c' (delimit queue).2 where
  writes := ⟨hcell, delimit_ok h.ok, hin ▸ h.apart, by rw [hout]; exact h.outPipe,
    fun hs => hout.trans (h.isOpen (hopen hs))⟩
  active hs := absurd hs hact
  outPipe ho := hout.symm.trans ho
  deleted := hdel
  complete := by
    refine ⟨1, ?_⟩
    simp [FlushQueue.complete, delimit, FlushQueue.flush_flushed, FlushQueue.flush_pending,
      FlushQueue.unwriteAll, FlushQueue.write]
  flushed := by
    simp [delimit, FlushQueue.flush_flushed, FlushQueue.unwriteAll, FlushQueue.write]
  pending _ := FlushQueue.flush_pending _
  incomplete := by
    right
    simp [delimit, FlushQueue.unwriteAll, FlushQueue.write]

theorem settles_terminate (c : PipeCall) (q : QueueId) (delay : Bool) :
    Ensures (c.terminate delay) (c.Settles q) := by
  intro c' ht
  cases hs : c.pipe.state with
  | termReqSent1 | termReqSent2 | termAckSent =>
    have heq : c.terminate delay = .ok { c with pipe := { c.pipe with delay } } := by
      simp only [terminate, hs]
    cases heq.symm.trans ht
    exact settles_of_cell rfl rfl rfl (.inl rfl) id id
  | active | delimiterReceived =>
    intro queue h
    have hq := h.isOpen (by rw [hs]; rfl)
    rw [terminate_ask (by simp [hs]) hq h.cell h.ok] at ht
    cases ht
    exact ⟨_, leaves_delimit h (cell_set _ _ _) rfl rfl rfl (by simp)
      fun ho => (by cases ho)⟩
  | waitingForDelimiter =>
    intro queue h
    have hq := h.isOpen (by rw [hs]; rfl)
    cases delay with
    | true =>
      rw [terminate_wait hs hq h.cell h.ok] at ht
      cases ht
      exact ⟨_, leaves_delimit h (cell_set _ _ _) rfl rfl rfl (by simp [hs]) id⟩
    | false =>
      rw [terminate_ack hs hq h.cell h.ok] at ht
      cases ht
      refine settles_of_rollback (rollback_eq hq h.cell h.ok) ?_ ?_ ?_ ?_ ?_ queue h
      all_goals rfl

theorem settles_processDelimiter (c : PipeCall) (q : QueueId) :
    Ensures c.processDelimiter (c.Settles q) := by
  unfold processDelimiter
  split
  · rename_i hs
    exact .ok (settles_of_cell rfl rfl rfl (.inl rfl) nofun fun _ => by rw [hs]; rfl)
  · intro c' hp
    obtain ⟨c1, hr, hack⟩ := bind_eq_ok hp
    cases hack
    have hpipe : c1.pipe = c.pipe := rollback_pipe c c1 hr
    exact settles_of_rollback hr rfl (by simp [ack, send, hpipe]) (by simp [ack, send, hpipe])
      rfl rfl
  · exact .error _ _

/-- Only the queue the pipe reads from is changed. -/
theorem settles_of_inQueue {inQueue : Queue} (hheap : c'.heap = c.heap.set c.pipe.inPipe inQueue)
    (hin : c'.pipe.inPipe = c.pipe.inPipe) (hdel : c'.pipe.deleted = c.pipe.deleted)
    (hout : c'.pipe.outPipe = c.pipe.outPipe) (hs : c'.pipe.state = c.pipe.state) :
    c.Settles q c' := by
  intro queue h
  refine settles_of_cell ?_ hin hdel (.inl hout) (hs ▸ id) (hs ▸ id) queue h
  rw [hheap, cell_set_of_ne _ _ h.apart.symm]

theorem settles_setQueue (c : PipeCall) (q : QueueId) (inQueue : Queue) :
    c.Settles q (c.setQueue c.pipe.inPipe inQueue) :=
  settles_of_inQueue rfl rfl rfl rfl rfl

/-- `read`, which may find a delimiter. -/
theorem settles_read (c : PipeCall) (q : QueueId) : Ensures c.read (c.Settles q ·.2) := by
  refine .ite (fun _ => .ok (settles_refl c q)) fun _ => .seq fun queue _ => .seq fun ms _ => ?_
  split
  · exact .pure (settles_of_inQueue rfl rfl rfl rfl rfl)
  refine .ite (fun _ => ?_) fun _ => .pure (settles_of_inQueue rfl rfl rfl rfl rfl)
  exact (settles_processDelimiter _ q).bind fun c1 h1 =>
    .pure ((c.settles_setQueue q _).trans h1)

/-- `check_read`, which may find a delimiter. -/
theorem settles_checkRead (c : PipeCall) (q : QueueId) :
    Ensures c.checkRead (c.Settles q ·.2) := by
  refine .ite (fun _ => .ok (settles_refl c q)) fun _ => .seq fun queue _ => ?_
  split
  · exact .pure (settles_of_inQueue rfl rfl rfl rfl rfl)
  refine .ite (fun _ => ?_) fun _ => .pure (settles_of_inQueue rfl rfl rfl rfl rfl)
  exact (settles_processDelimiter _ q).bind fun c1 h1 =>
    .pure ((c.settles_setQueue q _).trans h1)

theorem settles_processActivateRead (c : PipeCall) (q : QueueId) :
    c.Settles q c.processActivateRead := by
  unfold processActivateRead
  split
  · exact settles_of_cell rfl rfl rfl (.inl rfl) id id
  · exact settles_refl c q

theorem settles_processActivateWrite (c : PipeCall) (q : QueueId) (msgsRead : Int) :
    c.Settles q (c.processActivateWrite msgsRead) := by
  unfold processActivateWrite
  dsimp only
  split
  · exact settles_of_cell rfl rfl rfl (.inl rfl) id id
  · exact settles_of_cell rfl rfl rfl (.inl rfl) id id

theorem settles_processPipeTerm (c : PipeCall) (q : QueueId) :
    Ensures c.processPipeTerm (c.Settles q) := by
  have hack : ∀ state : PipeState, state.isOpen = false → c.Settles q (c.ack state) := by
    intro state hs
    refine settles_of_cell rfl rfl rfl (.inr ⟨rfl, hs⟩) (fun ha => ?_) fun ho => ?_
    · cases (show state = .active from ha)
      cases hs
    · cases hs.symm.trans ho
  unfold processPipeTerm
  split
  · rename_i hs
    refine .ite (fun _ => .ok ?_) fun _ => .ok (hack _ rfl)
    exact settles_of_cell rfl rfl rfl (.inl rfl) nofun fun _ => by rw [hs]; rfl
  · exact .ok (hack _ rfl)
  · exact .ok (hack _ rfl)
  · exact .error _ _

theorem ensures_destroy (c : PipeCall) : Ensures c.destroy (· = { c with
    pipe := { c.pipe with deleted := true }, heap := c.heap.free c.pipe.inPipe }) :=
  .seq fun _ _ => .seq fun _ _ => .pure rfl

/-- A pipe that is destroyed was not active, and its outbound queue is left to the peer. -/
theorem WritesTo.processPipeTermAck (h : c.WritesTo q queue) (hp : c.processPipeTermAck = .ok c') :
    c'.WritesTo q queue ∧ c'.pipe.state ≠ .active ∧
      (c'.pipe.outPipe = some q → c.pipe.outPipe = some q) := by
  have hcell : (c.heap.free c.pipe.inPipe).cell q = some queue := by
    rw [cell_free_of_ne _ h.apart.symm, h.cell]
  unfold PipeCall.processPipeTermAck at hp
  cases hs : c.pipe.state with rw [hs] at hp
  | termReqSent1 =>
    obtain rfl := ensures_destroy _ _ hp
    exact ⟨⟨hcell, h.ok, h.apart, .inr rfl, nofun⟩, nofun, nofun⟩
  | termAckSent | termReqSent2 =>
    obtain rfl := ensures_destroy _ _ hp
    exact ⟨⟨hcell, h.ok, h.apart, h.outPipe, h.isOpen⟩, by simp [notify, hs], id⟩
  | active | delimiterReceived | waitingForDelimiter => cases hp

theorem Outgoing.processPipeTermAck (h : c.Outgoing q flushed incomplete)
    (hp : c.processPipeTermAck = .ok c') :
    c'.Outgoing q flushed incomplete ∧ c'.pipe.state ≠ .active ∧
      (c'.pipe.outPipe = some q → c.pipe.outPipe = some q) := by
  obtain ⟨queue, hw, hqueue⟩ := h
  obtain ⟨hw', hact, hout⟩ := hw.processPipeTermAck hp
  exact ⟨⟨queue, hw', hqueue⟩, hact, hout⟩

end PipeCall

end ServerLink

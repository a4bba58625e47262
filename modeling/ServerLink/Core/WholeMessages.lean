import ServerLink.Core.Tracking

/-!
# ServerLink.Core.WholeMessages

A ROUTER sends whole messages. The frames its user sends are recorded with the pipe that had the
addressed id when the first frame was sent (`Sending`). In every state the socket can reach, the
frames flushed to a pipe are those of some of the messages that were meant for it, each of them
complete and in the order sent; whatever happens to the pipes in the middle of a message, the
rest of it goes to the same pipe or nowhere.
-/

namespace ServerLink

open RouterSend Function Checked CheckedRun Finset

/-- What can happen at the socket. `terminate` is the end of an endpoint or of the socket. -/
inductive SendAction
  | xsend (msg : OwnerMsg)
  | attach (inbound : List Msg) (outbound : List Greeting) (inhwm outhwm : Int)
      (locallyInitiated : Bool)
  | publish (pipe : PipeId) (msgs : List Msg)
  | recvPart (pipe : PipeId)
  | recvEnd
  | terminate (pipe : PipeId) (delay : Bool)
  | activateRead (pipe : PipeId)
  | activateWrite (pipe : PipeId) (msgsRead : Int)
  | pipeTerm (pipe : PipeId)
  | pipeTermAck (pipe : PipeId)
  | setMandatory (value : Bool)
  | setProbeRouter (value : Bool)
  | setHandover (value : Bool)
  | setConnectRoutingId (id : Blob)

/-- A socket, and what its user has sent. -/
structure Sending where
  socket : RouterSend
  /-- The pipe that had the id of the message that is being sent. -/
  target : Option PipeId := none
  /-- The frames of that message so far, without the first one. -/
  parts : List Msg := []
  /-- The messages that were sent to the end. -/
  finished : List (Option PipeId × List Msg) := []
  /-- What the library has written to each pipe. -/
  greeting : PipeId → List Msg := fun _ => []

namespace Sending

/-- The user has sent a frame. -/
def record (s : Sending) (msg : Msg) (socket : RouterSend) : Sending :=
  if s.socket.moreOut then
    if msg.more then { s with socket, parts := s.parts ++ [msg] }
    else
      { s with
        socket
        parts := []
        finished := s.finished ++ [(s.target, s.parts ++ [msg])] }
  else { s with socket, parts := [], target := (s.socket.table.outPipes msg.data).map (·.pipe) }

/-- Those of the messages that were meant for the pipe. -/
def messagesTo (finished : List (Option PipeId × List Msg)) (p : PipeId) : List (List Msg) :=
  (finished.filter (·.1 = some p)).map (·.2)

/-- Something happens at a pipe that exists. -/
def event (s : Sending) (p : PipeId) (f : RouterSend → Except Fault RouterSend) :
    Except Fault Sending :=
  if p < s.socket.next ∧ (s.socket.pipes p).pipe.deleted = false then
    (f s.socket).map fun socket => { s with socket }
  else .ok s

def step (s : Sending) : SendAction → Except Fault Sending
  | .xsend msg => (s.socket.xsend msg.msg).map fun r => s.record msg.msg r.2
  | .attach inbound outbound inhwm outhwm locallyInitiated =>
    let p := s.socket.next
    let socket := { s.socket.setPipe p (.opened inbound outbound inhwm outhwm) with next := p + 1 }
    let probes := if socket.probeRouter then [Msg.init] else []
    (socket.xattachPipe p locallyInitiated).map fun socket =>
      { s with
        socket
        greeting := update s.greeting p (outbound.map (·.msg) ++ probes) }
  | .publish p msgs => s.event p fun t => t.call p fun c => .ok (c.publish msgs)
  | .recvPart p =>
    s.event p fun t => do
      let t ← t.call p fun c => c.read.map Prod.snd
      return { t with currentIn := some p }
  | .recvEnd => s.socket.recvEnd.map fun socket => { s with socket }
  | .terminate p delay => s.event p fun t => t.call p (·.terminate delay)
  | .activateRead p => s.event p (·.activateRead p)
  | .activateWrite p msgsRead => s.event p (·.activateWrite p msgsRead)
  | .pipeTerm p => s.event p fun t => t.call p (·.processPipeTerm)
  | .pipeTermAck p =>
    s.event p fun t => do
      let t ← t.xpipeTerminated p
      t.call p (·.processPipeTermAck)
  | .setMandatory value => .ok { s with socket := { s.socket with mandatory := value } }
  | .setProbeRouter value => .ok { s with socket := { s.socket with probeRouter := value } }
  | .setHandover value => .ok { s with socket := { s.socket with handover := value } }
  | .setConnectRoutingId id =>
    .ok { s with socket :=
      { s.socket with table := { s.socket.table with connectRoutingId := id } } }

end Sending

/-! ### The invariant -/

namespace Sending

variable {s' : Sending}

/-- The parts of the message that is being sent, if it is sent to the pipe. -/
def currentParts (currentOut : Option PipeId) (parts : List Msg) (p : PipeId) : Option (List Msg) :=
  match currentOut with
  | none => none
  | some q => if p = q then some parts else none

structure Inv (s : Sending) : Prop where
  tracked : ∀ p < s.socket.next,
    Tracked (s.greeting p) (messagesTo s.finished p) (currentParts s.socket.currentOut s.parts p)
      (s.socket.pipes p)
  idle : s.socket.moreOut = false → s.socket.currentOut = none
  target : ∀ p, s.socket.currentOut = some p → s.target = some p
  current : ∀ p, s.socket.currentOut = some p → s.socket.Known p
  table : s.socket.table.Among s.socket.Known
  anonymous : ∀ p ∈ s.socket.anonymousPipes, p < s.socket.next

theorem inv_new (id : BitVec 32) : Inv { socket := .new id } where
  tracked p hp := absurd hp (Nat.not_lt_zero p)
  idle _ := rfl
  target p hp := by cases hp
  current p hp := by cases hp
  table id o ho := by cases ho
  anonymous p hp := by cases hp

variable {s : Sending} {socket : RouterSend} {p : PipeId}

theorem Inv.alive (h : Inv s) (hq : s.socket.Quiet socket) (hp : p < s.socket.next) :
    (socket.pipes p).pipe.deleted = (s.socket.pipes p).pipe.deleted := by
  obtain ⟨users, n, i, hout, -⟩ := (h.tracked p hp).out
  exact ((hq.pipes p).outgoing hout).2.2.1

/-- The pipes are left to themselves, and one of them may be identified. -/
theorem Inv.identifies (h : Inv s) (hq : s.socket.Quiet socket) (anonymousPipes : Finset PipeId)
    (ha : ∀ p ∈ anonymousPipes, p < s.socket.next)
    (hk : ∀ p, s.socket.currentOut = some p → p ∉ anonymousPipes)
    (ht : socket.table.Among fun p =>
      p < s.socket.next ∧ p ∉ anonymousPipes ∧ (s.socket.pipes p).pipe.deleted = false) :
    Inv { s with socket := { socket with anonymousPipes } } where
  tracked p hp := by
    have hlt : p < s.socket.next := hq.next ▸ hp
    have ht := (h.tracked p hlt).settles (hq.pipes p)
    rw [← hq.currentOut] at ht
    exact ht
  idle hm := hq.currentOut.trans (h.idle (hq.moreOut.symm.trans hm))
  target p hp := h.target p (hq.currentOut.symm.trans hp)
  current p hp := by
    have hcur := hq.currentOut.symm.trans hp
    have hp' := h.current p hcur
    refine ⟨?_, hk p hcur, ?_⟩
    · show p < socket.next
      rw [hq.next]
      exact hp'.1
    · exact (h.alive hq hp'.1).trans hp'.2.2
  table id o ho := by
    obtain ⟨hlt, hmem, hdel⟩ := ht id o ho
    refine ⟨?_, hmem, ?_⟩
    · show o.pipe < socket.next
      rw [hq.next]
      exact hlt
    · exact (h.alive hq hlt).trans hdel
  anonymous p hp := by
    rw [hq.next]
    exact ha p hp

theorem Inv.quiet (h : Inv s) (hq : s.socket.Quiet socket)
    (ht : socket.table.Among s.socket.Known) : Inv { s with socket } := by
  refine h.identifies hq socket.anonymousPipes ?_ ?_ ?_
  · rw [hq.anonymousPipes]
    exact h.anonymous
  · rw [hq.anonymousPipes]
    exact fun p hp => (h.current p hp).2.1
  · rw [hq.anonymousPipes]
    exact ht

/-! ### Sending -/

theorem record_first (hm : s.socket.moreOut = false) (msg : Msg) (socket : RouterSend) :
    s.record msg socket =
      { s with
        socket, parts := [], target := (s.socket.table.outPipes msg.data).map (·.pipe) } := by
  simp [record, hm]

theorem record_more (hm : s.socket.moreOut = true) {msg : Msg} (hmore : msg.more = true)
    (socket : RouterSend) :
    s.record msg socket = { s with socket, parts := s.parts ++ [msg] } := by
  simp [record, hm, hmore]

theorem record_last (hm : s.socket.moreOut = true) {msg : Msg} (hmore : msg.more = false)
    (socket : RouterSend) :
    s.record msg socket =
      { s with
        socket, parts := [], finished := s.finished ++ [(s.target, s.parts ++ [msg])] } := by
  simp [record, hm, hmore]

/-- When a message ends, it was one for its target. -/
theorem messagesTo_append (finished : List (Option PipeId × List Msg)) (target : Option PipeId)
    (msg : List Msg) (p : PipeId) :
    messagesTo (finished ++ [(target, msg)]) p =
      messagesTo finished p ++ if target = some p then [msg] else [] := by
  simp only [messagesTo, List.filter_append, List.map_append]
  by_cases ht : target = some p
  · simp [ht]
  · simp [ht]

theorem closeMsgs_msg (msg : OwnerMsg) : PipeCall.closeMsgs [msg.msg] = .ok () :=
  PipeCall.closeMsgs_ok (by simp [msg.valid])

theorem pipe_eq {t : RouterSend} (h : (t.pipes p).pipe.deleted = false) :
    t.pipe p = .ok (t.pipes p) := by
  simp [pipe, h]

/-- The rest of a message that goes nowhere. -/
theorem Inv.sendPart_none (h : Inv s) (hm : s.socket.moreOut = true)
    (hc : s.socket.currentOut = none) (msg : OwnerMsg) :
    s.socket.sendPart msg.msg = .ok { s.socket with moreOut := msg.msg.more } ∧
      Inv (s.record msg.msg { s.socket with moreOut := msg.msg.more }) := by
  have heq : s.socket.sendPart msg.msg = .ok { s.socket with moreOut := msg.msg.more } := by
    simp only [sendPart, hc, closeMsgs_msg, bind, Except.bind, pure, Except.pure]
  refine ⟨heq, ?_⟩
  cases hmore : msg.msg.more with
  | true =>
    rw [record_more hm hmore]
    refine ⟨fun p hp => ?_, nofun, h.target, h.current, h.table, h.anonymous⟩
    have ht := h.tracked p hp
    rw [hc] at ht
    rw [hc]
    exact ht
  | false =>
    rw [record_last hm hmore]
    refine ⟨fun p hp => ?_, fun _ => hc, h.target, h.current, h.table, h.anonymous⟩
    have ht := h.tracked p hp
    rw [hc] at ht
    rw [hc, messagesTo_append]
    split
    · exact ht.dropped _
    · rw [List.append_nil]
      exact ht

theorem Inv.setCurrent (h : Inv s) (hc : s.socket.currentOut = some p) {c : PipeCall}
    (hdel : c.pipe.deleted = (s.socket.pipes p).pipe.deleted) {current : Option PipeId}
    (hcur : current = some p ∨ current = none) {moreOut : Bool}
    (hidle : moreOut = false → current = none) {parts : List Msg}
    {finished : List (Option PipeId × List Msg)}
    (hp : Tracked (s.greeting p) (messagesTo finished p) (currentParts current parts p) c)
    (hq : ∀ q ≠ p, messagesTo finished q = messagesTo s.finished q) :
    Inv { s with
      socket := { s.socket.setPipe p c with moreOut, currentOut := current }
      parts, finished } where
  tracked q hlt := by
    by_cases hqp : q = p
    · subst hqp
      simp only [setPipe, update_self]
      exact hp
    have ht := h.tracked q hlt
    have hnone : currentParts s.socket.currentOut s.parts q = none := by
      simp only [hc, currentParts, if_neg hqp]
    have hnone' : currentParts current parts q = none := by
      rcases hcur with rfl | rfl
      · simp only [currentParts, if_neg hqp]
      · rfl
    rw [hnone, ← hq q hqp] at ht
    simp only [setPipe, update_of_ne hqp, hnone']
    exact ht
  idle := hidle
  target q hq' := by
    rcases hcur with rfl | rfl
    · cases hq'
      exact h.target p hc
    · cases hq'
  current q hq' := by
    rcases hcur with rfl | rfl
    · cases hq'
      obtain ⟨hlt, hmem, hal⟩ := h.current p hc
      refine ⟨hlt, hmem, ?_⟩
      simp only [setPipe, update_self]
      exact hdel.trans hal
    · cases hq'
  table := by
    refine RoutingTable.Among.mono h.table fun q hk => ⟨hk.1, hk.2.1, ?_⟩
    by_cases hqp : q = p
    · subst hqp
      simp only [setPipe, update_self]
      exact hdel.trans hk.2.2
    · simp only [setPipe, update_of_ne hqp]
      exact hk.2.2
  anonymous := h.anonymous

/-- The rest of a message goes to the current pipe. -/
theorem Inv.sendPart_some (h : Inv s) (hm : s.socket.moreOut = true)
    (hc : s.socket.currentOut = some p) (msg : OwnerMsg) :
    ∃ c current, s.socket.sendPart msg.msg = .ok { s.socket.setPipe p c with
        moreOut := msg.msg.more, currentOut := current } ∧
      Inv (s.record msg.msg { s.socket.setPipe p c with
        moreOut := msg.msg.more, currentOut := current }) := by
  have hk := h.current p hc
  have hto : s.target = some p := h.target p hc
  have ht := h.tracked p hk.1
  have hparts : currentParts s.socket.currentOut s.parts p = some s.parts := by
    simp only [hc, currentParts, if_true]
  rw [hparts] at ht
  have hpipe := pipe_eq (t := { s.socket with moreOut := msg.msg.more }) hk.2.2
  have hsend : s.socket.sendPart msg.msg =
      ({ s.socket with moreOut := msg.msg.more } : RouterSend).sendTo p msg.msg := by
    simp only [sendPart, hc]
  rw [hsend]
  unfold sendTo
  simp only [hpipe, bind, Except.bind]
  -- a message that ends was one for this pipe only
  have hown : ∀ q, messagesTo (s.finished ++ [(s.target, s.parts ++ [msg.msg])]) q =
      messagesTo s.finished q ++ if q = p then [s.parts ++ [msg.msg]] else [] := by
    intro q
    rw [messagesTo_append]
    simp only [hto, Option.some.injEq, eq_comm]
  rcases ht.write msg with ⟨c, hw, hdel, htc⟩ | ⟨c, hw, hdel, hmore, hlast⟩
  · obtain ⟨c', hr, hpipe', htc'⟩ := htc.rollback
    have hdel' : c'.pipe.deleted = (s.socket.pipes p).pipe.deleted := by rw [hpipe', hdel]
    refine ⟨c', none, ?_, ?_⟩
    · simp only [hw, hr, closeMsgs_msg, pure, Except.pure]
      rfl
    cases hmm : msg.msg.more with
    | true =>
      rw [record_more hm hmm]
      exact h.setCurrent hc hdel' (.inr rfl) (fun _ => rfl) htc' fun _ _ => rfl
    | false =>
      rw [record_last hm hmm]
      refine h.setCurrent hc hdel' (.inr rfl) (fun _ => rfl) ?_ fun q hq => ?_
      · rw [hown, if_pos rfl]
        exact htc'.dropped _
      · rw [hown, if_neg hq, List.append_nil]
  cases hmm : msg.msg.more with
  | true =>
    refine ⟨c, s.socket.currentOut, ?_, ?_⟩
    · simp only [hw, if_true, pure, Except.pure]
      rfl
    rw [record_more hm hmm]
    refine h.setCurrent hc hdel (.inl hc) (fun hno => (by cases hno)) ?_ fun _ _ => rfl
    simp only [hc, currentParts, if_true]
    exact hmore hmm
  | false =>
    obtain ⟨c', hf, hdel', htc'⟩ := hlast hmm
    refine ⟨c', none, ?_, ?_⟩
    · simp only [hw, hf, Bool.false_eq_true, if_false, pure, Except.pure]
      rfl
    rw [record_last hm hmm]
    refine h.setCurrent hc hdel' (.inr rfl) (fun _ => rfl) ?_ fun q hq => ?_
    · rw [hown, if_pos rfl]
      exact htc'
    · rw [hown, if_neg hq, List.append_nil]

theorem Inv.setNone (h : Inv s) (hc : s.socket.currentOut = none) (target : Option PipeId)
    (moreOut : Bool) :
    Inv { s with socket := { s.socket with moreOut }, parts := [], target } where
  tracked p hp := by
    have ht := h.tracked p hp
    rw [hc] at ht
    rw [hc]
    exact ht
  idle _ := hc
  target p hp := by
    rw [show s.socket.currentOut = some p from hp] at hc
    cases hc
  current := h.current
  table := h.table
  anonymous := h.anonymous

theorem Inv.setSome (h : Inv s) (hc : s.socket.currentOut = none) (hk : s.socket.Known p) :
    Inv { s with
      socket := { s.socket with moreOut := true, currentOut := some p }
      parts := [], target := some p } where
  tracked q hq := by
    have ht := h.tracked q hq
    rw [hc] at ht
    unfold currentParts
    dsimp only
    split
    · exact ht.start
    · exact ht
  idle hm := by cases hm
  target q hq := hq
  current q hq := by
    cases hq
    exact hk
  table := h.table
  anonymous := h.anonymous

theorem setPipe_self (t : RouterSend) (p : PipeId) : t.setPipe p (t.pipes p) = t := by
  simp [setPipe]

/-- What comes of a first frame. -/
structure First (s : Sending) (msg : Msg) (r : Option Errno) (socket : RouterSend) : Prop where
  inv : Inv (s.record msg socket)
  /-- After an error the socket is ready for the next message. -/
  failed : ∀ e, r = some e → socket.moreOut = false ∧ socket.currentOut = none ∧
    ∀ p, (socket.pipes p).flushedOut = (s.socket.pipes p).flushedOut

theorem Inv.address_some (h : Inv s) (hm : s.socket.moreOut = false) (msg : Msg) {o : OutPipe}
    (ho : s.socket.table.outPipes msg.data = some o) :
    ∃ r socket, s.socket.address msg.data = .ok (r, socket) ∧ First s msg r socket := by
  have hc := h.idle hm
  have hk := h.table _ o ho
  unfold address
  simp only [ho, pipe_eq hk.2.2, bind, Except.bind]
  rcases (s.socket.pipes o.pipe).checkWrite_cases with ⟨hcheck, -⟩ | ⟨act, hcheck, -⟩
  · simp only [hcheck, pure, Except.pure, setPipe_self]
    refine ⟨_, _, rfl, ?_, nofun⟩
    rw [record_first hm, ho]
    exact h.setSome hc hk
  simp only [hcheck, pure, Except.pure]
  -- the pipe at most notes that it is full, and its entry that it is not active
  have hset := PipeCall.settles_checkWrite (s.socket.pipes o.pipe) PipeCall.outQueue
  rw [hcheck] at hset
  have hq := s.socket.quiet_setPipe hset
  have hinv : Inv { s with socket := { s.socket.setPipe o.pipe _ with
      table := s.socket.table.deactivate msg.data } } :=
    h.quiet (hq.trans (quiet_setTable _ _ _ _)) (h.table.deactivate msg.data)
  have hflushed : ∀ p, ((s.socket.setPipe o.pipe
      { s.socket.pipes o.pipe with pipe := { (s.socket.pipes o.pipe).pipe with outActive := act } }
      ).pipes p).flushedOut = (s.socket.pipes p).flushedOut := by
    intro p
    by_cases hp : p = o.pipe
    · subst hp
      simp only [setPipe, update_self]
      rfl
    · simp only [setPipe, update_of_ne hp]
  split
  · refine ⟨_, _, rfl, ?_, fun e _ => ⟨hm, hc, hflushed⟩⟩
    rw [record_first hm]
    exact hinv.setNone hc _ s.socket.moreOut
  · refine ⟨_, _, rfl, ?_, nofun⟩
    rw [record_first hm]
    exact hinv.setNone hc _ true

theorem Inv.address_none (h : Inv s) (hm : s.socket.moreOut = false) (msg : Msg)
    (ho : s.socket.table.outPipes msg.data = none) :
    ∃ r socket, s.socket.address msg.data = .ok (r, socket) ∧ First s msg r socket := by
  have hc := h.idle hm
  unfold address
  simp only [ho]
  split
  · refine ⟨_, _, rfl, ?_, fun e _ => ⟨hm, hc, fun _ => rfl⟩⟩
    rw [record_first hm]
    exact h.setNone hc _ s.socket.moreOut
  · refine ⟨_, _, rfl, ?_, nofun⟩
    rw [record_first hm]
    exact h.setNone hc _ true

theorem Inv.xsend_first (h : Inv s) (hm : s.socket.moreOut = false) (msg : OwnerMsg) :
    ∃ r socket, s.socket.xsend msg.msg = .ok (r, socket) ∧ First s msg.msg r socket := by
  have hc := h.idle hm
  simp only [xsend, hm, hc, Option.isSome_none, Bool.false_eq_true, if_false]
  by_cases hmore : msg.msg.more = true
  · simp only [hmore, if_true]
    have haddr : ∃ r socket, s.socket.address msg.msg.data = .ok (r, socket) ∧
        First s msg.msg r socket := by
      cases ho : s.socket.table.outPipes msg.msg.data with
      | some o => exact h.address_some hm msg.msg ho
      | none => exact h.address_none hm msg.msg ho
    obtain ⟨r, socket, heq, hfirst⟩ := haddr
    refine ⟨r, socket, ?_, hfirst⟩
    cases r with
    | none => simp [heq, closeMsgs_msg, bind, Except.bind, pure, Except.pure]
    | some e => simp [heq, bind, Except.bind, pure, Except.pure]
  · simp only [hmore, Bool.false_eq_true, if_false, closeMsgs_msg, bind, Except.bind, pure,
      Except.pure]
    refine ⟨_, _, rfl, ?_, nofun⟩
    rw [record_first hm]
    exact h.setNone hc _ s.socket.moreOut

/-- What comes of another frame: only the target of the message is written to. -/
theorem Inv.xsend_part (h : Inv s) (hm : s.socket.moreOut = true) (msg : OwnerMsg) :
    ∃ socket, s.socket.xsend msg.msg = .ok (none, socket) ∧ Inv (s.record msg.msg socket) ∧
      ∀ p, s.target ≠ some p → socket.pipes p = s.socket.pipes p := by
  simp only [xsend, hm, if_true]
  cases hc : s.socket.currentOut with
  | none =>
    obtain ⟨heq, hinv⟩ := h.sendPart_none hm hc msg
    rw [heq]
    exact ⟨_, rfl, hinv, fun _ _ => rfl⟩
  | some q =>
    obtain ⟨c, current, heq, hinv⟩ := h.sendPart_some hm hc msg
    rw [heq]
    refine ⟨_, rfl, hinv, fun p hp => ?_⟩
    have hne : p ≠ q := by
      intro hpq
      exact hp (hpq ▸ h.target q hc)
    simp only [setPipe, update_of_ne hne]

/-! ### A new pipe -/

/-- The write end of a new pipe holds what the library has written to it. -/
theorem tracked_of_outgoing {c : PipeCall} {greeting : List Msg} (msgs : List (List Msg))
    (h : c.Outgoing PipeCall.outQueue greeting []) : Tracked greeting msgs none c :=
  ⟨[], 0, [], by simpa using h, List.nil_sublist _, fun _ => rfl, fun _ _ => rfl,
    nofun⟩

theorem checkWrite_opened (inbound : List Msg) (outbound : List Greeting) (inhwm outhwm : Int) :
    (PipeCall.opened inbound outbound inhwm outhwm).checkWrite =
      (true, PipeCall.opened inbound outbound inhwm outhwm) := by
  have hroom : (PipeCall.opened inbound outbound inhwm outhwm).pipe.checkHwm = true := by
    simp only [PipeCall.opened, Pipe.new, Pipe.checkHwm, Int.sub_self, Int.zero_emod,
      Bool.not_eq_true', Bool.and_eq_false_iff, decide_eq_false_iff_not, ge_iff_le,
      Int.not_le]
    cases hpos : decide (outhwm > 0) with
    | false => exact .inl hpos
    | true => exact .inr (of_decide_eq_true hpos)
  simp only [PipeCall.checkWrite, hroom, if_true]
  rfl

theorem probe_opened (t : RouterSend) (inbound : List Msg) (outbound : List Greeting)
    (inhwm outhwm : Int) {c : PipeCall}
    (hp : t.probe (.opened inbound outbound inhwm outhwm) = .ok c) :
    c.Outgoing PipeCall.outQueue
        (outbound.map (·.msg) ++ if t.probeRouter then [.init] else []) [] ∧
      c.pipe.deleted = false := by
  have hout := PipeCall.outgoing_opened inbound outbound inhwm outhwm
  unfold probe at hp
  split at hp
  · rename_i hprobe
    rw [if_pos hprobe]
    have hw := PipeCall.write_eq (checkWrite_opened inbound outbound inhwm outhwm) rfl
      (Arena.cell_alloc_next _ _) .init
    rcases hout.write ⟨.init, rfl, rfl⟩ with ⟨c', hw', -⟩ | ⟨-, c', hw', hpipe, -, hlast⟩
    · rw [hw] at hw'
      cases (Prod.mk.inj (Except.ok.inj hw')).1
    obtain ⟨c'', hf, hpipe', hout'⟩ := hlast rfl
    simp only [hw', bind, Except.bind] at hp
    cases hf.symm.trans hp
    exact ⟨by simpa using hout', by rw [hpipe', hpipe]; rfl⟩
  · rename_i hprobe
    cases hp
    rw [if_neg hprobe, List.append_nil]
    exact ⟨hout, rfl⟩

/-- The socket gets a pipe, which is not identified yet. -/
theorem Inv.setNew (h : Inv s) {c : PipeCall} {greeting : List Msg}
    (hc : c.Outgoing PipeCall.outQueue greeting []) :
    Inv { s with
      socket := { s.socket.setPipe s.socket.next c with next := s.socket.next + 1 }
      greeting := update s.greeting s.socket.next greeting } where
  tracked p hp := by
    by_cases hnew : p = s.socket.next
    · have hcur : currentParts s.socket.currentOut s.parts p = none := by
        cases hco : s.socket.currentOut with
        | none => rfl
        | some q =>
          have hne : p ≠ q := by
            rintro rfl
            exact absurd (h.current p hco).1 (hnew ▸ Nat.lt_irrefl _)
          simp only [currentParts, if_neg hne]
      subst hnew
      simp only [setPipe, update_self, hcur]
      exact tracked_of_outgoing _ hc
    · simp only [setPipe, update_of_ne hnew]
      exact h.tracked p (Nat.lt_of_le_of_ne (Nat.lt_succ_iff.mp hp) hnew)
  idle := h.idle
  target := h.target
  current p hp := by
    obtain ⟨hlt, hmem, hal⟩ := h.current p hp
    refine ⟨Nat.lt_succ_of_lt hlt, hmem, ?_⟩
    simp only [setPipe, update_of_ne (Nat.ne_of_lt hlt)]
    exact hal
  table := by
    refine RoutingTable.Among.mono h.table fun p hk => ⟨Nat.lt_succ_of_lt hk.1, hk.2.1, ?_⟩
    simp only [setPipe, update_of_ne (Nat.ne_of_lt hk.1)]
    exact hk.2.2
  anonymous p hp := Nat.lt_succ_of_lt (h.anonymous p hp)

theorem Inv.attach (h : Inv s) {inbound : List Msg} {outbound : List Greeting} {inhwm outhwm : Int}
    {locallyInitiated : Bool} :
    Ensures (s.step (.attach inbound outbound inhwm outhwm locallyInitiated)) Inv := by
  refine .map fun socket hx => ?_
  obtain ⟨c, hprobe, hx⟩ := bind_eq_ok hx
  obtain ⟨⟨r, t1⟩, hid, hx⟩ := bind_eq_ok hx
  simp only [setPipe, update_self, update_idem] at hprobe hid
  obtain ⟨hout, hdel⟩ := probe_opened _ _ _ _ _ hprobe
  have hinv := h.setNew hout
  have hi := identifies_identifyPeer _ _ _ _ hid
  have hanon : t1.anonymousPipes = s.socket.anonymousPipes := hi.quiet.anonymousPipes
  obtain rfl : socket = { t1 with anonymousPipes :=
      if r then t1.anonymousPipes else insert s.socket.next t1.anonymousPipes } := by
    cases r <;> exact (Except.ok.inj hx).symm
  -- an identified pipe is an old one
  have hold : ∀ q, s.socket.Known q →
      q ∉ if r then t1.anonymousPipes else insert s.socket.next t1.anonymousPipes := by
    intro q hq
    rw [hanon]
    split
    · exact hq.2.1
    intro hmem
    rcases mem_insert.mp hmem with rfl | hmem
    · exact Nat.lt_irrefl _ hq.1
    · exact hq.2.1 hmem
  refine hinv.identifies hi.quiet _ (fun q hq => ?_) (fun q hq => hold q (h.current q hq))
    (hi.among (fun id o ho => ?_) fun hr => ?_)
  · rw [hanon] at hq
    split at hq
    · exact Nat.lt_succ_of_lt (h.anonymous q hq)
    · rcases mem_insert.mp hq with rfl | hq
      · exact Nat.lt_succ_self _
      · exact Nat.lt_succ_of_lt (h.anonymous q hq)
  · have hk := h.table id o ho
    refine ⟨Nat.lt_succ_of_lt hk.1, hold o.pipe hk, ?_⟩
    simp only [setPipe, update_of_ne (Nat.ne_of_lt hk.1)]
    exact hk.2.2
  · refine ⟨Nat.lt_succ_self _, ?_, ?_⟩
    · rw [if_pos hr, hanon]
      exact fun hmem => Nat.lt_irrefl _ (h.anonymous _ hmem)
    · simp only [setPipe, update_self]
      exact hdel

/-! ### Events -/

theorem quiet_refl (t : RouterSend) : t.Quiet t :=
  t.quiet_setTable t.table t.currentIn t.terminateCurrentIn

theorem Inv.call (h : Inv s) {method : PipeCall → Except Fault PipeCall}
    (hm : Ensures (method (s.socket.pipes p)) ((s.socket.pipes p).Settles PipeCall.outQueue)) :
    Ensures (s.socket.call p method) fun socket => Inv { s with socket } := by
  refine (quiet_call hm).mono fun socket hq => h.quiet hq.1 ?_
  rw [hq.2]
  exact h.table

theorem Inv.setIn (h : Inv s) (currentIn : Option PipeId) (terminateCurrentIn : Bool) :
    Inv { s with socket := { s.socket with currentIn, terminateCurrentIn } } :=
  h.quiet (s.socket.quiet_setTable s.socket.table _ _) h.table

theorem Inv.recvEnd (h : Inv s) :
    Ensures s.socket.recvEnd fun socket => Inv { s with socket } := by
  refine .ite (fun _ => ?_) fun _ => .ok (h.setIn none s.socket.terminateCurrentIn)
  split
  · exact .error _ _
  · exact (h.call (PipeCall.settles_terminate _ _ _)).bind fun t ht => .pure (ht.setIn none false)

theorem Inv.activateRead (h : Inv s) (hp : p < s.socket.next)
    (hal : (s.socket.pipes p).pipe.deleted = false) :
    Ensures (s.socket.activateRead p) fun socket => Inv { s with socket } := by
  have hq := s.socket.quiet_setPipe
    (PipeCall.settles_processActivateRead (s.socket.pipes p) PipeCall.outQueue)
  refine .ite (fun _ => .seq fun x hid => .pure ?_) fun _ => .ok (h.quiet hq h.table)
  have hi : s.socket.Identifies p x.1 x.2 :=
    .of_quiet hq (fun hP => hP) (identifies_identifyPeer _ _ _ x hid)
  split
  · -- the pipe is identified now
    refine h.identifies hi.quiet _ (fun q hmem => ?_) (fun q hcur hmem => ?_)
      (hi.among (fun id o ho => ?_) fun _ => ⟨hp, notMem_erase p _, hal⟩)
    · rw [hi.quiet.anonymousPipes] at hmem
      exact h.anonymous q (mem_of_mem_erase hmem)
    · rw [hi.quiet.anonymousPipes] at hmem
      exact (h.current q hcur).2.1 (mem_of_mem_erase hmem)
    · have hk := h.table id o ho
      refine ⟨hk.1, fun hmem => ?_, hk.2.2⟩
      rw [hi.quiet.anonymousPipes] at hmem
      exact hk.2.1 (mem_of_mem_erase hmem)
  · rename_i hr
    exact h.quiet hi.quiet (hi.among h.table fun hr' => absurd hr' hr)

theorem Inv.activateWrite (h : Inv s) (msgsRead : Int) :
    Ensures (s.socket.activateWrite p msgsRead) fun socket => Inv { s with socket } := by
  have hq := s.socket.quiet_setPipe
    (PipeCall.settles_processActivateWrite (s.socket.pipes p) PipeCall.outQueue msgsRead)
  refine .ite (fun _ => .seq fun table htable => .pure ?_) fun _ => .ok (h.quiet hq h.table)
  exact h.quiet (hq.trans (quiet_setTable _ table _ _)) (h.table.xwriteActivated table htable)

/-- The socket has forgotten the pipe. -/
structure Forgets (s : Sending) (p : PipeId) : Prop where
  inv : Inv s
  table : s.socket.table.Among (· ≠ p)
  current : s.socket.currentOut ≠ some p

/-- `xpipe_terminated` of a pipe that was never identified. -/
theorem Inv.forget_anonymous (h : Inv s) (hp : p ∈ s.socket.anonymousPipes) :
    Forgets { s with socket :=
      { s.socket with anonymousPipes := s.socket.anonymousPipes.erase p } } p where
  inv := h.identifies (quiet_refl s.socket) _
    (fun q hq => h.anonymous q (mem_of_mem_erase hq))
    (fun q hq hmem => (h.current q hq).2.1 (mem_of_mem_erase hmem))
    (h.table.mono fun _ hk => ⟨hk.1, fun hmem => hk.2.1 (mem_of_mem_erase hmem), hk.2.2⟩)
  table := h.table.mono fun _ hk heq => hk.2.1 (heq ▸ hp)
  current hcur := (h.current p hcur).2.1 hp

/-- `xpipe_terminated` of another pipe: the message that is being sent to it is given up. -/
theorem Inv.forget (h : Inv s) (hp : p < s.socket.next) :
    ∃ c, (s.socket.pipes p).rollback = .ok c ∧
      Forgets { s with socket := { s.socket.setPipe p c with
        table := s.socket.table.eraseOutPipe p
        currentOut := if s.socket.currentOut = some p then none else s.socket.currentOut } } p := by
  obtain ⟨c, hr, hpipe, ht⟩ := (h.tracked p hp).rollback
  have hal : ∀ q, s.socket.Known q → (s.socket.setPipe p c).Known q := by
    intro q hk
    refine ⟨hk.1, hk.2.1, ?_⟩
    by_cases hq : q = p
    · subst hq
      simp only [setPipe, update_self, hpipe]
      exact hk.2.2
    · simp only [setPipe, update_of_ne hq]
      exact hk.2.2
  have hcur : ∀ q, (if s.socket.currentOut = some p then none else s.socket.currentOut) = some q →
      s.socket.currentOut = some q ∧ q ≠ p := by
    intro q hq
    split at hq
    · cases hq
    · rename_i hne
      exact ⟨hq, fun hqp => hne (hqp ▸ hq)⟩
  refine ⟨c, hr, ⟨fun q hq => ?_, fun hm => ?_, fun q hq => h.target q (hcur q hq).1,
    fun q hq => hal q (h.current q (hcur q hq).1),
    (h.table.erase p).mono fun q hq => hal q hq.1, h.anonymous⟩,
    (h.table.erase p).mono fun q hq => hq.2, fun hq => (hcur p hq).2 rfl⟩
  · -- the parts of the current message are those of another pipe, or there are none
    have hparts : ∀ q, q ≠ p → currentParts
        (if s.socket.currentOut = some p then none else s.socket.currentOut) s.parts q =
          currentParts s.socket.currentOut s.parts q := by
      intro q hqp
      split
      · rename_i hcp
        simp only [hcp, currentParts, if_neg hqp]
      · rfl
    by_cases hqp : q = p
    · subst hqp
      have hnone : currentParts (if s.socket.currentOut = some q then none
          else s.socket.currentOut) s.parts q = none := by
        unfold currentParts
        split
        · rfl
        · rename_i q' hq'
          rw [if_neg (Ne.symm (hcur q' hq').2)]
      rw [hnone]
      simp only [setPipe, update_self]
      exact ht
    · show Tracked _ _ (currentParts _ _ q) _
      rw [hparts q hqp]
      simp only [setPipe, update_of_ne hqp]
      exact h.tracked q hq
  · show (if s.socket.currentOut = some p then none else s.socket.currentOut) = none
    rw [h.idle hm]
    rfl

/-- A pipe that is forgotten may be destroyed. -/
theorem Forgets.destroy (h : s.Forgets p) (hp : p < s.socket.next) :
    Ensures (s.socket.call p (·.processPipeTermAck)) fun socket => Inv { s with socket } := by
  refine ensures_call fun c hack => ?_
  have hal : ∀ q, s.socket.Known q → q ≠ p → (s.socket.setPipe p c).Known q := by
    intro q hk hq
    refine ⟨hk.1, hk.2.1, ?_⟩
    simp only [setPipe, update_of_ne hq]
    exact hk.2.2
  refine ⟨fun q hq => ?_, h.inv.idle, h.inv.target, fun q hq => ?_, fun id o ho => ?_,
    h.inv.anonymous⟩
  · by_cases hqp : q = p
    · subst hqp
      simp only [setPipe, update_self]
      exact (h.inv.tracked q hp).processPipeTermAck hack
    · simp only [setPipe, update_of_ne hqp]
      exact h.inv.tracked q hq
  · exact hal q (h.inv.current q hq) fun hqp => h.current (hqp ▸ hq)
  · exact hal o.pipe (h.inv.table id o ho) (h.table id o ho)

theorem Inv.pipeTermAck (h : Inv s) (hp : p < s.socket.next) :
    Ensures (s.socket.xpipeTerminated p >>= (·.call p (·.processPipeTermAck)))
      fun socket => Inv { s with socket } := by
  refine .seq fun t ht => ?_
  unfold xpipeTerminated at ht
  split at ht
  · rename_i hanon
    cases ht
    exact (h.forget_anonymous hanon).destroy hp
  obtain ⟨c, hr, hforget⟩ := h.forget hp
  simp only [hr, bind, Except.bind] at ht
  cases ht
  exact hforget.destroy hp

/-! ### Runs -/

theorem Inv.event (h : Inv s) {f : RouterSend → Except Fault RouterSend}
    (hf : p < s.socket.next → (s.socket.pipes p).pipe.deleted = false →
      Ensures (f s.socket) fun socket => Inv { s with socket }) : Ensures (s.event p f) Inv :=
  .ite (fun hp => .map (hf hp.1 hp.2)) fun _ => .ok h

theorem Inv.xsend (h : Inv s) (msg : OwnerMsg) : Ensures (s.step (.xsend msg)) Inv := by
  refine .map fun x hx => ?_
  cases hm : s.socket.moreOut with
  | false =>
    obtain ⟨r, socket, heq, hfirst⟩ := h.xsend_first hm msg
    cases heq.symm.trans hx
    exact hfirst.inv
  | true =>
    obtain ⟨socket, heq, hinv, -⟩ := h.xsend_part hm msg
    cases heq.symm.trans hx
    exact hinv

theorem Inv.step (h : Inv s) (a : SendAction) : Ensures (s.step a) Inv := by
  cases a with dsimp only [Sending.step]
  | xsend msg => exact h.xsend msg
  | attach inbound outbound inhwm outhwm locallyInitiated => exact h.attach
  | publish p msgs =>
    exact h.event fun _ _ => h.call (.ok (PipeCall.settles_publish _ msgs))
  | recvPart p =>
    refine h.event fun _ _ => (h.call ?_).bind fun t ht => .pure (ht.setIn (some p) _)
    exact .map (PipeCall.settles_read _ _)
  | recvEnd => exact .map h.recvEnd
  | terminate p delay =>
    exact h.event fun _ _ => h.call (PipeCall.settles_terminate _ _ delay)
  | activateRead p => exact h.event fun hp hal => h.activateRead hp hal
  | activateWrite p msgsRead => exact h.event fun _ _ => h.activateWrite msgsRead
  | pipeTerm p => exact h.event fun _ _ => h.call (PipeCall.settles_processPipeTerm _ _)
  | pipeTermAck p => exact h.event fun hp _ => h.pipeTermAck hp
  | setMandatory value | setProbeRouter value | setHandover value =>
    exact .ok ⟨h.tracked, h.idle, h.target, h.current, h.table, h.anonymous⟩
  | setConnectRoutingId id =>
    exact .ok ⟨h.tracked, h.idle, h.target, h.current, h.table, h.anonymous⟩

/-- Whole messages, each to one peer. -/
structure Whole (s : Sending) : Prop where
  /-- What was flushed to a pipe is what the library wrote at the start, some of the messages that
  were meant for the pipe, and delimiters. -/
  flushed : ∀ p < s.socket.next, ∃ users n, List.Sublist users (messagesTo s.finished p) ∧
    (s.socket.pipes p).flushedOut =
      s.greeting p ++ users.flatten ++ List.replicate n .initDelimiter
  /-- Between two messages there is no current pipe. -/
  idle : s.socket.moreOut = false → s.socket.currentOut = none
  /-- Sending does not fault. In the middle of a message only the pipe that had the id is written
  to, and after an error a new message can begin. -/
  sends : ∀ msg : OwnerMsg, ∃ r socket, s.socket.xsend msg.msg = .ok (r, socket) ∧
    (s.socket.moreOut = true → ∀ p, s.target ≠ some p → socket.pipes p = s.socket.pipes p) ∧
    ∀ e, r = some e → socket.moreOut = false ∧ socket.currentOut = none ∧
      ∀ p, (socket.pipes p).flushedOut = (s.socket.pipes p).flushedOut
  /-- A pipe that can be written to takes the message for its id and every further frame, and the
  whole message is flushed with the last one. -/
  delivers : ∀ (p : PipeId) (msg : OwnerMsg), (s.socket.pipes p).checkWrite.1 = true →
    (s.socket.moreOut = false → msg.msg.more = true →
      (s.socket.table.outPipes msg.msg.data).map (·.pipe) = some p →
      ∃ socket, s.socket.xsend msg.msg = .ok (none, socket) ∧ socket.currentOut = some p) ∧
    (s.socket.currentOut = some p → ∃ socket, s.socket.xsend msg.msg = .ok (none, socket) ∧
      if msg.msg.more then socket.currentOut = some p
      else (socket.pipes p).flushedOut =
        (s.socket.pipes p).flushedOut ++ (s.parts ++ [msg.msg]))

theorem Inv.takes_first (h : Inv s) (hm : s.socket.moreOut = false) {msg : OwnerMsg}
    (hmore : msg.msg.more = true) (hw : (s.socket.pipes p).checkWrite.1 = true)
    (hto : (s.socket.table.outPipes msg.msg.data).map (·.pipe) = some p) :
    ∃ socket, s.socket.xsend msg.msg = .ok (none, socket) ∧ socket.currentOut = some p := by
  obtain ⟨o, ho, rfl⟩ := Option.map_eq_some_iff.mp hto
  have hk := h.table _ o ho
  rcases (s.socket.pipes o.pipe).checkWrite_cases with ⟨hcheck, -⟩ | ⟨act, hcheck, -⟩
  · refine ⟨{ s.socket with moreOut := true, currentOut := some o.pipe }, ?_, rfl⟩
    simp [RouterSend.xsend, hm, h.idle hm, hmore, address, ho, pipe_eq hk.2.2, hcheck, setPipe_self,
      closeMsgs_msg, bind, Except.bind, pure, Except.pure]
  · rw [hcheck] at hw
    cases hw

theorem Inv.takes_part (h : Inv s) (hc : s.socket.currentOut = some p)
    (hw : (s.socket.pipes p).checkWrite.1 = true) (msg : OwnerMsg) :
    ∃ socket, s.socket.xsend msg.msg = .ok (none, socket) ∧
      if msg.msg.more then socket.currentOut = some p
      else (socket.pipes p).flushedOut =
        (s.socket.pipes p).flushedOut ++ (s.parts ++ [msg.msg]) := by
  have hm : s.socket.moreOut = true := by
    by_contra hm
    rw [h.idle (by simpa using hm)] at hc
    cases hc
  have hk := h.current p hc
  have ht := h.tracked p hk.1
  simp only [hc, currentParts, if_true] at ht
  have hpipe := pipe_eq (t := { s.socket with moreOut := msg.msg.more }) hk.2.2
  have hsend : s.socket.xsend msg.msg =
      (sendTo { s.socket with moreOut := msg.msg.more } p msg.msg).map fun s => (none, s) := by
    simp only [RouterSend.xsend, hm, if_true, sendPart, hc]
  obtain ⟨c, hwrite, hlast⟩ := ht.takes hw msg
  rw [hsend]
  unfold sendTo
  simp only [hpipe, hwrite, bind, Except.bind]
  cases hmore : msg.msg.more with
  | true => exact ⟨_, rfl, hc⟩
  | false =>
    obtain ⟨c', hflush, hout⟩ := hlast hmore
    simp only [hflush, Bool.false_eq_true, if_false]
    exact ⟨_, rfl, by simpa [setPipe] using hout⟩

theorem Inv.whole (h : Inv s) : Whole s where
  flushed p hp := by
    obtain ⟨users, n, i, hout, hsub, -⟩ := (h.tracked p hp).out
    exact ⟨users, n, hsub, PipeCall.flushedOut_eq hout⟩
  idle := h.idle
  sends msg := by
    cases hm : s.socket.moreOut with
    | false =>
      obtain ⟨r, socket, heq, hfirst⟩ := h.xsend_first hm msg
      exact ⟨r, socket, heq, nofun, hfirst.failed⟩
    | true =>
      obtain ⟨socket, heq, -, hother⟩ := h.xsend_part hm msg
      exact ⟨none, socket, heq, fun _ => hother, nofun⟩
  delivers p msg hw := ⟨fun hm hmore => h.takes_first hm hmore hw, fun hc => h.takes_part hc hw msg⟩

/-- In every state that a ROUTER reaches, it has sent whole messages, each to the pipe that had
the addressed id when the message began. -/
theorem whole_of_run (id : BitVec 32) {as : List SendAction}
    (h : run step { socket := .new id } as = .ok s) : Whole s :=
  (run_inv (fun _ a s' hI => Inv.step hI a s') (inv_new id) h).whole

/-- A frame of a user. -/
def frame (data : List UInt8) : OwnerMsg where
  msg := Msg.initBuffer data
  valid := by
    rcases Msg.typeOfSize_hasData data.length with h | h
    · simp [Msg.check, Msg.initBuffer, h]
    · simp [Msg.check, Msg.initBuffer, h]
  notDelimiter := by
    rcases Msg.typeOfSize_hasData data.length with h | h
    · simp [Msg.isDelimiter, Msg.initBuffer, h]
    · simp [Msg.isDelimiter, Msg.initBuffer, h]

/-- A frame with another one behind it. -/
def frameMore (data : List UInt8) : OwnerMsg where
  msg := (frame data).msg.setFlags Msg.moreFlag
  valid := (frame data).valid
  notDelimiter := (frame data).notDelimiter

/-- A peer takes over the id of another in the middle of a message, and gets the next one. -/
def handoverRun : List SendAction :=
  [.setHandover true, .attach [.initBuffer [7]] [] 0 0 false, .xsend (frameMore [7]),
    .xsend (frameMore [1]), .attach [.initBuffer [7]] [] 0 0 false, .xsend (frame [2]),
    .xsend (frameMore [7]), .xsend (frame [3])]

/-- The old peer gets nothing of its message, the new one the whole of the next. -/
theorem whole_of_run_handover :
    ∃ s, run step { socket := .new 5 } handoverRun = .ok s ∧ Whole s ∧
      decide ((s.socket.pipes 0).flushedOut = [.initDelimiter] ∧
        (s.socket.pipes 1).flushedOut = [.initBuffer [3]]) = true := by
  have hreach : reaches step { socket := .new 5 } handoverRun (fun s =>
      decide ((s.socket.pipes 0).flushedOut = [.initDelimiter] ∧
        (s.socket.pipes 1).flushedOut = [.initBuffer [3]])) = true := by
    decide +kernel
  obtain ⟨s, hrun, hs⟩ := of_reaches hreach
  exact ⟨s, hrun, whole_of_run 5 hrun, hs⟩

end Sending

end ServerLink

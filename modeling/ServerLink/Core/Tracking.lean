import ServerLink.Core.RouterSend

/-!
# ServerLink.Core.Tracking

What the events at a ROUTER do to the messages it is sending. `Tracked` says what was flushed to
one pipe in terms of the messages that were meant for it, and how each call of the pipe changes
that. `RouterSend.Quiet` is what everything but sending does: no pipe is written to, and the
current pipe and the state of the message stay as they are.
-/

namespace ServerLink

open PipeCall Function Checked

/-! ### One pipe -/

/-- What the peer writes goes into the other queue. -/
theorem PipeCall.settles_publish (c : PipeCall) (ms : List Msg) :
    c.Settles outQueue (c.publish ms) := by
  intro queue h
  unfold publish
  split
  · exact settles_refl c _ queue h
  · exact c.settles_setQueue _ _ queue h

theorem PipeCall.flushedOut_eq {c : PipeCall} {flushed incomplete : List Msg}
    (h : c.Outgoing outQueue flushed incomplete) : c.flushedOut = flushed := by
  obtain ⟨queue, hw, hflushed, -⟩ := h
  simp only [flushedOut, hw.cell]
  exact hflushed

/-- A new pipe holds what the library has written to it. -/
theorem PipeCall.outgoing_opened (inbound : List Msg) (outbound : List Greeting)
    (inhwm outhwm : Int) :
    (opened inbound outbound inhwm outhwm).Outgoing outQueue (outbound.map (·.msg)) [] := by
  have hmem : ∀ m ∈ ({ flushed := outbound.map (·.msg) } : Queue).items,
      m.check = true ∧ m.isDelimiter = false := by
    intro m hm
    simp only [FlushQueue.items, List.append_nil] at hm
    obtain ⟨g, -, rfl⟩ := List.mem_map.mp hm
    exact ⟨g.valid, g.notDelimiter⟩
  refine ⟨_, ⟨Arena.cell_alloc_next _ _, ⟨fun m hm => (hmem m hm).1, fun m hm hdel => ?_,
    by simp⟩, ?_, .inl rfl, fun _ => rfl⟩, rfl, rfl, rfl⟩
  · rw [(hmem m hm).2] at hdel
    cases hdel
  · simp [opened, Pipe.new, inQueue, outQueue]

/-- What was flushed to a pipe, when `msgs` were meant for it, and `current` are the parts of
the one that is being sent to it. -/
structure Tracked (greeting : List Msg) (msgs : List (List Msg)) (current : Option (List Msg))
    (c : PipeCall) : Prop where
  out : ∃ users n incomplete, c.Outgoing outQueue
      (greeting ++ users.flatten ++ List.replicate n .initDelimiter) incomplete ∧
    List.Sublist users msgs ∧ (c.pipe.state = .active → n = 0) ∧
    (current = none → c.pipe.outPipe = some outQueue → incomplete = []) ∧
    ∀ parts, current = some parts → c.pipe.state = .active → incomplete = parts

namespace Tracked

variable {greeting : List Msg} {msgs : List (List Msg)} {current : Option (List Msg)}
  {c c' : PipeCall}

theorem settles (h : Tracked greeting msgs current c) (hs : c.Settles outQueue c') :
    Tracked greeting msgs current c' := by
  obtain ⟨users, n, i, hout, hsub, hn, hnone, hsome⟩ := h.out
  obtain ⟨hback, hopen, -, k, i', hout', hi, hact⟩ := hs.outgoing hout
  rw [List.append_assoc, List.replicate_append_replicate] at hout'
  refine ⟨users, n + k, i', hout', hsub, fun ha => ?_, fun hc ho => ?_, fun parts hc ha => ?_⟩
  · rw [hn (hback ha), (hact ha).1]
  · have hempty := hnone hc (hopen ho)
    rcases hi with rfl | rfl
    · exact hempty
    · rfl
  · rw [(hact ha).2]
    exact hsome parts hc (hback ha)

/-- Another message was meant for the pipe and was dropped. -/
theorem dropped (h : Tracked greeting msgs current c) (msg : List Msg) :
    Tracked greeting (msgs ++ [msg]) current c := by
  obtain ⟨users, n, i, hout, hsub, hrest⟩ := h.out
  exact ⟨users, n, i, hout, hsub.trans (List.sublist_append_left _ _), hrest⟩

theorem start (h : Tracked greeting msgs none c) : Tracked greeting msgs (some []) c := by
  obtain ⟨users, n, i, hout, hsub, hn, hnone, -⟩ := h.out
  refine ⟨users, n, i, hout, hsub, hn, nofun, fun parts hc ha => ?_⟩
  cases hc
  obtain ⟨queue, hw, -⟩ := hout
  exact hnone rfl (hw.of_active ha)

theorem rollback (h : Tracked greeting msgs current c) :
    ∃ c', c.rollback = .ok c' ∧ c'.pipe = c.pipe ∧ Tracked greeting msgs none c' := by
  obtain ⟨users, n, i, hout, hsub, hn, -, -⟩ := h.out
  obtain ⟨c', i', heq, hpipe, hout', hempty⟩ := hout.rollback
  refine ⟨c', heq, hpipe, users, n, i', hout', hsub, ?_, fun _ ho => ?_, nofun⟩
  · rw [hpipe]
    exact hn
  · rw [hpipe] at ho
    exact hempty ho

/-- A part is refused, written, or the last one of the message. -/
theorem write {parts : List Msg} (h : Tracked greeting msgs (some parts) c) (m : OwnerMsg) :
    (∃ c', c.write m.msg = .ok (false, c') ∧ c'.pipe.deleted = c.pipe.deleted ∧
      Tracked greeting msgs (some parts) c') ∨
    ∃ c', c.write m.msg = .ok (true, c') ∧ c'.pipe.deleted = c.pipe.deleted ∧
      (m.msg.more = true → Tracked greeting msgs (some (parts ++ [m.msg])) c') ∧
      (m.msg.more = false → ∃ c'', c'.flush = .ok c'' ∧ c''.pipe.deleted = c.pipe.deleted ∧
        Tracked greeting (msgs ++ [parts ++ [m.msg]]) none c'') := by
  obtain ⟨users, n, i, hout, hsub, hn, hnone, hsome⟩ := id h.out
  rcases hout.write m with ⟨c', heq, hs⟩ | ⟨hact, c', heq, hpipe, hmore, hlast⟩
  · exact .inl ⟨c', heq, (hs.outgoing hout).2.2.1, h.settles hs⟩
  -- an active pipe has written no delimiter, and holds all the parts
  obtain rfl := hn hact
  obtain rfl := hsome parts rfl hact
  refine .inr ⟨c', heq, by rw [hpipe]; rfl, fun hm => ?_, fun hm => ?_⟩
  · refine ⟨users, 0, _, hmore hm, hsub, fun _ => rfl, nofun,
      fun parts hc _ => Option.some.inj hc⟩
  obtain ⟨c'', hflush, hpipe', hout'⟩ := hlast hm
  refine ⟨c'', hflush, by rw [hpipe', hpipe]; rfl, users ++ [i ++ [m.msg]], 0, [], ?_,
    hsub.append (List.Sublist.refl _), fun _ => rfl, fun _ _ => rfl,
    nofun⟩
  simpa using hout'

/-- A pipe that can be written to takes the part, and flushes the message after its last one. -/
theorem takes {parts : List Msg} (h : Tracked greeting msgs (some parts) c)
    (hc : c.checkWrite.1 = true) (m : OwnerMsg) :
    ∃ c', c.write m.msg = .ok (true, c') ∧ (m.msg.more = false →
      ∃ c'', c'.flush = .ok c'' ∧ c''.flushedOut = c.flushedOut ++ (parts ++ [m.msg])) := by
  obtain ⟨users, n, i, hout, -, -, -, hsome⟩ := h.out
  rcases hout.write m with ⟨c', heq, -⟩ | ⟨hact, c', heq, -, -, hlast⟩
  · rcases c.checkWrite_cases with ⟨hcheck, -, hs, -⟩ | ⟨act, hcheck, -⟩
    · obtain ⟨queue, hw, -⟩ := hout
      rw [write_eq hcheck (hw.of_active hs) hw.cell] at heq
      cases heq
    · rw [hcheck] at hc
      cases hc
  refine ⟨c', heq, fun hm => ?_⟩
  obtain ⟨c'', hflush, -, hout'⟩ := hlast hm
  exact ⟨c'', hflush, by rw [flushedOut_eq hout', flushedOut_eq hout, hsome parts rfl hact]⟩

theorem processPipeTermAck (h : Tracked greeting msgs current c)
    (hp : c.processPipeTermAck = .ok c') : Tracked greeting msgs current c' := by
  obtain ⟨users, n, i, hout, hsub, hn, hnone, hsome⟩ := h.out
  obtain ⟨hout', hact, hopen⟩ := hout.processPipeTermAck hp
  exact ⟨users, n, i, hout', hsub, fun ha => absurd ha hact, fun hc ho => hnone hc (hopen ho),
    fun _ _ ha => absurd ha hact⟩

end Tracked

/-! ### The table -/

namespace RoutingTable

/-- The pipes in the table. -/
def Among (t : RoutingTable) (P : PipeId → Prop) : Prop :=
  ∀ id o, t.outPipes id = some o → P o.pipe

variable {t : RoutingTable} {P : PipeId → Prop} {p : PipeId} {id : Blob}

theorem Among.mono {Q : PipeId → Prop} (h : t.Among P) (hPQ : ∀ p, P p → Q p) : t.Among Q :=
  fun id o ho => hPQ o.pipe (h id o ho)

theorem Among.update (h : t.Among P) {o : Option OutPipe} (ho : ∀ x, o = some x → P x.pipe) :
    Among { t with outPipes := update t.outPipes id o } P := by
  intro id' x hx
  by_cases hid : id' = id
  · subst hid
    simp only [update_self] at hx
    exact ho x hx
  · simp only [update_of_ne hid] at hx
    exact h id' x hx

theorem Among.enter (h : t.Among P) (hp : P p) : Ensures (t.enter p id) (·.Among P) := by
  unfold RoutingTable.enter addOutPipe
  split
  · exact .error _ _
  refine .ok ?_
  refine Among.update (t := { t with routingId := Function.update t.routingId p id }) h ?_
  intro x hx
  cases hx
  exact hp

theorem Among.erase (h : t.Among P) (p : PipeId) :
    (t.eraseOutPipe p).Among fun q => P q ∧ q ≠ p := by
  intro id o ho
  obtain ⟨ho, hne⟩ := Option.filter_eq_some_iff.mp ho
  exact ⟨h id o ho, by simpa using hne⟩

theorem Among.deactivate (h : t.Among P) (id : Blob) : (t.deactivate id).Among P := by
  refine h.update fun x hx => ?_
  obtain ⟨o, ho, rfl⟩ := Option.map_eq_some_iff.mp hx
  exact h id o ho

theorem Among.xwriteActivated (h : t.Among P) : Ensures (t.xwriteActivated p) (·.Among P) := by
  unfold RoutingTable.xwriteActivated
  split
  · exact .error _ _
  rename_i o ho
  refine .ite (fun hp => .ok (h.update fun x hx => ?_)) fun _ => .error _ _
  cases hx
  exact hp.1 ▸ h _ o ho

end RoutingTable

/-! ### The socket -/

namespace RouterSend

/-- The pipe has been identified, and it exists. -/
def Known (s : RouterSend) (p : PipeId) : Prop :=
  p < s.next ∧ p ∉ s.anonymousPipes ∧ (s.pipes p).pipe.deleted = false

/-- Nothing is sent: the pipes are left to themselves. -/
structure Quiet (s s' : RouterSend) : Prop where
  next : s'.next = s.next
  currentOut : s'.currentOut = s.currentOut
  moreOut : s'.moreOut = s.moreOut
  anonymousPipes : s'.anonymousPipes = s.anonymousPipes
  pipes : ∀ p, (s.pipes p).Settles outQueue (s'.pipes p)

variable {s s' s'' : RouterSend} {p : PipeId}

theorem Quiet.trans (h : s.Quiet s') (h' : s'.Quiet s'') : s.Quiet s'' where
  next := h'.next.trans h.next
  currentOut := h'.currentOut.trans h.currentOut
  moreOut := h'.moreOut.trans h.moreOut
  anonymousPipes := h'.anonymousPipes.trans h.anonymousPipes
  pipes p := (h.pipes p).trans (h'.pipes p)

theorem quiet_setTable (s : RouterSend) (table : RoutingTable) (currentIn : Option PipeId)
    (terminateCurrentIn : Bool) : s.Quiet { s with table, currentIn, terminateCurrentIn } :=
  ⟨rfl, rfl, rfl, rfl, fun _ => settles_refl _ _⟩

theorem quiet_setPipe (s : RouterSend) {c : PipeCall}
    (hc : (s.pipes p).Settles outQueue c) : s.Quiet (s.setPipe p c) where
  next := rfl
  currentOut := rfl
  moreOut := rfl
  anonymousPipes := rfl
  pipes q := by
    by_cases hq : q = p
    · subst hq
      simp only [setPipe, update_self]
      exact hc
    · simp only [setPipe, update_of_ne hq]
      exact settles_refl _ _

/-- A method of a pipe was called. -/
theorem ensures_call {method : PipeCall → Except Fault PipeCall} {P : RouterSend → Prop}
    (hm : Ensures (method (s.pipes p)) fun c => P (s.setPipe p c)) :
    Ensures (s.call p method) P := by
  have hpipe : Ensures (s.pipe p) (· = s.pipes p) := .ite (fun _ => .error _ _) fun _ => .ok rfl
  refine hpipe.bind fun c hc => ?_
  subst hc
  exact hm.bind fun c hc => .pure hc

theorem quiet_call {method : PipeCall → Except Fault PipeCall}
    (hm : Ensures (method (s.pipes p)) ((s.pipes p).Settles outQueue)) :
    Ensures (s.call p method) fun s' => s.Quiet s' ∧ s'.table = s.table :=
  ensures_call (hm.mono fun _ hc => ⟨s.quiet_setPipe hc, rfl⟩)

/-- What `identify_peer` does: it enters the pipe in the table if it succeeds, and it may
terminate another pipe. -/
structure Identifies (s : RouterSend) (p : PipeId) (r : Bool) (s' : RouterSend) : Prop where
  quiet : s.Quiet s'
  among : ∀ {P : PipeId → Prop}, s.table.Among P → (r = true → P p) → s'.table.Among P

theorem identifies_identified (s : RouterSend) (p : PipeId) (id : Blob) :
    Ensures (s.identified p id) fun x => s.Identifies p x.1 x.2 :=
  .seq fun table ht => .pure
    ⟨s.quiet_setTable table _ _, fun hP hp => hP.enter (hp rfl) table ht⟩

theorem Identifies.of_quiet {s1 : RouterSend} {r : Bool} (hq : s.Quiet s1)
    (ha : ∀ {P : PipeId → Prop}, s.table.Among P → s1.table.Among P)
    (h : s1.Identifies p r s') : s.Identifies p r s' :=
  ⟨hq.trans h.quiet, fun hP hp => h.among (ha hP) hp⟩

theorem identifies_integral (s : RouterSend) (p : PipeId) :
    Ensures (s.identifyIntegral p) fun x => s.Identifies p x.1 x.2 :=
  (identifies_identified _ p _).mono fun _ =>
    .of_quiet (s.quiet_setTable s.table.integralId.2 _ _) fun hP => hP

theorem handOver_quiet (s : RouterSend) (old : PipeId) : Ensures (s.handOver old) fun s' =>
    s.Quiet s' ∧ ∀ {P : PipeId → Prop}, s.table.Among P → P old → s'.table.Among P := by
  refine .seq fun table ht => ?_
  have hamong : ∀ {P : PipeId → Prop}, s.table.Among P → P old → table.Among P := by
    intro P hP hold
    have herase : (s.table.integralId.2.eraseOutPipe old).Among P :=
      (RoutingTable.Among.erase (t := s.table.integralId.2) hP old).mono fun _ hq => hq.1
    exact herase.enter hold table ht
  refine .ite (fun _ => .pure ⟨s.quiet_setTable table _ true, hamong⟩) fun _ => ?_
  refine Ensures.mono (quiet_call (settles_terminate _ _ _)) fun s' h => ?_
  refine ⟨(s.quiet_setTable table _ _).trans h.1, fun hP hold => ?_⟩
  rw [h.2]
  exact hamong hP hold

theorem identifies_identifyBy (s : RouterSend) (p : PipeId) (id : Blob) :
    Ensures (s.identifyBy p id) fun x => s.Identifies p x.1 x.2 := by
  unfold identifyBy
  split
  · exact identifies_identified s p id
  rename_i existing he
  refine .ite (fun _ => .ok ⟨s.quiet_setTable s.table _ _, fun hP _ => hP⟩) fun _ => ?_
  refine (handOver_quiet s existing.pipe).bind fun s1 h1 => (identifies_identified s1 p id).mono ?_
  exact fun _ => .of_quiet h1.1 fun hP => h1.2 hP (hP id existing he)

theorem identifies_identifyPeer (s : RouterSend) (p : PipeId) (locallyInitiated : Bool) :
    Ensures (s.identifyPeer p locallyInitiated) fun x => s.Identifies p x.1 x.2 := by
  refine .ite (fun _ => .ite (fun _ => .error _ _) fun _ => ?_) fun _ =>
    .seq fun ⟨msg, c⟩ hread => ?_
  · exact (identifies_identified _ p _).mono fun _ =>
      .of_quiet (s.quiet_setTable { s.table with connectRoutingId := [] } _ _) fun hP => hP
  have hq : s.Quiet (s.setPipe p c) := s.quiet_setPipe (settles_read _ _ _ hread)
  cases msg with
  | none => exact .pure ⟨hq, fun hP _ => hP⟩
  | some msg =>
    exact .ite (fun _ => (identifies_integral _ p).mono fun _ => .of_quiet hq id)
      fun _ => (identifies_identifyBy _ p _).mono fun _ => .of_quiet hq id

end RouterSend

end ServerLink

import ServerLink.Pipe.PipeEffects

/-!
# ServerLink.Pipe.Termination

The contract of pipe termination: whatever the owners of the two ends do and however the
commands are interleaved, no state assertion fails, each end is deleted at most once and
only when nothing more can be sent to it, each queue is deleted once, and a termination
that was started comes to its end.

The invariant of the protocol (`PartiesInv`) is kept by every step, since every method has
one of the effects it is kept by; `Later` says what a run cannot undo.
-/

namespace ServerLink

open PipeCall PipeEnd Endpoint

/-- Calls do not make a pipe active. -/
theorem Effect.active {e e' : Endpoint} {h h' : Arena Queue} {sent : List Command}
    (he : Effect e h e' h' sent) (hs : e'.status = some .active) : e.status = some .active := by
  cases he with
  | nothing | wrote | emptied | readSome => exact hs
  | readDelimiter | ack | ask | hiccupAsk => simp [status] at hs

namespace PipePair

variable {s' : PipePair}

/-- The invariant of a pipe pair. -/
def Inv (s : PipePair) : Prop := PartiesInv s.first.party s.second.party s.heap

/-- Nobody has asked for termination. -/
def Idle (s : PipePair) : Prop := ∀ x, (s.side x).pipe.endpoint.status = some .active

/-- What lies behind a pair stays behind: an end that was deleted or left the active state
does not come back. -/
structure Later (s s' : PipePair) : Prop where
  idle : s'.Idle → s.Idle
  deleted : ∀ x, (s.side x).pipe.deleted = true → (s'.side x).pipe.deleted = true

theorem Later.refl (s : PipePair) : Later s s := ⟨id, fun _ => id⟩

theorem Later.trans {s s'' : PipePair} (h : Later s s') (h' : Later s' s'') : Later s s'' :=
  ⟨fun hi => h.idle (h'.idle hi), fun x hd => h'.deleted x (h.deleted x hd)⟩

theorem side_swap (s : PipePair) (x : PipeSide) : s.swap.side x = s.side x.other := by
  cases x <;> rfl

theorem Later.swap {s : PipePair} (h : Later s s') : Later s.swap s'.swap where
  idle hi x := by
    rw [side_swap]
    refine h.idle (fun y => ?_) _
    cases y with
    | first => exact hi .second
    | second => exact hi .first
  deleted x hd := by
    rw [side_swap] at hd ⊢
    exact h.deleted _ hd

variable {s : PipePair}

theorem Inv.swap (hi : s.Inv) : s.swap.Inv := PartiesInv.symm hi

theorem Inv.usable (hi : s.Inv) (hd : s.first.pipe.deleted = false) :
    Usable { pipe := s.first.pipe, heap := s.heap } where
  alive := hd
  inLive := hi.in_live hd
  outLive q hq := hi.out_live hd hq
  outSome h1 h2 := by
    have hn := hi.out_ne_none hd ⟨h1, h2⟩
    exact Option.ne_none_iff_exists'.mp hn
  queues := hi.queues
  fresh hl := Nat.ne_of_lt (hi.owned.bound _ hl)

theorem call_eq {method : PipeCall → Except Fault PipeCall} {c : PipeCall}
    (hm : method { pipe := s.first.pipe, heap := s.heap } = .ok c)
    (hb : s.second.pipe.deleted = true → s.second.inbox ++ c.sent = []) :
    s.call method = .ok
      { first := { s.first with pipe := c.pipe }
        second := { s.second with inbox := s.second.inbox ++ c.sent }
        heap := c.heap } := by
  have hok : (s.second.pipe.deleted && !c.sent.isEmpty) = false := by
    cases hd : s.second.pipe.deleted with
    | false => rfl
    | true => simp [(List.append_eq_nil_iff.mp (hb hd)).2]
  simp [call, hm, hok]

theorem Inv.callMethod (hi : s.Inv) (hd : s.first.pipe.deleted = false) (a : PipeAction) :
    ∃ s', s.call (method a) = .ok s' ∧ s'.Inv ∧ Later s s' := by
  obtain ⟨c, hm, he⟩ := does_method (hi.usable hd) rfl a
  have hi' := hi.effect hd he
  refine ⟨_, call_eq hm hi'.right.empty, hi', fun hidle x => ?_, fun x hx => ?_⟩
  · cases x with
    | first => exact he.active (hidle .first)
    | second => exact hidle .second
  · cases x with
    | first => exact absurd hx (by simp [side, hd])
    | second => exact hx

theorem Inv.deliver (hi : s.Inv) {cmd : Command} {rest : List Command}
    (hinbox : s.first.inbox = cmd :: rest) :
    ∃ s', s.stepFirst .deliver = .ok s' ∧ s'.Inv ∧ Later s s' := by
  have hd : s.first.pipe.deleted = false := by
    cases hd : s.first.pipe.deleted with
    | false => rfl
    | true => exact absurd (hi.left.empty hd) (by simp [party, hinbox])
  have hu := hi.usable hd
  have hh : Handles { pipe := s.first.pipe, heap := s.heap } cmd
      (processCommand { pipe := s.first.pipe, heap := s.heap } cmd) := by
    cases cmd with
    | activateRead => exact handles_activateRead hu rfl
    | activateWrite n => exact handles_activateWrite rfl n
    | hiccup new =>
      obtain ⟨q, hq⟩ := Option.ne_none_iff_exists'.mp (hi.hiccup_out hd hinbox)
      exact handles_hiccup hu rfl new hq
    | pipeTerm => exact handles_pipeTerm rfl (hi.term_state hd hinbox)
    | pipeTermAck => exact handles_pipeTermAck hu rfl (hi.ack_state hd hinbox)
  obtain ⟨c, hm, hh⟩ := hh
  have hi' := PartiesInv.handled hi hd hinbox hh
  refine ⟨{ first := { pipe := c.pipe, inbox := rest }
            second := { s.second with inbox := s.second.inbox ++ c.sent }
            heap := c.heap }, ?_, hi', fun hidle x => ?_, fun x hx => ?_⟩
  · simp only [stepFirst, hinbox, hd, Bool.false_eq_true, if_false]
    exact call_eq (s := { s with first := { s.first with inbox := rest } }) hm hi'.right.empty
  · cases x with
    | first => exact Handled.active (a := s.first.party) hd hh (hidle .first)
    | second => exact hidle .second
  · cases x with
    | first => exact absurd hx (by simp [side, hd])
    | second => exact hx

theorem Inv.stepFirst (hi : s.Inv) (a : PipeAction) :
    ∃ s', s.stepFirst a = .ok s' ∧ s'.Inv ∧ Later s s' := by
  by_cases hdel : a = .deliver
  · subst hdel
    cases hinbox : s.first.inbox with
    | nil => exact ⟨s, by simp [PipePair.stepFirst, hinbox], hi, Later.refl s⟩
    | cons cmd rest => exact hi.deliver hinbox
  rw [stepFirst_eq hdel]
  cases hd : s.first.pipe.deleted with
  | true => exact ⟨s, rfl, hi, Later.refl s⟩
  | false => exact hi.callMethod hd a

theorem Inv.step (hi : s.Inv) (a : PipeSide × PipeAction) :
    ∃ s', s.step a = .ok s' ∧ s'.Inv ∧ Later s s' := by
  obtain ⟨x, a⟩ := a
  cases x with
  | first => exact hi.stepFirst a
  | second =>
    obtain ⟨s', hs, hi', hl⟩ := hi.swap.stepFirst a
    exact ⟨s'.swap, by simp only [PipePair.step, hs]; rfl, hi'.swap, hl.swap⟩

/-! ### Runs -/

/-- No run fails. -/
theorem Inv.run (hi : s.Inv) (acts : List (PipeSide × PipeAction)) :
    ∃ s', CheckedRun.run PipePair.step s acts = .ok s' ∧ s'.Inv ∧ Later s s' := by
  have hstep : ∀ s1 a, s1.Inv ∧ Later s s1 →
      ∃ s2, PipePair.step s1 a = .ok s2 ∧ s2.Inv ∧ Later s s2 := fun s1 a h => by
    obtain ⟨s2, hs, hi2, hl⟩ := h.1.step a
    exact ⟨s2, hs, hi2, h.2.trans hl⟩
  exact CheckedRun.run_ok_of_inv hstep acts ⟨hi, Later.refl s⟩

theorem endInv_new {b : Party} {h : Arena Queue} {i o : QueueId} {inhwm outhwm : Int}
    (hb : b.inPipe = o) :
    EndInv (party { pipe := Pipe.new i o inhwm outhwm }) b h where
  out_none := by simp [party, Pipe.endpoint, Pipe.new, status]
  out_peer _ q hq := by
    obtain rfl : o = q := Option.some.inj hq
    exact hb.symm
  announced := by simp [party, hiccups]
  wakes _ hf := by cases hf
  notified := rfl
  last := by simp [party]
  empty _ := rfl

theorem not_awaits_new {i o : QueueId} {inhwm outhwm : Int} :
    ¬ (party { pipe := Pipe.new i o inhwm outhwm }).Awaits := by
  simp [Party.Awaits, party, Pipe.endpoint, Pipe.new, status, termCommands]

/-- Two active ends that share two empty queues. -/
theorem inv_new (hwm0 hwm1 : Int) : (new hwm0 hwm1).Inv := by
  have hcell : ∀ q queue, (new hwm0 hwm1).heap.cell q = some queue → queue = {} := by
    intro q queue hc
    simp only [new, Arena.alloc, Function.update_apply] at hc
    split at hc
    · exact (Option.some.inj hc).symm
    · split at hc
      · exact (Option.some.inj hc).symm
      · cases hc
  have hlive : ∀ q, (new hwm0 hwm1).heap.Live q ↔ q = 0 ∨ q = 1 := by
    intro q
    simp only [new, Arena.live_alloc, Arena.alloc_next]
    simp [Arena.Live, or_comm]
  refine ⟨⟨.inl .idle, ?_, ?_, ⟨?_, fun q => ?_, fun q hl => ?_⟩, fun q queue hc => ?_⟩,
    ?_, ?_, fun _ _ => ⟨fun queue hc => ?_, fun queue hc => ?_⟩⟩
  · exact endInv_new rfl
  · exact endInv_new rfl
  · simp [Party.owned, new, party, Pipe.endpoint, Pipe.new, hiccups]
  · rw [hlive]
    simp [Party.owned, new, party, Pipe.endpoint, Pipe.new, hiccups]
  · rcases (hlive q).mp hl with rfl | rfl <;> simp [new]
  · rw [hcell q queue hc]
    exact ⟨by simp [FlushQueue.items], by simp [FlushQueue.items], by simp⟩
  · exact fun h => absurd h not_awaits_new
  · exact fun h => absurd h not_awaits_new
  · rw [hcell _ queue hc]
    simp [FlushQueue.items, NoDelimiter]
  · rw [hcell _ queue hc]
    simp [FlushQueue.items, NoDelimiter]

theorem call_pipe {method : PipeCall → Except Fault PipeCall} {c : PipeCall}
    (hm : method { pipe := s.first.pipe, heap := s.heap } = .ok c) (hs : s.call method = .ok s') :
    s'.first.pipe = c.pipe := by
  simp only [call, hm] at hs
  split at hs
  · cases hs
  · rw [← Except.ok.inj hs]

/-- An end that was asked to terminate is not active any more. -/
theorem Inv.stepFirst_asks (hi : s.Inv) {a : PipeAction} (ha : a.Asks)
    (hs : s.stepFirst a = .ok s') : s'.first.pipe.endpoint.status ≠ some .active := by
  have hne : a ≠ .deliver := by
    rintro rfl
    exact ha
  rw [stepFirst_eq hne] at hs
  cases hd : s.first.pipe.deleted with
  | true =>
    rw [hd, if_pos rfl] at hs
    simp [← Except.ok.inj hs, status, Pipe.endpoint, hd]
  | false =>
    rw [hd, if_neg Bool.false_ne_true] at hs
    obtain ⟨c, hm, hst⟩ : ∃ c, method a { pipe := s.first.pipe, heap := s.heap } = .ok c ∧
        c.pipe.state ≠ .active := by
      cases a <;> simp only [PipeAction.Asks] at ha
      case terminate delay =>
        obtain ⟨c, hm, -, hst⟩ := does_terminate (hi.usable hd) rfl delay
        exact ⟨c, hm, hst⟩
      case hiccupTerminate =>
        obtain ⟨c, hm, -, hst⟩ := does_hiccupTerminate (hi.usable hd) rfl
        exact ⟨c, hm, hst⟩
    rw [call_pipe hm hs]
    exact fun hact => hst (status_eq_some.mp hact).2

theorem Inv.step_asks (hi : s.Inv) {x : PipeSide} {a : PipeAction} (ha : a.Asks)
    (hs : s.step (x, a) = .ok s') : ¬ s'.Idle := by
  cases x with
  | first => exact fun hidle => hi.stepFirst_asks ha hs (hidle .first)
  | second =>
    obtain ⟨s1, hs1, -, -⟩ := hi.swap.stepFirst a
    simp only [PipePair.step, hs1] at hs
    obtain rfl : s1.swap = s' := Except.ok.inj hs
    exact fun hidle => hi.swap.stepFirst_asks ha hs1 (hidle .second)

/-- A run in which somebody asked for termination does not end idle. -/
theorem Inv.run_asks (hi : s.Inv) {acts : List (PipeSide × PipeAction)}
    (ha : ∃ x a, (x, a) ∈ acts ∧ a.Asks)
    (hs : CheckedRun.run PipePair.step s acts = .ok s') : ¬ s'.Idle := by
  obtain ⟨x, a, hmem, ha⟩ := ha
  obtain ⟨before, after, rfl⟩ := List.append_of_mem hmem
  obtain ⟨s1, hs1, hrest⟩ := CheckedRun.run_append_eq_ok.mp hs
  obtain ⟨s1', hs1', hi1, -⟩ := hi.run before
  cases hs1'.symm.trans hs1
  obtain ⟨s2, hs2, hi2, -⟩ := hi1.step (x, a)
  rw [CheckedRun.run_cons_ok _ hs2] at hrest
  obtain ⟨s3, hs3, -, hl⟩ := hi2.run after
  cases hs3.symm.trans hrest
  exact fun hidle => hi1.step_asks ha hs2 (hl.idle hidle)

/-- Nothing is left to do: no command is on its way, and an end that waits for the
delimiter has read what there was. -/
def Quiescent (s : PipePair) : Prop :=
  ∀ x, (s.side x).inbox = [] ∧
    ((s.side x).pipe.state = .waitingForDelimiter → (s.side x).pipe.inActive = false)

/-- An end that waits for the delimiter has it in its queue, and is told so. -/
theorem not_waiting {a b : Party} {h : Arena Queue} (hi : PartiesInv a b h)
    (hinbox : a.inbox = []) (hact : a.state = .waitingForDelimiter → a.inActive = false) :
    a.status ≠ some .waitingForDelimiter := by
  intro hst
  obtain ⟨queue, hc, m, hm, -⟩ := hi.delimitedLeft (.inl hst)
  rcases hi.left.wakes (.inr hst) (hact (status_eq_some.mp hst).2) with hmem | hempty
  · simp [hinbox] at hmem
  · simp [(hempty queue hc).1] at hm

/-- A quiescent pair is idle or gone. -/
theorem Inv.quiescent (hi : s.Inv) (hq : s.Quiescent) :
    s.Idle ∨ ∀ x, (s.side x).pipe.deleted = true := by
  obtain ⟨hin1, hact1⟩ := hq .first
  obtain ⟨hin2, hact2⟩ := hq .second
  have hv1 : s.first.party.view.inbox = [] := congrArg termCommands hin1
  have hv2 : s.second.party.view.inbox = [] := congrArg termCommands hin2
  rcases hi.linked.quiet hv1 hv2 with ⟨h1, h2⟩ | ⟨h1, h2⟩ | h1 | h2
  · left
    intro x
    cases x with
    | first => exact h1
    | second => exact h2
  · right
    intro x
    cases x with
    | first => exact status_eq_none.mp h1
    | second => exact status_eq_none.mp h2
  · exact absurd h1 (not_waiting hi hin1 hact1)
  · exact absurd h2 (not_waiting hi.symm hin2 hact2)

/-- When both ends are deleted, so are all queues. -/
theorem Inv.no_queue (hi : s.Inv) (hd : ∀ x, (s.side x).pipe.deleted = true) (q : QueueId) :
    ¬ s.heap.Live q := by
  have hown : ∀ a b : Party, EndInv a b s.heap → a.deleted = true → a.owned = [] :=
    fun a b ha hdel => by simp [Party.owned, hdel, ha.empty hdel, hiccups]
  rw [hi.owned.live, hown _ _ hi.left (hd .first), hown _ _ hi.right (hd .second)]
  simp

/-- Whatever has happened to a pair, what follows keeps the contract of termination. -/
theorem Inv.side_end (hi : s.Inv) (x : PipeSide) :
    (s.side x).pipe.notified = (if (s.side x).pipe.deleted then 1 else 0) ∧
      ((s.side x).pipe.deleted = true → (s.side x).inbox = []) := by
  cases x with
  | first => exact ⟨hi.left.notified, hi.left.empty⟩
  | second => exact ⟨hi.right.notified, hi.right.empty⟩

/-- Pipe termination. In every interleaving of calls and deliveries no assertion fails, no
deleted queue is used or deleted again and no deleted end is sent a command. An end tells
its sink once, when it is deleted; from then on nothing is on its way to it, whatever
happens. When somebody has asked for termination and nothing is left to do, both ends are
deleted, and with them every queue. -/
theorem terminates (hwm0 hwm1 : Int) (acts : List (PipeSide × PipeAction)) :
    ∃ s, CheckedRun.run step (new hwm0 hwm1) acts = .ok s ∧
      (∀ x, (s.side x).pipe.notified = if (s.side x).pipe.deleted then 1 else 0) ∧
      (∀ x, (s.side x).pipe.deleted = true → ∀ more,
        ∃ s', CheckedRun.run step s more = .ok s' ∧ (s'.side x).pipe.deleted = true ∧
          (s'.side x).pipe.notified = 1 ∧ (s'.side x).inbox = []) ∧
      ((∀ x, (s.side x).pipe.deleted = true) → ∀ q, ¬ s.heap.Live q) ∧
      ((∃ x a, (x, a) ∈ acts ∧ a.Asks) → s.Quiescent → ∀ x, (s.side x).pipe.deleted = true) := by
  obtain ⟨s, hs, hi, -⟩ := (inv_new hwm0 hwm1).run acts
  refine ⟨s, hs, fun x => (hi.side_end x).1, fun x hd more => ?_, hi.no_queue, fun hasks hq => ?_⟩
  · obtain ⟨s', hs', hi', hl⟩ := hi.run more
    have hd' := hl.deleted x hd
    obtain ⟨hn, he⟩ := hi'.side_end x
    exact ⟨s', hs', hd', by simpa [hd'] using hn, he hd'⟩
  · exact (hi.quiescent hq).resolve_left ((inv_new hwm0 hwm1).run_asks hasks hs)

/-- Both owners terminate at the same time, one after a hiccup; the requests cross. -/
example :
    ((CheckedRun.run step (new 1 1)
        [(.first, .hiccupTerminate), (.second, .terminate true), (.second, .deliver),
          (.first, .deliver), (.second, .deliver), (.first, .deliver), (.second, .deliver)]).map
        fun s => (s.first.pipe.deleted, s.second.pipe.deleted)) = .ok (true, true) := by
  decide

end PipePair

end ServerLink

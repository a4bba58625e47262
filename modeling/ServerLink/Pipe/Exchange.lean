import ServerLink.Pipe.FlowControl
import ServerLink.Pipe.Inlet

/-!
# ServerLink.Pipe.Exchange

What the two ends of a pipe exchange as long as neither asks for termination: `Holds` says
what is in the two queues, seen from the first end, and there is one lemma for each method
that says what it makes of them and what it returns. None of the calls faults.

No credentials are written: the program writes them only when the mechanism knows a user id,
and none ever does.
-/

namespace ServerLink

open PipeCall FlushQueue

namespace PipePair

/-- Run a method of the first end that returns something. -/
def ask {β : Type} (s : PipePair) (method : PipeCall → Except Fault (β × PipeCall)) :
    Except Fault (β × PipePair) :=
  match method { pipe := s.first.pipe, heap := s.heap } with
  | .error e => .error e
  | .ok (r, c) => (s.call fun _ => .ok c).map (r, ·)

/-- The first end, in a call of one of its methods. -/
abbrev near (s : PipePair) : PipeCall := { pipe := s.first.pipe, heap := s.heap }

/-- The queue the first end reads from, and the one it writes to. -/
structure Holds (s : PipePair) (incoming outgoing : Queue) : Prop where
  inv : s.Inv
  idle : s.Idle
  cellIn : s.heap.cell s.first.pipe.inPipe = some incoming
  cellOut : s.heap.cell s.second.pipe.inPipe = some outgoing
  plainIn : ∀ m ∈ incoming.items, m.isCredential = false
  plainOut : ∀ m ∈ outgoing.items, m.isCredential = false

variable {s : PipePair} {d d' u u' : Queue}

theorem Holds.swap (h : s.Holds d u) : s.swap.Holds u d where
  inv := h.inv.swap
  idle := h.idle.swap
  cellIn := h.cellOut
  cellOut := h.cellIn
  plainIn := h.plainOut
  plainOut := h.plainIn

theorem holds_new (hwm0 hwm1 : Int) : (new hwm0 hwm1).Holds {} {} where
  inv := inv_new hwm0 hwm1
  idle y := by cases y <;> rfl
  cellIn := rfl
  cellOut := rfl
  plainIn := by simp [items]
  plainOut := by simp [items]

/-- A method that was asked leaves the pair as one that was called. -/
theorem ask_of_call {β : Type} {method : PipeCall → Except Fault (β × PipeCall)} {r : β}
    {c : PipeCall} {s' : PipePair}
    (hm : method s.near = .ok (r, c))
    (hs : s.call (fun c => (method c).map Prod.snd) = .ok s') : s.ask method = .ok (r, s') := by
  have hcall : s.call (fun _ => .ok c) = .ok s' := by
    simp only [call, hm] at hs
    exact hs
  simp only [ask, hm, hcall]
  rfl

/-- A plain call of the first end, from what it does to the pipe and to the queues. -/
theorem Holds.call (h : s.Holds d u) {a : PipeAction} (hp : a.Plain) (hne : a ≠ .deliver)
    {c : PipeCall} (hm : method a s.near = .ok c)
    (hin : c.pipe.inPipe = s.first.pipe.inPipe)
    (hd : c.heap.cell s.first.pipe.inPipe = some d')
    (hu : c.heap.cell s.second.pipe.inPipe = some u')
    (hplainIn : ∀ m ∈ d'.items, m.isCredential = false)
    (hplainOut : ∀ m ∈ u'.items, m.isCredential = false) :
    ∃ s', s.call (method a) = .ok s' ∧ s'.Holds d' u' ∧ s'.first.pipe = c.pipe ∧
      s'.second.pipe = s.second.pipe := by
  obtain ⟨s', hs, hinv, hidle, -⟩ := h.inv.moves_step (a := (.first, a)) h.idle hp
  have hcall : s.call (method a) = .ok s' := by
    have hstep : s.stepFirst a = .ok s' := hs
    rw [stepFirst_eq hne, (h.inv.quiet h.idle).active.1, if_neg Bool.false_ne_true] at hstep
    exact hstep
  refine ⟨s', hcall, ?_⟩
  simp only [PipePair.call, hm] at hcall
  split at hcall
  · cases hcall
  · cases hcall
    exact ⟨⟨hinv, hidle, by rw [hin]; exact hd, hu, hplainIn, hplainOut⟩, rfl, rfl⟩

theorem Holds.ne (h : s.Holds d u) : s.second.pipe.inPipe ≠ s.first.pipe.inPipe :=
  (h.inv.quiet h.idle).ne

theorem Holds.setOut (h : s.Holds d u) (u' : Queue) :
    (s.heap.set s.second.pipe.inPipe u').cell s.first.pipe.inPipe = some d := by
  rw [Arena.cell_set_of_ne _ _ h.ne.symm]
  exact h.cellIn

theorem Holds.setIn (h : s.Holds d u) (d' : Queue) :
    (s.heap.set s.first.pipe.inPipe d').cell s.second.pipe.inPipe = some u := by
  rw [Arena.cell_set_of_ne _ _ h.ne]
  exact h.cellOut

/-- A call that leaves the queues alone. -/
theorem Holds.keeps (h : s.Holds d u) {a : PipeAction} (hp : a.Plain) (hne : a ≠ .deliver)
    {p : Pipe} (hm : method a s.near = .ok { pipe := p, heap := s.heap })
    (hin : p.inPipe = s.first.pipe.inPipe) :
    ∃ s', s.call (method a) = .ok s' ∧ s'.Holds d u ∧ s'.first.pipe = p ∧
      s'.second.pipe = s.second.pipe :=
  h.call hp hne hm hin h.cellIn h.cellOut h.plainIn h.plainOut

/-- A call that takes from the incoming queue. -/
theorem Holds.takes (h : s.Holds d u) {a : PipeAction} (hp : a.Plain) (hne : a ≠ .deliver)
    {c : PipeCall} (hm : method a s.near = .ok c)
    (hin : c.pipe.inPipe = s.first.pipe.inPipe)
    (hc : c.heap = s.heap.set s.first.pipe.inPipe d') (hd : d'.items ⊆ d.items) :
    ∃ s', s.call (method a) = .ok s' ∧ s'.Holds d' u ∧ s'.first.pipe = c.pipe ∧
      s'.second.pipe = s.second.pipe :=
  h.call hp hne hm hin (hc ▸ Arena.cell_set _ _ _) (hc ▸ h.setIn _)
    (fun m hm => h.plainIn m (hd hm)) h.plainOut

/-! ### Writing -/

theorem Holds.write (h : s.Holds d u) (m : OwnerMsg) (hm : m.msg.isCredential = false) :
    ∃ written s', s.ask (·.write m.msg) = .ok (written, s') ∧
      s'.Holds d (if written then u.write m.msg m.msg.more else u) ∧
      s'.first.pipe.inActive = s.first.pipe.inActive ∧ s'.second.pipe = s.second.pipe := by
  have hout := (h.inv.quiet h.idle).out
  rcases PipeCall.checkWrite_cases s.near with ⟨hw, -⟩ | ⟨act, hw, -⟩
  · have heq := PipeCall.write_eq hw hout h.cellOut m.msg
    obtain ⟨s', hs, hh, hf, hsec⟩ := h.call (a := .write m) hm (by simp)
      (congrArg (Except.map Prod.snd) heq) rfl (h.setOut _) (Arena.cell_set _ _ _) h.plainIn
      (fun m' hm' => by
        rcases List.mem_append.mp (items_write u m.msg _ ▸ hm') with hm' | hm'
        · exact h.plainOut m' hm'
        · rw [List.mem_singleton.mp hm']
          exact hm)
    exact ⟨true, s', ask_of_call heq hs, hh, by rw [hf], hsec⟩
  · have heq : PipeCall.write s.near m.msg =
        .ok (false, { pipe := { s.first.pipe with outActive := act }, heap := s.heap }) := by
      simp only [PipeCall.write, hw]
    obtain ⟨s', hs, hh, hf, hsec⟩ := h.keeps (a := .write m) hm (by simp)
      (congrArg (Except.map Prod.snd) heq) rfl
    exact ⟨false, s', ask_of_call heq hs, hh, by rw [hf], hsec⟩

theorem Holds.flush (h : s.Holds d u) :
    ∃ s', s.call flush = .ok s' ∧ s'.Holds d u.flush.2 ∧
      s'.first.pipe = s.first.pipe ∧ s'.second.pipe = s.second.pipe := by
  have hq := h.inv.quiet h.idle
  have heq := flush_eq (c := s.near) (by rw [hq.active.2]; simp) hq.out h.cellOut
  exact h.call (a := .flush) trivial (by simp) heq rfl (h.setOut _) (Arena.cell_set _ _ _)
    h.plainIn (by rw [items_flush]; exact h.plainOut)

theorem Holds.rollback (h : s.Holds d u) :
    ∃ s', s.call rollback = .ok s' ∧ s'.Holds d u.unwriteAll.2 ∧
      s'.first.pipe = s.first.pipe ∧ s'.second.pipe = s.second.pipe := by
  have hq := h.inv.quiet h.idle
  have heq := rollback_eq (c := s.near) hq.out h.cellOut (h.inv.queues _ _ h.cellOut)
  exact h.call (a := .rollback) trivial (by simp) heq rfl (h.setOut _) (Arena.cell_set _ _ _)
    h.plainIn fun m hm => h.plainOut m (items_unwriteAll hm)

theorem Holds.checkWrite (h : s.Holds d u) :
    ∃ s', s.call (method .checkWrite) = .ok s' ∧ s'.Holds d u ∧
      s'.first.pipe.inActive = s.first.pipe.inActive ∧ s'.second.pipe = s.second.pipe := by
  obtain ⟨act, hw⟩ : ∃ act, method .checkWrite s.near =
      .ok { pipe := { s.first.pipe with outActive := act }, heap := s.heap } := by
    rcases checkWrite_cases s.near with ⟨hw, -⟩ | ⟨act, hw, -⟩ <;>
      exact ⟨_, congrArg (Except.ok ∘ Prod.snd) hw⟩
  obtain ⟨s', hs, hh, hf, hsec⟩ := h.keeps (a := .checkWrite) trivial (by simp) hw rfl
  exact ⟨s', hs, hh, by rw [hf], hsec⟩

/-! ### Reading -/

/-- The queue without the wakefulness of its reader. -/
def SameItems (d d' : Queue) : Prop := ∃ asleep, d' = { d with asleep }

theorem SameItems.items_eq (h : SameItems d d') : d'.items = d.items := by
  obtain ⟨_, rfl⟩ := h
  rfl

/-- What a read returns and what it leaves: the next message, or nothing, if there is nothing
or if the pipe has not been woken. -/
def Reads (p : Pipe) (d : Queue) (r : Option Msg) (p' : Pipe) (d' : Queue) : Prop :=
  (∃ m rest, r = some m ∧ d.flushed = m :: rest ∧ d' = { d with flushed := rest } ∧
      p'.inActive = true) ∨
    (r = none ∧ (p.inActive = true → d.flushed = []) ∧ SameItems d d' ∧ p'.inActive = false)

theorem Holds.reading (h : s.Holds d u) : s.first.pipe.reading = true := by
  have hstate : s.first.pipe.state = .active := (h.inv.activeCall h.idle).active
  simp [Pipe.reading, hstate]

/-- No delimiter comes while neither end has asked for termination. -/
theorem Holds.next (h : s.Holds d u) {m : Msg} {rest : List Msg} (hd : d.flushed = m :: rest) :
    m.isDelimiter = false :=
  (h.inv.activeCall h.idle).undelimited d h.cellIn m (by simp [items, hd])

theorem Holds.read (h : s.Holds d u) :
    ∃ r s' d', s.ask PipeCall.read = .ok (r, s') ∧ s'.Holds d' u ∧
      Reads s.first.pipe d r s'.first.pipe d' ∧ s'.second.pipe = s.second.pipe := by
  cases hin : s.first.pipe.inActive with
  | false =>
    have heq : PipeCall.read s.near = .ok (none, s.near) := by simp [PipeCall.read, hin]
    obtain ⟨s', hs, hh, hf, hsec⟩ := h.keeps (a := .read) trivial (by simp)
      (congrArg (Except.map Prod.snd) heq) rfl
    exact ⟨none, s', d, ask_of_call heq hs, hh,
      Or.inr ⟨rfl, by simp [hin], ⟨d.asleep, rfl⟩, by rw [hf]; exact hin⟩, hsec⟩
  | true =>
    have hskip : PipeCall.skipCredentials d.flushed = .ok d.flushed :=
      PipeCall.skipCredentials_eq fun m hm => h.plainIn m (by simp [items, hm])
    have hread := @PipeCall.read_eq s.near d hin h.reading h.cellIn
    cases hd : d.flushed with
    | nil =>
      have heq := hread (hskip.trans (congrArg Except.ok hd))
      obtain ⟨s', hs, hh, hf, hsec⟩ := h.takes (a := .read) trivial (by simp)
        (congrArg (Except.map Prod.snd) heq) rfl rfl (by simp [items, hd])
      exact ⟨none, s', _, ask_of_call heq hs, hh,
        Or.inr ⟨rfl, fun _ => hd, ⟨true, by rw [hd]⟩, by rw [hf]; rfl⟩, hsec⟩
    | cons m rest =>
      have heq := hread (hskip.trans (congrArg Except.ok hd))
      simp only [h.next hd, Bool.false_eq_true, if_false] at heq
      obtain ⟨s', hs, hh, hf, hsec⟩ := h.takes (a := .read) trivial (by simp)
        (congrArg (Except.map Prod.snd) heq) rfl rfl (by simp [items, hd])
      exact ⟨some m, s', _, ask_of_call heq hs, hh,
        Or.inl ⟨m, rest, rfl, hd, rfl, by rw [hf]; exact hin⟩, hsec⟩

theorem Holds.checkRead (h : s.Holds d u) :
    ∃ s' d', s.call (method .checkRead) = .ok s' ∧ s'.Holds d' u ∧ SameItems d d' ∧
      (s.first.pipe.inActive = true → d.flushed ≠ [] → s'.first.pipe.inActive = true) ∧
      s'.second.pipe = s.second.pipe := by
  cases hin : s.first.pipe.inActive with
  | false =>
    have heq : PipeCall.checkRead s.near = .ok (false, s.near) := by
      simp [PipeCall.checkRead, hin]
    obtain ⟨s', hs, hh, -, hsec⟩ := h.keeps (a := .checkRead) trivial (by simp)
      (congrArg (Except.map Prod.snd) heq) rfl
    exact ⟨s', d, hs, hh, ⟨d.asleep, rfl⟩, by simp, hsec⟩
  | true =>
    have heq := PipeCall.checkRead_eq (c := s.near) hin h.reading h.cellIn
    cases hd : d.flushed with
    | nil =>
      simp only [hd] at heq
      obtain ⟨s', hs, hh, -, hsec⟩ := h.takes (a := .checkRead) trivial (by simp)
        (congrArg (Except.map Prod.snd) heq) rfl rfl (by simp [items, hd])
      exact ⟨s', _, hs, hh, ⟨true, by rw [hd]⟩, fun _ hne => absurd rfl hne, hsec⟩
    | cons m rest =>
      simp only [hd, h.next hd, Bool.false_eq_true, if_false] at heq
      obtain ⟨s', hs, hh, hf, hsec⟩ := h.takes (a := .checkRead) trivial (by simp)
        (congrArg (Except.map Prod.snd) heq) rfl rfl (List.Subset.refl _)
      exact ⟨s', d, hs, hh, ⟨d.asleep, rfl⟩, fun _ _ => by rw [hf]; exact hin, hsec⟩

/-! ### Commands -/

theorem Holds.deliver (h : s.Holds d u) :
    ∃ s', s.stepFirst .deliver = .ok s' ∧ s'.Holds d u ∧
      (s.first.pipe.inActive = true → s'.first.pipe.inActive = true) ∧
      s'.second.pipe = s.second.pipe := by
  obtain ⟨s', hs, hinv, hidle, -⟩ := h.inv.moves_step (a := (.first, .deliver)) h.idle trivial
  have hstep : s.stepFirst .deliver = .ok s' := hs
  have hq := h.inv.quiet h.idle
  refine ⟨s', hstep, ?_⟩
  cases hinbox : s.first.inbox with
  | nil =>
    simp only [stepFirst, hinbox] at hstep
    cases hstep
    exact ⟨h, id, rfl⟩
  | cons cmd rest =>
    have hterm := hq.inbox
    simp only [stepFirst, hinbox, hq.active.1, Bool.false_eq_true, if_false, PipePair.call,
      processCommand] at hstep
    cases cmd with
    | hiccup | pipeTerm | pipeTermAck => simp [hinbox, termCommands] at hterm
    | activateRead =>
      obtain ⟨act, hread, hact⟩ : ∃ act,
          processActivateRead s.near =
            { pipe := { s.first.pipe with inActive := act }, heap := s.heap } ∧
          (s.first.pipe.inActive = true → act = true) := by
        unfold processActivateRead
        split
        · exact ⟨true, rfl, fun _ => rfl⟩
        · exact ⟨s.first.pipe.inActive, rfl, id⟩
      simp only [hread, List.isEmpty_nil, Bool.not_true, Bool.and_false, Bool.false_eq_true,
        if_false, List.append_nil] at hstep
      cases hstep
      exact ⟨⟨hinv, hidle, h.cellIn, h.cellOut, h.plainIn, h.plainOut⟩, hact, rfl⟩
    | activateWrite n =>
      have hact : processActivateWrite s.near n = _ :=
        processActivateWrite_active hq.active.2 n
      simp only [hact, List.isEmpty_nil, Bool.not_true, Bool.and_false, Bool.false_eq_true,
        if_false, List.append_nil] at hstep
      cases hstep
      exact ⟨⟨hinv, hidle, h.cellIn, h.cellOut, h.plainIn, h.plainOut⟩, id, rfl⟩

end PipePair

end ServerLink

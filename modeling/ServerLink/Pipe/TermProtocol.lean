import ServerLink.Pipe.Pipe

/-!
# ServerLink.Pipe.TermProtocol

The termination protocol of two pipe ends, reduced to their states and the termination
commands in flight. `Phase` lists the combinations that occur; the lemmas below it say
that every transition of an end leads from one of them to another.
-/

namespace ServerLink

/-- The commands of the protocol proper. -/
inductive TermCommand
  | hiccup
  | term
  | ack
  deriving DecidableEq

/-- The protocol commands in an inbox. -/
def termCommands : List Command → List TermCommand
  | [] => []
  | .hiccup _ :: cs => .hiccup :: termCommands cs
  | .pipeTerm :: cs => .term :: termCommands cs
  | .pipeTermAck :: cs => .ack :: termCommands cs
  | .activateRead :: cs => termCommands cs
  | .activateWrite _ :: cs => termCommands cs

/-- The queues announced by the hiccups in an inbox. -/
def hiccups : List Command → List QueueId
  | [] => []
  | .hiccup q :: cs => q :: hiccups cs
  | _ :: cs => hiccups cs

@[simp] theorem termCommands_append (xs ys : List Command) :
    termCommands (xs ++ ys) = termCommands xs ++ termCommands ys := by
  induction xs with
  | nil => rfl
  | cons c cs ih => cases c <;> simp [termCommands, ih]

@[simp] theorem hiccups_append (xs ys : List Command) :
    hiccups (xs ++ ys) = hiccups xs ++ hiccups ys := by
  induction xs with
  | nil => rfl
  | cons c cs ih => cases c <;> simp [hiccups, ih]

theorem length_hiccups (inbox : List Command) :
    (hiccups inbox).length = (termCommands inbox).count .hiccup := by
  induction inbox with
  | nil => rfl
  | cons c cs ih => cases c <;> simp [termCommands, hiccups, ih]

theorem hiccups_eq_nil {inbox : List Command} (h : .hiccup ∉ termCommands inbox) :
    hiccups inbox = [] := by
  rw [← List.length_eq_zero_iff, length_hiccups]
  exact List.count_eq_zero_of_not_mem h

theorem ack_mem_termCommands {inbox : List Command} :
    .ack ∈ termCommands inbox ↔ .pipeTermAck ∈ inbox := by
  induction inbox with
  | nil => simp [termCommands]
  | cons c cs ih => cases c <;> simp [termCommands, ih]

/-! ### Phases -/

/-- An end as its peer's protocol sees it: its state (`none` once deleted) and the
protocol commands on their way to it. -/
structure TermView where
  status : Option PipeState
  inbox : List TermCommand
  deriving DecidableEq

/-- A hiccup that may still precede the request of the end that sent it. -/
def maybeHiccup (h : Bool) : List TermCommand := if h then [.hiccup] else []

theorem maybeHiccup_append_eq_hiccup {h : Bool} {cs inbox : List TermCommand} :
    maybeHiccup h ++ .term :: cs = .hiccup :: inbox ↔ h = true ∧ .term :: cs = inbox := by
  cases h <;> simp [maybeHiccup]

theorem maybeHiccup_append_eq_term {h : Bool} {cs inbox : List TermCommand} :
    maybeHiccup h ++ .term :: cs = .term :: inbox ↔ h = false ∧ cs = inbox := by
  cases h <;> simp [maybeHiccup]

theorem maybeHiccup_append_ne_ack {h : Bool} {cs inbox : List TermCommand} :
    maybeHiccup h ++ .term :: cs ≠ .ack :: inbox := by
  cases h <;> simp [maybeHiccup]

/-- The pairs of views the protocol goes through, with the end that asked first (or was
deleted first) on the left. -/
inductive Phase : TermView → TermView → Prop
  | idle : Phase ⟨some .active, []⟩ ⟨some .active, []⟩
  /-- One end has asked, the other does not know; it may have read the delimiter. -/
  | asked (h : Bool) : Phase ⟨some .termReqSent1, []⟩ ⟨some .active, maybeHiccup h ++ [.term]⟩
  | delimited (h : Bool) :
      Phase ⟨some .termReqSent1, []⟩ ⟨some .delimiterReceived, maybeHiccup h ++ [.term]⟩
  /-- The other knows and reads on until the delimiter. -/
  | waiting : Phase ⟨some .termReqSent1, []⟩ ⟨some .waitingForDelimiter, []⟩
  | acked : Phase ⟨some .termReqSent1, [.ack]⟩ ⟨some .termAckSent, []⟩
  | ackedBack : Phase ⟨none, []⟩ ⟨some .termAckSent, [.ack]⟩
  /-- Both have asked and neither knows of the other. -/
  | crossed (h h' : Bool) :
      Phase ⟨some .termReqSent1, maybeHiccup h ++ [.term]⟩
        ⟨some .termReqSent1, maybeHiccup h' ++ [.term]⟩
  | crossedAcked (h : Bool) :
      Phase ⟨some .termReqSent2, []⟩ ⟨some .termReqSent1, maybeHiccup h ++ [.term, .ack]⟩
  | crossedBoth : Phase ⟨some .termReqSent2, [.ack]⟩ ⟨some .termReqSent2, [.ack]⟩
  | crossedLast : Phase ⟨none, []⟩ ⟨some .termReqSent2, [.ack]⟩
  | done : Phase ⟨none, []⟩ ⟨none, []⟩

/-- The views are in a phase, one way round or the other. -/
def Linked (v w : TermView) : Prop := Phase v w ∨ Phase w v

theorem Linked.symm {v w : TermView} (h : Linked v w) : Linked w v := Or.symm h

/-- Sending the protocol commands `cs` to an end. -/
def TermView.receive (v : TermView) (cs : List TermCommand) : TermView :=
  { v with inbox := v.inbox ++ cs }

section Transitions

variable {inbox : List TermCommand} {w : TermView}
variable {v : TermView}

/-- An active end asks its peer, possibly with a hiccup. -/
theorem Linked.ask (h : Bool) (hl : Linked ⟨some .active, inbox⟩ w) :
    Linked ⟨some .termReqSent1, inbox⟩ (w.receive (maybeHiccup h ++ [.term])) := by
  rcases hl with hl | hl <;> cases hl
  · exact .inl (.asked h)
  · exact .inl (.asked h)
  · exact .inr (.crossed h _)

/-- An end that has read the delimiter asks its peer. -/
theorem Linked.askDelimited (hl : Linked ⟨some .delimiterReceived, inbox⟩ w) :
    Linked ⟨some .termReqSent1, inbox⟩ (w.receive [.term]) := by
  rcases hl with hl | hl <;> cases hl
  exact .inr (.crossed false _)

/-- An active end reads the delimiter: its peer has asked. -/
theorem Linked.readDelimiter (hl : Linked ⟨some .active, inbox⟩ w)
    (hw : w.status ≠ some .active) : Linked ⟨some .delimiterReceived, inbox⟩ w := by
  rcases hl with hl | hl <;> cases hl
  · exact absurd rfl hw
  · exact absurd rfl hw
  · exact .inr (.delimited _)

theorem Linked.ackWaiting (hl : Linked ⟨some .waitingForDelimiter, inbox⟩ w) :
    Linked ⟨some .termAckSent, inbox⟩ (w.receive [.ack]) := by
  rcases hl with hl | hl <;> cases hl
  exact .inr .acked

/-- The peer of an end that has not acknowledged is alive. -/
theorem Linked.peer_alive (hl : Linked v w) (h0 : v.status ≠ none)
    (h1 : v.status ≠ some .termAckSent) (h2 : v.status ≠ some .termReqSent2) :
    w.status ≠ none := by
  rcases hl with hl | hl <;> cases hl <;> simp_all

theorem Linked.ack_sent (hl : Linked v w) (h : .ack ∈ w.inbox) :
    v.status = none ∨ v.status = some .termAckSent ∨ v.status = some .termReqSent2 := by
  rcases hl with hl | hl <;> cases hl <;> simp_all [maybeHiccup]

/-- An end that waits for the delimiter has answered everything, and its peer waits. -/
theorem Linked.waiting_peer (hl : Linked ⟨some .waitingForDelimiter, inbox⟩ w) :
    inbox = [] ∧ w.status = some .termReqSent1 := by
  rcases hl with hl | hl <;> cases hl
  exact ⟨rfl, rfl⟩

/-- An end that sent a hiccup does not read any more. -/
theorem Linked.hiccup_sender (hl : Linked v w) (h : .hiccup ∈ v.inbox) :
    w.status = some .termReqSent1 ∨ w.status = some .termReqSent2 := by
  rcases hl with hl | hl <;> cases hl <;> simp_all [maybeHiccup]

/-- When no command of the protocol is on its way, both ends are active, both are
deleted, or one waits for the delimiter of the other. -/
theorem Linked.quiet (hl : Linked v w) (hv : v.inbox = []) (hw : w.inbox = []) :
    (v.status = some .active ∧ w.status = some .active) ∨ (v.status = none ∧ w.status = none) ∨
      v.status = some .waitingForDelimiter ∨ w.status = some .waitingForDelimiter := by
  rcases hl with hl | hl <;> cases hl <;> simp_all

/-- The peer of an active end has not received anything from it. -/
theorem Linked.active_peer (hl : Linked ⟨some .active, inbox⟩ w) :
    w.inbox = [] ∧ (w.status = some .active ∨ w.status = some .termReqSent1) := by
  rcases hl with hl | hl <;> cases hl <;> simp

/-- A hiccup is processed: the end has not answered a request yet. -/
theorem Linked.handleHiccup (hl : Linked v w) (hv : v.inbox = .hiccup :: inbox) :
    Linked ⟨v.status, inbox⟩ w ∧ .hiccup ∉ inbox ∧
      (v.status = some .active ∨ v.status = some .delimiterReceived ∨
        v.status = some .termReqSent1) := by
  rcases hl with hl | hl <;> cases hl <;>
    simp only [maybeHiccup_append_eq_hiccup, reduceCtorEq] at hv
  case inl.crossed h h' =>
    obtain ⟨rfl, rfl⟩ := hv
    exact ⟨.inl (.crossed false h'), by simp, by simp⟩
  case inr.asked h =>
    obtain ⟨rfl, rfl⟩ := hv
    exact ⟨.inr (.asked false), by simp, by simp⟩
  case inr.delimited h =>
    obtain ⟨rfl, rfl⟩ := hv
    exact ⟨.inr (.delimited false), by simp, by simp⟩
  case inr.crossed h h' =>
    obtain ⟨rfl, rfl⟩ := hv
    exact ⟨.inr (.crossed h false), by simp, by simp⟩
  case inr.crossedAcked h =>
    obtain ⟨rfl, rfl⟩ := hv
    exact ⟨.inr (.crossedAcked false), by simp, by simp⟩
  all_goals simp at hv

/-- A request is processed: by an active end, by one that has read the delimiter, or by
one that has asked itself. -/
theorem Linked.handleTerm (hl : Linked v w) (hv : v.inbox = .term :: inbox) :
    .hiccup ∉ inbox ∧ ((v.status = some .active ∧ Linked ⟨some .waitingForDelimiter, inbox⟩ w ∧
          Linked ⟨some .termAckSent, inbox⟩ (w.receive [.ack])) ∨
        (v.status = some .delimiterReceived ∧
          Linked ⟨some .termAckSent, inbox⟩ (w.receive [.ack])) ∨
        (v.status = some .termReqSent1 ∧
          Linked ⟨some .termReqSent2, inbox⟩ (w.receive [.ack]))) := by
  rcases hl with hl | hl <;> cases hl <;>
    simp only [maybeHiccup_append_eq_term, reduceCtorEq] at hv
  case inl.crossed h h' =>
    obtain ⟨rfl, rfl⟩ := hv
    refine ⟨by simp, .inr (.inr ⟨rfl, .inl ?_⟩)⟩
    simpa [TermView.receive] using Phase.crossedAcked h'
  case inr.asked h =>
    obtain ⟨rfl, rfl⟩ := hv
    exact ⟨by simp, .inl ⟨rfl, .inr .waiting, .inr .acked⟩⟩
  case inr.delimited h =>
    obtain ⟨rfl, rfl⟩ := hv
    exact ⟨by simp, .inr (.inl ⟨rfl, .inr .acked⟩)⟩
  case inr.crossed h h' =>
    obtain ⟨rfl, rfl⟩ := hv
    refine ⟨by simp, .inr (.inr ⟨rfl, .inl ?_⟩)⟩
    simpa [TermView.receive] using Phase.crossedAcked h
  case inr.crossedAcked h =>
    obtain ⟨rfl, rfl⟩ := hv
    exact ⟨by simp, .inr (.inr ⟨rfl, .inl .crossedBoth⟩)⟩
  all_goals simp at hv

/-- An acknowledgement is processed: nothing follows it, and the end is deleted. One that
has not acknowledged itself does so first. -/
theorem Linked.handleAck (hl : Linked v w) (hv : v.inbox = .ack :: inbox) :
    inbox = [] ∧ ((v.status = some .termReqSent1 ∧ Linked ⟨none, []⟩ (w.receive [.ack])) ∨
        ((v.status = some .termAckSent ∨ v.status = some .termReqSent2) ∧
          Linked ⟨none, []⟩ w)) := by
  rcases hl with hl | hl <;> cases hl <;>
    simp only [maybeHiccup_append_ne_ack, reduceCtorEq, List.cons.injEq, true_and] at hv <;>
    subst hv
  case inl.acked => exact ⟨rfl, .inl ⟨rfl, .inl .ackedBack⟩⟩
  case inr.ackedBack => exact ⟨rfl, .inr ⟨.inl rfl, .inl .done⟩⟩
  case inr.crossedLast => exact ⟨rfl, .inr ⟨.inr rfl, .inl .done⟩⟩
  all_goals exact ⟨rfl, .inr ⟨.inr rfl, .inl .crossedLast⟩⟩

end Transitions

end ServerLink

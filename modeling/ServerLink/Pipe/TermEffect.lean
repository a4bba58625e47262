import ServerLink.Pipe.TermInv

/-!
# ServerLink.Pipe.TermEffect

Everything that can happen to a pipe end, as far as termination goes. `Effect` lists what
a call of the owner does to the end and to the queues and which commands it sends to the
peer; `Handled` does the same for the processing of a command. That the methods of
`pipe_t` do nothing else is shown in `ServerLink.Pipe.Termination`.

`PartiesInv` adds the delimiters to `TermInv`: an end that waits for one, or will have to,
has one to read; two active ends have none. Every effect keeps it.
-/

namespace ServerLink

open Endpoint Party Arena List FlushQueue

def NoDelimiter (ms : List Msg) : Prop := ∀ m ∈ ms, m.isDelimiter = false

def HasDelimiter (ms : List Msg) : Prop := ∃ m ∈ ms, m.isDelimiter = true

/-- What a call of the owner does to a pipe that is not deleted. -/
inductive Effect (e : Endpoint) (h : Arena Queue) :
    Endpoint → Arena Queue → List Command → Prop
  | nothing : Effect e h e h []
  /-- The outbound queue changes. An active end does not write delimiters. -/
  | wrote {q : QueueId} {queue queue' : Queue} {woken : Bool} (hq : e.outPipe = some q)
      (hc : h.cell q = some queue) (hw : queue.Written queue' woken) (hok : QueueOk queue')
      (hd : e.state = .active → NoDelimiter queue.items → NoDelimiter queue'.items) :
      Effect e h e (h.set q queue') (wakeUp woken)
  /-- The reader finds nothing, after credentials at most. -/
  | emptied {queue : Queue} (hr : e.Reading) (hc : h.cell e.inPipe = some queue)
      (hn : NoDelimiter queue.flushed) :
      Effect e h { e with inActive := false }
        (h.set e.inPipe { queue with flushed := [], asleep := true }) []
  /-- Messages are read, or found to be there. -/
  | readSome {queue : Queue} {popped rest : List Msg} {sent : List Command} (hr : e.Reading)
      (ha : e.inActive = true) (hc : h.cell e.inPipe = some queue)
      (hf : queue.flushed = popped ++ rest) (hn : NoDelimiter popped)
      (hs : ∀ c ∈ sent, ∃ n, c = .activateWrite n) :
      Effect e h e (h.set e.inPipe { queue with flushed := rest }) sent
  /-- The delimiter is read before the request of the peer arrives. -/
  | readDelimiter {queue : Queue} {popped rest : List Msg} {m : Msg} (hs : e.state = .active)
      (ha : e.inActive = true) (hc : h.cell e.inPipe = some queue)
      (hf : queue.flushed = popped ++ m :: rest) (hm : m.isDelimiter = true) :
      Effect e h { e with state := .delimiterReceived }
        (h.set e.inPipe { queue with flushed := rest }) []
  /-- A waiting end acknowledges: it has read the delimiter, or does not wait for it any
  more. -/
  | ack {q : QueueId} {queue inQueue : Queue} (hs : e.state = .waitingForDelimiter)
      (hq : e.outPipe = some q) (hc : h.cell q = some queue) (hok : QueueOk inQueue) :
      Effect e h { e with state := .termAckSent, outPipe := none }
        ((h.set e.inPipe inQueue).set q queue.unwriteAll.2) [.pipeTermAck]
  /-- The peer is asked to terminate, and the delimiter is sent. -/
  | ask {q : QueueId} {queue queue' : Queue} {woken : Bool}
      (hs : e.state = .active ∨ e.state = .delimiterReceived) (hq : e.outPipe = some q)
      (hc : h.cell q = some queue) (hw : queue.Written queue' woken) (hok : QueueOk queue')
      (hd : HasDelimiter queue'.flushed) :
      Effect e h { e with state := .termReqSent1 } (h.set q queue') (.pipeTerm :: wakeUp woken)
  /-- The same after a hiccup. -/
  | hiccupAsk {q : QueueId} {queue queue' : Queue} {woken : Bool} (hs : e.state = .active)
      (hq : e.outPipe = some q) (hc : h.cell q = some queue)
      (hw : queue.Written queue' woken) (hok : QueueOk queue')
      (hd : HasDelimiter queue'.flushed) :
      Effect e h { e with state := .termReqSent1, inPipe := h.next, inActive := true }
        ((h.alloc {}).set q queue') (.hiccup h.next :: .pipeTerm :: wakeUp woken)

/-- What the processing of a command does to a pipe that is not deleted. -/
inductive Handled (e : Endpoint) (h : Arena Queue) :
    Command → Endpoint → Arena Queue → List Command → Prop
  | activateRead {act : Bool} (ha : e.Reading → act = true) :
      Handled e h .activateRead { e with inActive := act } h []
  | activateWrite (n : Int) : Handled e h (.activateWrite n) e h []
  | hiccup {q : QueueId} (new : QueueId) (hq : e.outPipe = some q) :
      Handled e h (.hiccup new) { e with outPipe := some new } (h.free q) []
  | wait (hs : e.state = .active) :
      Handled e h .pipeTerm { e with state := .waitingForDelimiter } h []
  | ack (hs : e.state = .active ∨ e.state = .delimiterReceived) :
      Handled e h .pipeTerm { e with state := .termAckSent, outPipe := none } h [.pipeTermAck]
  | ackAsked (hs : e.state = .termReqSent1) :
      Handled e h .pipeTerm { e with state := .termReqSent2, outPipe := none } h [.pipeTermAck]
  | deleteAsked (hs : e.state = .termReqSent1) :
      Handled e h .pipeTermAck
        { e with outPipe := none, notified := e.notified + 1, deleted := true }
        (h.free e.inPipe) [.pipeTermAck]
  | delete (hs : e.state = .termAckSent ∨ e.state = .termReqSent2) :
      Handled e h .pipeTermAck
        { e with outPipe := none, notified := e.notified + 1, deleted := true }
        (h.free e.inPipe) []

/-- The end waits for the delimiter, or is about to be asked to. -/
def Party.Awaits (a : Party) : Prop :=
  a.status = some .waitingForDelimiter ∨
    (a.status = some .active ∧ .term ∈ termCommands a.inbox)

/-- An end that awaits a delimiter has one to read. -/
def Delimited (a : Party) (h : Arena Queue) : Prop :=
  a.Awaits → ∃ queue, h.cell a.inPipe = some queue ∧ HasDelimiter queue.flushed

def Undelimited (a : Party) (h : Arena Queue) : Prop :=
  ∀ queue, h.cell a.inPipe = some queue → NoDelimiter queue.items

/-- The invariant of two ends. -/
structure PartiesInv (a b : Party) (h : Arena Queue) : Prop extends TermInv a b h where
  delimitedLeft : Delimited a h
  delimitedRight : Delimited b h
  undelimited : a.status = some .active → b.status = some .active →
    Undelimited a h ∧ Undelimited b h

theorem PartiesInv.symm {a b : Party} {h : Arena Queue} (hi : PartiesInv a b h) :
    PartiesInv b a h where
  toTermInv := hi.toTermInv.symm
  delimitedLeft := hi.delimitedRight
  delimitedRight := hi.delimitedLeft
  undelimited ha hb := (hi.undelimited hb ha).symm

/-- The end after a call. -/
def Party.become (a : Party) (e : Endpoint) : Party := { a with toEndpoint := e }

section Preserved

variable {a b : Party} {h h' : Arena Queue} {e' : Endpoint} {sent : List Command}
variable {cs rest : List Command} {queue : Queue}

/-! ### Effects keep the invariant -/

@[simp] theorem Party.receive_nil (b : Party) : b.receive [] = b := by
  simp [receive]

@[simp] theorem Party.receive_receive (b : Party) (cs ds : List Command) :
    (b.receive cs).receive ds = b.receive (cs ++ ds) := by
  simp [receive]

/-- Reports of messages read are not part of the protocol. -/
structure OnlyReports (cs : List Command) : Prop where
  terms : termCommands cs = []
  hiccups : hiccups cs = []
  acks : .pipeTermAck ∉ cs

theorem onlyReports (hcs : ∀ c ∈ cs, ∃ n, c = .activateWrite n) : OnlyReports cs := by
  induction cs with
  | nil => exact ⟨rfl, rfl, by simp⟩
  | cons c cs ih =>
    obtain ⟨n, rfl⟩ := hcs c (by simp)
    have h := ih fun c hc => hcs c (mem_cons_of_mem _ hc)
    exact ⟨h.terms, h.hiccups, by simp [h.acks]⟩

theorem TermInv.moveTo (hi : TermInv a b h) (ha : a.deleted = false) {st : PipeState}
    (hl : Linked ⟨some st, termCommands a.inbox⟩ (b.view.receive (termCommands cs)))
    (hout : a.outPipe ≠ none) (hst : st ≠ .termAckSent ∧ st ≠ .termReqSent2)
    (hcs : ServerLink.hiccups cs = []) (hack : .pipeTermAck ∉ cs)
    (hr : st = .active ∨ st = .waitingForDelimiter → a.Reading) :
    TermInv { a with state := st } (b.receive cs) h :=
  hi.move ha hl (by simp [hout, hst]) (.inl rfl) (suffix_refl _) rfl hcs
    (hi.canReceive (fun _ => hout) fun hmem => hack ((dropLast_sublist cs).mem hmem))
    fun hst hact => ⟨hr hst, hact, id⟩

/-- An end acknowledges and gives up its outbound queue. -/
theorem TermInv.ackTo (hi : TermInv a b h) (ha : a.deleted = false) {st : PipeState}
    (hst : st = .termAckSent ∨ st = .termReqSent2)
    (hl : Linked ⟨some st, termCommands rest⟩ (b.view.receive [.ack]))
    (hout : a.outPipe ≠ none) (hsuffix : rest <:+ a.inbox)
    (hno : ServerLink.hiccups a.inbox = []) (hrest : ServerLink.hiccups rest = []) :
    TermInv { a with state := st, outPipe := none, inbox := rest }
      (b.receive [.pipeTermAck]) h := by
  refine hi.move ha hl (by simp [hst]) (.inr ⟨rfl, hno⟩) hsuffix (hrest.trans hno.symm) rfl
    (hi.canReceive (fun _ => hout) (by simp)) fun hst' => ?_
  rcases hst with rfl | rfl <;> simp at hst'

theorem Endpoint.Reading.cases {e : Endpoint} (h : e.Reading) :
    e.state = .active ∨ e.state = .waitingForDelimiter :=
  h.imp (fun h => (status_eq_some.mp h).2) fun h => (status_eq_some.mp h).2

theorem TermInv.out_ne_none (hi : TermInv a b h) (ha : a.deleted = false)
    (hs : a.state ≠ .termAckSent ∧ a.state ≠ .termReqSent2) : a.outPipe ≠ none := fun hn => by
  simpa [status, ha, hs] using hi.left.out_none.mp hn

theorem TermInv.linked_of_state (hi : TermInv a b h) (ha : a.deleted = false) {st : PipeState}
    (hs : a.state = st) : Linked ⟨some st, termCommands a.inbox⟩ b.view := by
  have hv : a.view = ⟨some st, termCommands a.inbox⟩ := by simp [view, status, ha, hs]
  exact hv ▸ hi.linked

theorem QueueOk.of_subset {queue' : Queue} (hok : QueueOk queue)
    (hi : ∀ m ∈ queue'.items, m ∈ queue.items)
    (hp : ∀ m ∈ queue'.incomplete, m ∈ queue.incomplete) : QueueOk queue' where
  valid m hm := hok.valid m (hi m hm)
  plain m hm := hok.plain m (hi m hm)
  parts m hm := hok.parts m (hp m hm)

theorem items_pop {popped rest : List Msg} (hf : queue.flushed = popped ++ rest) (asleep : Bool)
    {m : Msg}
    (hm : m ∈ ({ queue with flushed := rest, asleep } : Queue).items) : m ∈ queue.items := by
  simp only [items, hf, append_assoc] at hm ⊢
  exact mem_append_right _ hm

theorem items_unwriteAll {m : Msg} (hm : m ∈ queue.unwriteAll.2.items) : m ∈ queue.items := by
  simp only [items, unwriteAll, append_nil] at hm ⊢
  exact mem_append_left _ hm

theorem QueueOk.pop {popped rest : List Msg} (hok : QueueOk queue)
    (hf : queue.flushed = popped ++ rest) (asleep : Bool) :
    QueueOk { queue with flushed := rest, asleep } :=
  hok.of_subset (fun _ hm => items_pop hf asleep hm) fun _ hm => hm

theorem QueueOk.unwriteAll (hok : QueueOk queue) : QueueOk queue.unwriteAll.2 :=
  hok.of_subset (fun _ hm => items_unwriteAll hm) (by simp [FlushQueue.unwriteAll])

theorem QueueOk.flush (hok : QueueOk queue) : QueueOk queue.flush.2 :=
  hok.of_subset (by simp) (by simp)

theorem QueueOk.write {m : Msg} (hok : QueueOk queue) (hm : m.check = true)
    (hd : m.isDelimiter = true → m.isCredential = false) :
    QueueOk (queue.write m m.more) where
  valid m' hm' := by
    rw [FlushQueue.items_write, mem_append, mem_singleton] at hm'
    rcases hm' with hm' | rfl
    · exact hok.valid m' hm'
    · exact hm
  plain m' hm' := by
    rw [FlushQueue.items_write, mem_append, mem_singleton] at hm'
    rcases hm' with hm' | rfl
    · exact hok.plain m' hm'
    · exact hd
  parts m' hm' := by
    cases hmore : m.more with
    | false => simp [FlushQueue.write, hmore] at hm'
    | true =>
      simp only [FlushQueue.write, hmore, if_true, mem_append, mem_singleton] at hm'
      rcases hm' with hm' | rfl
      · exact hok.parts m' hm'
      · exact hmore

/-- An end that goes on reading has taken something from its inbound queue. -/
theorem TermInv.readIn (hi : TermInv a b h) (ha : a.deleted = false) {queue' : Queue}
    (hok : QueueOk queue') (hact : a.Reading → a.inActive = true) :
    TermInv a b (h.set a.inPipe queue') := by
  have hset : TermInv { a with inActive := a.inActive } b (h.set a.inPipe queue') :=
    hi.setIn ha hok fun hr hf => by simp [hact hr] at hf
  exact hset

/-- An active end that has a delimiter to read was asked by its peer. -/
theorem PartiesInv.peer_asked (hi : PartiesInv a b h) (ha : a.status = some .active)
    (hc : h.cell a.inPipe = some queue) (hd : HasDelimiter queue.flushed) :
    b.status ≠ some .active := fun hb => by
  obtain ⟨m, hm, hdel⟩ := hd
  have hno := (hi.undelimited ha hb).1 queue hc m (by simp [items, hm])
  simp [hno] at hdel

/-- Every effect keeps the invariant of the protocol. -/
theorem PartiesInv.effect_termInv (hi : PartiesInv a b h) (ha : a.deleted = false)
    (he : Effect a.toEndpoint h e' h' sent) :
    TermInv (a.become e') (b.receive sent) h' := by
  cases he with
  | nothing =>
    rw [receive_nil]
    exact hi.toTermInv
  | wrote hq hc hw hok hd => exact hi.writeOut ha hq hc hw hok
  | @emptied queue hr hc hn =>
    rw [receive_nil]
    exact hi.setIn ha ((hi.queues _ _ hc).pop (append_nil _).symm true) fun _ _ => ⟨rfl, rfl⟩
  | @readSome queue popped rest sent hr hact hc hf hn hs =>
    have hset := hi.readIn ha ((hi.queues _ _ hc).pop hf queue.asleep) fun _ => hact
    have hon := onlyReports hs
    have hst : a.state ≠ .termAckSent ∧ a.state ≠ .termReqSent2 := by
      rcases hr.cases with hst | hst <;> simp [hst]
    refine hset.moveTo ha ?_ (hi.out_ne_none ha hst) hst hon.hiccups hon.acks fun _ => hr
    have hl := hset.linked_of_state ha rfl
    rw [hon.terms]
    simpa [TermView.receive] using hl
  | @readDelimiter queue popped rest m hs hact hc hf hm =>
    have hok : QueueOk { queue with flushed := rest } :=
      (hi.queues _ _ hc).pop (by rw [hf, ← append_cons]) queue.asleep
    have hset := hi.readIn ha hok fun _ => hact
    have hasked : b.view.status ≠ some .active :=
      hi.peer_asked (by simp [status, ha, hs]) hc ⟨m, by simp [hf], hm⟩
    refine hset.moveTo ha ?_ (hi.out_ne_none ha (by simp [hs])) (by simp) rfl (by simp) (by simp)
    simpa [TermView.receive, termCommands] using (hset.linked_of_state ha hs).readDelimiter hasked
  | @ack q queue inQueue hs hq hc hok =>
    obtain ⟨hlive, hne⟩ := hi.out_live ha hq
    have hwrote := hi.writeOut ha hq hc (written_unwriteAll queue)
      (hi.queues _ _ hc).unwriteAll
    rw [wakeUp, if_neg (by simp), receive_nil] at hwrote
    have hl := hwrote.linked_of_state ha hs
    have hno : hiccups a.inbox = [] := hiccups_eq_nil (by simp [hl.waiting_peer.1])
    have hmove := hwrote.ackTo ha (.inl rfl) hl.ackWaiting (by simp [hq]) (suffix_refl _) hno hno
    rw [set_comm h hne.symm]
    exact hmove.readIn ha hok fun hr => by
      simp [Endpoint.Reading, status, ha] at hr
  | @ask q queue queue' woken hs hq hc hw hok hd =>
    have hmove : TermInv { a with state := .termReqSent1 } (b.receive [.pipeTerm]) h := by
      refine hi.moveTo ha ?_ (by simp [hq]) (by simp) rfl (by simp) (by simp)
      rcases hs with hs | hs
      · exact (hi.linked_of_state ha hs).ask false
      · exact (hi.linked_of_state ha hs).askDelimited
    have hwrote := hmove.writeOut ha hq hc hw hok
    rwa [receive_receive] at hwrote
  | @hiccupAsk q queue queue' woken hs hq hc hw hok hd =>
    have hact : a.status = some .active := by simp [status, ha, hs]
    have hfresh : q ≠ h.next :=
      Nat.ne_of_lt (hi.owned.bound q (live_iff.mpr ⟨queue, hc⟩))
    have hwrote := (hi.hiccup hact).writeOut ha hq (by rwa [cell_alloc_of_ne h {} hfresh]) hw hok
    rwa [receive_receive] at hwrote

/-- A command that is not part of the protocol is processed. -/
theorem TermInv.handleOther (hi : TermInv a b h) (ha : a.deleted = false) {cmd : Command}
    {act : Bool} (hinbox : a.inbox = cmd :: rest)
    (hterm : termCommands (cmd :: rest) = termCommands rest)
    (hhic : ServerLink.hiccups (cmd :: rest) = ServerLink.hiccups rest)
    (hwake : a.Reading → act = false →
      a.inActive = false ∧ (.activateRead ∈ a.inbox → .activateRead ∈ rest)) :
    TermInv { a with inActive := act, inbox := rest } b h := by
  have hl : Linked ⟨some a.state, termCommands rest⟩ (b.view.receive []) := by
    have hl := hi.linked_of_state ha rfl
    rw [hinbox, hterm] at hl
    simpa [TermView.receive] using hl
  have hout : a.outPipe = none ↔ a.state = .termAckSent ∨ a.state = .termReqSent2 := by
    simpa [status, ha] using hi.left.out_none
  have hmove : TermInv { a with inActive := act, inbox := rest } (b.receive []) h := by
    refine hi.move ha hl hout (.inl rfl) (hinbox ▸ suffix_cons _ _)
      (by rw [hinbox, hhic]) rfl (fun hne => absurd rfl hne) fun hst hact => ?_
    have hr : a.Reading := by simpa [Endpoint.Reading, status, ha] using hst
    exact ⟨hr, hwake hr hact⟩
  rwa [receive_nil] at hmove

theorem Party.view_term (hinbox : a.inbox = .pipeTerm :: rest) :
    a.view.inbox = .term :: termCommands rest := by
  simp [view, hinbox, termCommands]

theorem Party.view_ack (hinbox : a.inbox = .pipeTermAck :: rest) :
    a.view.inbox = .ack :: termCommands rest := by
  simp [view, hinbox, termCommands]

/-- The processing of every command keeps the invariant of the protocol. -/
theorem TermInv.handled {cmd : Command} (hi : TermInv a b h)
    (ha : a.deleted = false) (hinbox : a.inbox = cmd :: rest)
    (hh : Handled a.toEndpoint h cmd e' h' sent) :
    TermInv { toEndpoint := e', inbox := rest } (b.receive sent) h' := by
  have hsuffix : rest <:+ a.inbox := hinbox ▸ suffix_cons _ _
  cases hh with
  | activateRead hact =>
    rw [receive_nil]
    exact hi.handleOther ha hinbox rfl rfl fun hr hf => absurd (hact hr) (by simp [hf])
  | activateWrite n =>
    rw [receive_nil]
    have hmove : TermInv { a with inActive := a.inActive, inbox := rest } b h :=
      hi.handleOther ha hinbox rfl rfl fun _ hf => ⟨hf, by simp [hinbox]⟩
    exact hmove
  | hiccup new hq =>
    rw [receive_nil]
    exact hi.handleHiccup hinbox hq
  | wait hs =>
    obtain ⟨hno, hcase⟩ := hi.linked.handleTerm (view_term hinbox)
    have hl : Linked ⟨some .waitingForDelimiter, termCommands rest⟩ b.view := by
      rcases hcase with ⟨-, hw, -⟩ | ⟨hst, -⟩ | ⟨hst, -⟩
      · exact hw
      · simp [view, status, ha, hs] at hst
      · simp [view, status, ha, hs] at hst
    have hr : a.Reading := .inl (by simp [status, ha, hs])
    refine hi.move ha (by simpa [TermView.receive, termCommands] using hl) ?_ (.inl rfl)
      hsuffix (by rw [hinbox]; rfl) rfl (fun hne => absurd rfl hne)
      fun _ hact => ⟨hr, hact, by simp [hinbox]⟩
    simp [hi.out_ne_none ha (by simp [hs])]
  | ack hs =>
    obtain ⟨hno, hcase⟩ := hi.linked.handleTerm (view_term hinbox)
    have hl : Linked ⟨some .termAckSent, termCommands rest⟩ (b.view.receive [.ack]) := by
      rcases hcase with ⟨-, -, hk⟩ | ⟨-, hk⟩ | ⟨hst, -⟩
      · exact hk
      · exact hk
      · rcases hs with hs | hs <;> simp [view, status, ha, hs] at hst
    have hrest := hiccups_eq_nil hno
    exact hi.ackTo ha (.inl rfl) hl
      (hi.out_ne_none ha (by rcases hs with hs | hs <;> simp [hs])) hsuffix
      (by rw [hinbox]; exact hrest) hrest
  | ackAsked hs =>
    obtain ⟨hno, hcase⟩ := hi.linked.handleTerm (view_term hinbox)
    have hl : Linked ⟨some .termReqSent2, termCommands rest⟩ (b.view.receive [.ack]) := by
      rcases hcase with ⟨hst, -, -⟩ | ⟨hst, -⟩ | ⟨-, hk⟩
      · simp [view, status, ha, hs] at hst
      · simp [view, status, ha, hs] at hst
      · exact hk
    have hrest := hiccups_eq_nil hno
    exact hi.ackTo ha (.inr rfl) hl (hi.out_ne_none ha (by simp [hs])) hsuffix
      (by rw [hinbox]; exact hrest) hrest
  | deleteAsked hs =>
    obtain ⟨-, hcase⟩ := hi.linked.handleAck (view_ack hinbox)
    have hl : Linked ⟨none, []⟩ (b.view.receive [.ack]) := by
      rcases hcase with ⟨-, hl⟩ | ⟨hst, -⟩
      · exact hl
      · simp [view, status, ha, hs] at hst
    exact hi.delete ha hinbox hl rfl
      (hi.canReceive (fun _ => hi.out_ne_none ha (by simp [hs])) (by simp))
  | delete hs =>
    obtain ⟨-, hcase⟩ := hi.linked.handleAck (view_ack hinbox)
    have hl : Linked ⟨none, []⟩ (b.view.receive []) := by
      rcases hcase with ⟨hst, -⟩ | ⟨-, hl⟩
      · rcases hs with hs | hs <;> simp [view, status, ha, hs] at hst
      · simpa [TermView.receive] using hl
    exact hi.delete ha hinbox hl rfl fun hne => absurd rfl hne

/-! ### The delimiters -/

theorem Party.Awaits.reading (h : a.Awaits) : a.Reading :=
  h.elim .inr fun h => .inl h.1

theorem Party.Awaits.of_receive (hcs : .term ∉ termCommands cs)
    (h : (b.receive cs).Awaits) : b.Awaits := by
  refine Or.imp_right (fun ⟨hst, hmem⟩ => ⟨hst, ?_⟩) h
  rw [receive_inbox, termCommands_append, mem_append] at hmem
  exact hmem.resolve_right hcs

theorem HasDelimiter.of_prefix {xs ys : List Msg} (hd : HasDelimiter xs) (h : xs <+: ys) :
    HasDelimiter ys := by
  obtain ⟨m, hm, hdel⟩ := hd
  exact ⟨m, h.subset hm, hdel⟩

theorem NoDelimiter.not_hasDelimiter {xs : List Msg} (hn : NoDelimiter xs) :
    ¬ HasDelimiter xs := fun ⟨m, hm, hd⟩ => by
  simp [hn m hm] at hd

/-- A delimiter stays in the queue of the peer while the commands it is sent do not ask
for one and its queue only grows. -/
theorem Delimited.receive (hd : Delimited b h) (hcs : .term ∉ termCommands cs)
    (hcell : b.Reading → ∀ queue, h.cell b.inPipe = some queue →
      ∃ queue', h'.cell b.inPipe = some queue' ∧ queue.flushed <+: queue'.flushed) :
    Delimited (b.receive cs) h' := by
  intro haw
  have hawb := haw.of_receive hcs
  obtain ⟨queue, hc, hdel⟩ := hd hawb
  obtain ⟨queue', hc', hpre⟩ := hcell hawb.reading queue hc
  exact ⟨queue', hc', hdel.of_prefix hpre⟩

/-- The peer's queue is not the one the end reads from. -/
theorem Delimited.receive_setIn (hi : PartiesInv a b h) (ha : a.deleted = false)
    (hcs : .term ∉ termCommands cs) (queue' : Queue) :
    Delimited (b.receive cs) (h.set a.inPipe queue') :=
  hi.delimitedRight.receive hcs fun hr queue hc =>
    ⟨queue, by rwa [cell_set_of_ne h queue' (hi.in_ne ha hr.alive)], prefix_refl _⟩

/-- An end writes to the queue its peer reads from, as long as the peer reads. -/
theorem TermInv.out_eq_of_reading (hi : TermInv a b h) {q : QueueId}
    (hq : a.outPipe = some q) (hr : b.Reading) : q = b.inPipe := by
  refine hi.left.out_peer (hiccups_eq_nil fun hmem => ?_) q hq
  have hst : b.status = some .termReqSent1 ∨ b.status = some .termReqSent2 :=
    hi.linked.hiccup_sender hmem
  rcases hr with hr | hr <;> simp [hr] at hst

theorem TermInv.linked_of_active (hi : TermInv a b h) (ha : a.status = some .active) :
    Linked ⟨some .active, termCommands a.inbox⟩ b.view :=
  hi.linked_of_state (status_eq_some.mp ha).1 (status_eq_some.mp ha).2

/-- Two active ends write to each other's queues. -/
theorem TermInv.out_of_active (hi : TermInv a b h) (ha : a.status = some .active)
    (hb : b.status = some .active) : a.outPipe = some b.inPipe := by
  obtain ⟨hdel, hst⟩ := status_eq_some.mp ha
  obtain ⟨q, hq⟩ := Option.ne_none_iff_exists'.mp (hi.out_ne_none hdel (by simp [hst]))
  rw [hq, hi.out_eq_of_reading hq (.inl hb)]

theorem Undelimited.of_cell (hu : Undelimited a h) (hc : h'.cell a.inPipe = h.cell a.inPipe) :
    Undelimited a h' := fun queue hq => hu queue (hc ▸ hq)

theorem Undelimited.pop (hu : Undelimited a h) {popped rest : List Msg}
    (hc : h.cell a.inPipe = some queue) (hf : queue.flushed = popped ++ rest) (asleep : Bool) :
    Undelimited a (h.set a.inPipe { queue with flushed := rest, asleep }) := by
  intro queue' hc'
  rw [cell_set] at hc'
  cases hc'
  exact fun m hm => hu queue hc m (items_pop hf asleep hm)

theorem PartiesInv.effect_delimitedLeft (hi : PartiesInv a b h) (ha : a.deleted = false)
    (he : Effect a.toEndpoint h e' h' sent) : Delimited (a.become e') h' := by
  intro haw
  cases he with
  | nothing => exact hi.delimitedLeft haw
  | wrote hq hc hw hok hd =>
    show ∃ queue, (h.set _ _).cell a.inPipe = some queue ∧ _
    rw [cell_set_of_ne h _ (hi.out_live ha hq).2.symm]
    exact hi.delimitedLeft haw
  | emptied hr hc hn =>
    obtain ⟨queue, hc', hdel⟩ := hi.delimitedLeft haw
    rw [hc] at hc'
    exact absurd (Option.some.inj hc' ▸ hdel) hn.not_hasDelimiter
  | @readSome queue popped rest sent hr hact hc hf hn hs =>
    obtain ⟨queue', hc', hdel⟩ := hi.delimitedLeft haw
    cases hc.symm.trans hc'
    obtain ⟨m, hm, hmd⟩ := hdel
    refine ⟨_, cell_set h _ _, m, ?_, hmd⟩
    rw [hf, mem_append] at hm
    exact hm.resolve_left fun hm => by simp [hn m hm] at hmd
  | readDelimiter | ack | ask | hiccupAsk => simp [Party.Awaits, become, status, ha] at haw

theorem PartiesInv.effect_delimitedRight (hi : PartiesInv a b h) (ha : a.deleted = false)
    (he : Effect a.toEndpoint h e' h' sent) : Delimited (b.receive sent) h' := by
  cases he with
  | nothing => simpa using hi.delimitedRight
  | @wrote q queue queue' woken hq hc hw hok hd =>
    refine hi.delimitedRight.receive (by simp) fun hr queue1 hc1 => ?_
    by_cases hbq : b.inPipe = q
    · cases (hbq ▸ hc1).symm.trans hc
      exact ⟨queue', hbq ▸ cell_set h _ _, hw.grows⟩
    · exact ⟨queue1, by rwa [cell_set_of_ne h _ hbq], prefix_refl _⟩
  | emptied hr hc hn => exact .receive_setIn hi ha (by simp [termCommands]) _
  | readSome hr hact hc hf hn hs => exact .receive_setIn hi ha (by simp [(onlyReports hs).terms]) _
  | readDelimiter hs hact hc hf hm => exact .receive_setIn hi ha (by simp [termCommands]) _
  | ack hs hq hc hok =>
    intro haw
    have hb : b.status = some .termReqSent1 := (hi.linked_of_state ha hs).waiting_peer.2
    have haw' := haw.of_receive (by simp [termCommands])
    simp [Party.Awaits, hb] at haw'
  | @ask q queue queue' woken hs hq hc hw hok hd =>
    intro haw
    rw [show q = b.inPipe from hi.out_eq_of_reading hq haw.reading]
    exact ⟨queue', cell_set h _ _, hd⟩
  | @hiccupAsk q queue queue' woken hs hq hc hw hok hd =>
    intro haw
    rw [show q = b.inPipe from hi.out_eq_of_reading hq haw.reading]
    exact ⟨queue', cell_set _ _ _, hd⟩

theorem PartiesInv.effect_undelimited (hi : PartiesInv a b h) (ha : a.deleted = false)
    (he : Effect a.toEndpoint h e' h' sent) (hsa : (a.become e').status = some .active)
    (hsb : (b.receive sent).status = some .active) :
    Undelimited (a.become e') h' ∧ Undelimited (b.receive sent) h' := by
  have hb : b.deleted = false := (status_eq_some.mp hsb).1
  cases he with
  | nothing => exact hi.undelimited hsa hsb
  | @wrote q queue queue' woken hq hc hw hok hd =>
    obtain ⟨hua, hub⟩ := hi.undelimited hsa hsb
    refine ⟨hua.of_cell (cell_set_of_ne h _ (hi.out_live ha hq).2.symm), ?_⟩
    obtain rfl : q = b.inPipe := hi.out_eq_of_reading hq (.inl hsb)
    intro queue1 hc1
    obtain rfl : queue' = queue1 := by simpa using hc1
    exact hd (status_eq_some.mp hsa).2 (hub queue hc)
  | @emptied queue hr hc hn =>
    obtain ⟨hua, hub⟩ := hi.undelimited hsa hsb
    exact ⟨hua.pop hc (append_nil _).symm true, hub.of_cell (cell_set_of_ne h _ (hi.in_ne ha hb))⟩
  | @readSome queue popped rest sent hr hact hc hf hn hs =>
    obtain ⟨hua, hub⟩ := hi.undelimited hsa hsb
    exact ⟨hua.pop hc hf queue.asleep, hub.of_cell (cell_set_of_ne h _ (hi.in_ne ha hb))⟩
  | readDelimiter | ack | ask | hiccupAsk => simp [become, status, ha] at hsa

/-- Every effect keeps the invariant. -/
theorem PartiesInv.effect (hi : PartiesInv a b h) (ha : a.deleted = false)
    (he : Effect a.toEndpoint h e' h' sent) :
    PartiesInv (a.become e') (b.receive sent) h' :=
  ⟨hi.effect_termInv ha he, hi.effect_delimitedLeft ha he, hi.effect_delimitedRight ha he,
    hi.effect_undelimited ha he⟩

section Handled

variable {cmd : Command}

/-! ### The state in which a command arrives -/

theorem Party.view_status (ha : a.deleted = false) {st : PipeState} :
    a.view.status = some st ↔ a.state = st := by
  simp [view, status, ha]

theorem TermInv.hiccup_out {new : QueueId} (hi : TermInv a b h) (ha : a.deleted = false)
    (hinbox : a.inbox = .hiccup new :: rest) : a.outPipe ≠ none := by
  have hv : a.view.inbox = .hiccup :: termCommands rest := by simp [view, hinbox, termCommands]
  obtain ⟨-, -, hst⟩ := hi.linked.handleHiccup hv
  simp only [view_status ha] at hst
  exact hi.out_ne_none ha (by rcases hst with hst | hst | hst <;> simp [hst])

theorem TermInv.term_state (hi : TermInv a b h) (ha : a.deleted = false)
    (hinbox : a.inbox = .pipeTerm :: rest) :
    a.state = .active ∨ a.state = .delimiterReceived ∨ a.state = .termReqSent1 := by
  obtain ⟨-, hst⟩ := hi.linked.handleTerm (view_term hinbox)
  simp only [view_status ha] at hst
  rcases hst with ⟨hst, -⟩ | ⟨hst, -⟩ | ⟨hst, -⟩
  · exact .inl hst
  · exact .inr (.inl hst)
  · exact .inr (.inr hst)

theorem TermInv.ack_state (hi : TermInv a b h) (ha : a.deleted = false)
    (hinbox : a.inbox = .pipeTermAck :: rest) :
    a.state = .termReqSent1 ∨
      ((a.state = .termAckSent ∨ a.state = .termReqSent2) ∧ a.outPipe = none) := by
  obtain ⟨-, hst⟩ := hi.linked.handleAck (view_ack hinbox)
  simp only [view_status ha] at hst
  rcases hst with ⟨hst, -⟩ | ⟨hst, -⟩
  · exact .inl hst
  · refine .inr ⟨hst, hi.left.out_none.mpr (.inr ?_)⟩
    simpa [status, ha] using hst

/-- The processing of a command does not touch the queue of an end that reads on. -/
theorem TermInv.handled_cell_left (hi : TermInv a b h)
    (hh : Handled a.toEndpoint h cmd e' h' sent) (hr : e'.Reading) :
    e'.inPipe = a.inPipe ∧ h'.cell a.inPipe = h.cell a.inPipe := by
  have halive := hr.alive
  cases hh with
  | activateRead | activateWrite | wait | ack | ackAsked => exact ⟨rfl, rfl⟩
  | hiccup new hq => exact ⟨rfl, cell_free_of_ne h (hi.out_live halive hq).2.symm⟩
  | deleteAsked | delete => simp at halive

/-- Nor does it touch the queue of a peer that reads. -/
theorem TermInv.handled_cell_right (hi : TermInv a b h) (ha : a.deleted = false)
    (hinbox : a.inbox = cmd :: rest) (hh : Handled a.toEndpoint h cmd e' h' sent)
    (hr : b.Reading) : h'.cell b.inPipe = h.cell b.inPipe := by
  cases hh with
  | activateRead | activateWrite | wait | ack | ackAsked => rfl
  | hiccup new hq =>
    -- a peer that sent a hiccup does not read
    have hst : b.status = some .termReqSent1 ∨ b.status = some .termReqSent2 :=
      hi.linked.hiccup_sender (by simp [view, hinbox, termCommands])
    rcases hr with hr | hr <;> simp [hr] at hst
  | deleteAsked | delete => exact cell_free_of_ne h (hi.in_ne ha hr.alive)

/-- Only a request that was on its way makes an end wait. -/
theorem Party.Awaits.of_handled (ha : a.deleted = false) (hinbox : a.inbox = cmd :: rest)
    (hh : Handled a.toEndpoint h cmd e' h' sent)
    (haw : ({ toEndpoint := e', inbox := rest } : Party).Awaits) : a.Awaits := by
  have hsub : .term ∈ termCommands rest → .term ∈ termCommands a.inbox := by
    rw [hinbox]
    cases cmd <;> simp +contextual [termCommands]
  cases hh with
  | activateRead | activateWrite | hiccup => exact haw.imp_right fun h => ⟨h.1, hsub h.2⟩
  | wait hs => exact .inr ⟨by simp [status, ha, hs], by simp [hinbox, termCommands]⟩
  | ack | ackAsked | deleteAsked | delete => simp [Party.Awaits, status, ha] at haw

theorem Handled.term_notMem (hh : Handled a.toEndpoint h cmd e' h' sent) :
    .term ∉ termCommands sent := by
  cases hh <;> simp [termCommands]

/-- The processing of a command does not make an end active. -/
theorem Handled.active (ha : a.deleted = false) (hh : Handled a.toEndpoint h cmd e' h' sent)
    (hs : e'.status = some .active) : a.status = some .active := by
  cases hh with
  | activateRead | activateWrite | hiccup => exact hs
  | wait | ack | ackAsked | deleteAsked | delete => simp [status, ha] at hs

/-- The processing of every command keeps the invariant. -/
theorem PartiesInv.handled (hi : PartiesInv a b h) (ha : a.deleted = false)
    (hinbox : a.inbox = cmd :: rest) (hh : Handled a.toEndpoint h cmd e' h' sent) :
    PartiesInv { toEndpoint := e', inbox := rest } (b.receive sent) h' := by
  refine ⟨hi.toTermInv.handled ha hinbox hh, fun haw => ?_, ?_, fun hsa hsb => ?_⟩
  · obtain ⟨hin, hcell⟩ := hi.handled_cell_left hh haw.reading
    rw [hin, hcell]
    exact hi.delimitedLeft (haw.of_handled ha hinbox hh)
  · refine hi.delimitedRight.receive hh.term_notMem fun hr queue hc => ⟨queue, ?_, prefix_refl _⟩
    rwa [hi.handled_cell_right ha hinbox hh hr]
  obtain ⟨hua, hub⟩ := hi.undelimited (hh.active ha hsa) hsb
  obtain ⟨hin, hcell⟩ := hi.handled_cell_left hh (.inl hsa)
  refine ⟨fun queue hc => hua queue ?_, hub.of_cell (hi.handled_cell_right ha hinbox hh (.inl hsb))⟩
  rwa [← hcell, ← hin]

end Handled

end Preserved

end ServerLink

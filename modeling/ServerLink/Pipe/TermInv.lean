import ServerLink.Pipe.TermProtocol

/-!
# ServerLink.Pipe.TermInv

The invariant of two pipe ends as the termination protocol sees them. A `Party` is what
the protocol reads of an end: the queues it points to, its state, whether it expects
something to read, whether it was deleted, and the commands on their way to it.

`TermInv` says who owns which queue, that the two ends are in a phase of the protocol
and that a reader that sleeps will be woken. The changes at the end of the file keep it;
every method of a pipe is made of them.
-/

namespace ServerLink

open Arena List

/-- What the termination protocol reads of a pipe. -/
structure Endpoint where
  inPipe : QueueId
  outPipe : Option QueueId
  inActive : Bool
  state : PipeState
  notified : Nat
  deleted : Bool

/-- An end and its inbox. -/
structure Party extends Endpoint where
  inbox : List Command

/-! ### The invariant -/

/-- The state, while there is one. -/
def Endpoint.status (e : Endpoint) : Option PipeState :=
  if e.deleted then none else some e.state

/-- The end still reads. -/
def Endpoint.Reading (e : Endpoint) : Prop :=
  e.status = some .active ∨ e.status = some .waitingForDelimiter

def Party.view (a : Party) : TermView := ⟨a.status, termCommands a.inbox⟩

/-- Commands arrive in a party's inbox. -/
def Party.receive (a : Party) (cs : List Command) : Party := { a with inbox := a.inbox ++ cs }

/-- The queues the end has to delete: the one it reads from, and after a hiccup of the
peer that it has not processed yet, the one it still writes to. -/
def Party.owned (a : Party) : List QueueId :=
  (if a.deleted then [] else [a.inPipe]) ++ (if hiccups a.inbox = [] then [] else a.outPipe.toList)

/-- The messages of a queue are valid, a delimiter is not a credential, and the parts of
an unfinished message say that more follow. -/
structure QueueOk (queue : Queue) : Prop where
  valid : ∀ m ∈ queue.items, m.check = true
  plain : ∀ m ∈ queue.items, m.isDelimiter = true → m.isCredential = false
  parts : ∀ m ∈ queue.incomplete, m.more = true

/-- What holds of one end `a` whose peer is `b`. -/
structure EndInv (a b : Party) (h : Arena Queue) : Prop where
  /-- The outbound queue is given up with the acknowledgement. -/
  out_none : a.outPipe = none ↔
    a.status = none ∨ a.status = some .termAckSent ∨ a.status = some .termReqSent2
  /-- Otherwise it is the one the peer reads from, unless a hiccup is on its way. -/
  out_peer : hiccups a.inbox = [] → ∀ q, a.outPipe = some q → q = b.inPipe
  announced : ∀ q ∈ hiccups a.inbox, q = b.inPipe
  /-- An end that waits to be woken has nothing to read, or its call is on its way. -/
  wakes : a.Reading → a.inActive = false → .activateRead ∈ a.inbox ∨
      ∀ queue, h.cell a.inPipe = some queue → queue.flushed = [] ∧ queue.asleep = true
  notified : a.notified = if a.deleted then 1 else 0
  /-- Nothing follows an acknowledgement, and nothing is on its way to a deleted end. -/
  last : .pipeTermAck ∉ a.inbox.dropLast
  empty : a.deleted = true → a.inbox = []

/-- The queues that are alive are those the ends own, each once. -/
structure Owned (a b : Party) (h : Arena Queue) : Prop where
  nodup : (a.owned ++ b.owned).Nodup
  live : ∀ q, h.Live q ↔ q ∈ a.owned ∨ q ∈ b.owned
  bound : ∀ q, h.Live q → q < h.next

/-- The invariant of two ends, the delimiters apart. -/
structure TermInv (a b : Party) (h : Arena Queue) : Prop where
  linked : Linked a.view b.view
  left : EndInv a b h
  right : EndInv b a h
  owned : Owned a b h
  queues : ∀ q queue, h.cell q = some queue → QueueOk queue

theorem Owned.symm {a b : Party} {h : Arena Queue} (ho : Owned a b h) : Owned b a h where
  nodup := (perm_append_comm.nodup_iff).mp ho.nodup
  live q := (ho.live q).trans Or.comm
  bound := ho.bound

theorem TermInv.symm {a b : Party} {h : Arena Queue} (hi : TermInv a b h) : TermInv b a h :=
  ⟨hi.linked.symm, hi.right, hi.left, hi.owned.symm, hi.queues⟩

@[simp] theorem Party.receive_toEndpoint (a : Party) (cs : List Command) :
    (a.receive cs).toEndpoint = a.toEndpoint := rfl

@[simp] theorem Party.receive_inbox (a : Party) (cs : List Command) :
    (a.receive cs).inbox = a.inbox ++ cs := rfl

@[simp] theorem Party.receive_view (a : Party) (cs : List Command) :
    (a.receive cs).view = a.view.receive (termCommands cs) := by
  simp [Party.view, TermView.receive]

section Facts

variable {a b : Party} {h : Arena Queue} {q : QueueId}

theorem Party.mem_owned_in (ha : a.deleted = false) : a.inPipe ∈ a.owned := by
  simp [Party.owned, ha]

theorem Endpoint.status_eq_none {e : Endpoint} : e.status = none ↔ e.deleted = true := by
  simp [Endpoint.status]

theorem Endpoint.status_eq_some {e : Endpoint} {st : PipeState} :
    e.status = some st ↔ e.deleted = false ∧ e.state = st := by
  simp [Endpoint.status]

theorem Endpoint.Reading.alive {e : Endpoint} (h : e.Reading) : e.deleted = false := by
  rcases h with h | h
  · exact (Endpoint.status_eq_some.mp h).1
  · exact (Endpoint.status_eq_some.mp h).1

theorem TermInv.in_live (hi : TermInv a b h) (ha : a.deleted = false) : h.Live a.inPipe :=
  (hi.owned.live _).mpr (.inl (Party.mem_owned_in ha))

/-- The peer of an end that has an outbound queue is alive, and was not sent an
acknowledgement. -/
theorem TermInv.peer_open (hi : TermInv a b h) (hq : a.outPipe ≠ none) :
    b.deleted = false ∧ .pipeTermAck ∉ b.inbox := by
  have hn : ¬ (a.status = none ∨ a.status = some .termAckSent ∨
      a.status = some .termReqSent2) := fun hc => hq (hi.left.out_none.mpr hc)
  constructor
  · have : b.status ≠ none :=
      hi.linked.peer_alive (fun h => hn (.inl h)) (fun h => hn (.inr (.inl h)))
        (fun h => hn (.inr (.inr h)))
    simpa [Endpoint.status_eq_none] using this
  · exact fun hack => hn (hi.linked.ack_sent (ack_mem_termCommands.mpr hack))

theorem TermInv.peer_alive (hi : TermInv a b h) (hq : a.outPipe = some q) : b.deleted = false :=
  (hi.peer_open (by simp [hq])).1

theorem TermInv.out_live (hi : TermInv a b h) (ha : a.deleted = false)
    (hq : a.outPipe = some q) : h.Live q ∧ q ≠ a.inPipe := by
  have hnd := hi.owned.nodup
  by_cases hh : hiccups a.inbox = []
  · obtain rfl := hi.left.out_peer hh q hq
    have hb := Party.mem_owned_in (hi.peer_alive hq)
    refine ⟨(hi.owned.live _).mpr (.inr hb), fun he => ?_⟩
    exact (nodup_append.mp hnd).2.2 _ (Party.mem_owned_in ha) _ hb he.symm
  have hmem : q ∈ a.owned := by simp [Party.owned, hh, hq]
  refine ⟨(hi.owned.live _).mpr (.inl hmem), fun he => ?_⟩
  have := (nodup_append.mp hnd).1
  simp [Party.owned, hh, hq, ha, he] at this

theorem TermInv.in_ne (hi : TermInv a b h) (ha : a.deleted = false) (hb : b.deleted = false) :
    b.inPipe ≠ a.inPipe := fun he =>
  (nodup_append.mp hi.owned.nodup).2.2 _ (Party.mem_owned_in ha) _ (Party.mem_owned_in hb) he.symm

end Facts

/-! ### Changes that keep the invariant -/

/-- The call that wakes the reader, if it is needed. -/
def wakeUp (woken : Bool) : List Command := if woken then [.activateRead] else []

@[simp] theorem termCommands_wakeUp (woken : Bool) : termCommands (wakeUp woken) = [] := by
  cases woken <;> rfl

@[simp] theorem hiccups_wakeUp (woken : Bool) : hiccups (wakeUp woken) = [] := by
  cases woken <;> rfl

@[simp] theorem Party.receive_owned (a : Party) {cs : List Command} (hcs : hiccups cs = []) :
    (a.receive cs).owned = a.owned := by
  simp only [Party.owned, Party.receive_inbox, hiccups_append, hcs, append_nil]
  rfl

/-- The end can be sent the commands: it is alive and was not sent an acknowledgement
yet, and nothing follows the one it may be sent now. -/
def CanReceive (b : Party) (cs : List Command) : Prop :=
  cs ≠ [] → b.deleted = false ∧ .pipeTermAck ∉ b.inbox ∧ .pipeTermAck ∉ cs.dropLast

section Changes

variable {a b : Party} {h : Arena Queue} {q : QueueId} {cs : List Command}

theorem TermInv.canReceive (hi : TermInv a b h) (hq : cs ≠ [] → a.outPipe ≠ none)
    (hcs : .pipeTermAck ∉ cs.dropLast) : CanReceive b cs := fun hne =>
  ⟨(hi.peer_open (hq hne)).1, (hi.peer_open (hq hne)).2, hcs⟩

theorem CanReceive.last (hr : CanReceive b cs) (hb : .pipeTermAck ∉ b.inbox.dropLast) :
    .pipeTermAck ∉ (b.receive cs).inbox.dropLast := by
  by_cases hcs : cs = []
  · simpa [hcs] using hb
  · rw [Party.receive_inbox, dropLast_append_of_ne_nil hcs]
    simp [hr hcs]

theorem CanReceive.empty (hr : CanReceive b cs) (hb : b.deleted = true → b.inbox = []) :
    b.deleted = true → (b.receive cs).inbox = [] := by
  intro hd
  by_cases hcs : cs = []
  · simpa [hcs] using hb hd
  · simp [(hr hcs).1] at hd

/-- The peer of an end that acts: it receives commands, and its inbound queue is changed
by a writer, if at all. -/
theorem EndInv.receive {a' : Party} {h' : Arena Queue} (hb : EndInv b a h)
    (hsend : CanReceive b cs) (hcs : hiccups cs = []) (hin : a'.inPipe = a.inPipe)
    (hq : ∀ queue', h'.cell b.inPipe = some queue' →
      .activateRead ∈ cs ∨ ∃ queue, h.cell b.inPipe = some queue ∧
        queue.Written queue' false) :
    EndInv (b.receive cs) a' h' where
  out_none := hb.out_none
  out_peer hh q hout := by
    rw [hin]
    exact hb.out_peer (by simpa [hcs] using hh) q hout
  announced q hmem := by
    rw [hin]
    exact hb.announced q (by simpa [hcs] using hmem)
  wakes hr ha := by
    rcases hb.wakes hr ha with hact | hempty
    · exact .inl (mem_append_left _ hact)
    by_cases hact : .activateRead ∈ cs
    · exact .inl (mem_append_right _ hact)
    refine .inr fun queue' hc => ?_
    obtain ⟨queue, hc0, hw⟩ := (hq queue' hc).resolve_left hact
    obtain ⟨hf, hs⟩ := hempty queue hc0
    obtain ⟨hs', hf'⟩ := hw.sleep rfl
    exact ⟨(hf' hs).trans hf, hs'.trans hs⟩
  notified := hb.notified
  last := hsend.last hb.last
  empty := hsend.empty hb.empty

/-- The peer when nothing happens to its inbound queue. -/
theorem EndInv.receive_of_cell {a' : Party} {h' : Arena Queue} (hb : EndInv b a h)
    (hsend : CanReceive b cs) (hcs : hiccups cs = []) (hin : a'.inPipe = a.inPipe)
    (hc : h'.cell b.inPipe = h.cell b.inPipe) : EndInv (b.receive cs) a' h' :=
  hb.receive hsend hcs hin fun queue' hq' =>
    .inr ⟨queue', hc ▸ hq', FlushQueue.Written.refl queue'⟩

theorem TermInv.queues_set (hi : TermInv a b h) {queue' : Queue} (hok : QueueOk queue') :
    ∀ i queue, (h.set q queue').cell i = some queue → QueueOk queue := by
  intro i queue hc
  by_cases hiq : i = q
  · subst hiq
    rw [cell_set] at hc
    exact Option.some.inj hc ▸ hok
  · rw [cell_set_of_ne h queue' hiq] at hc
    exact hi.queues i queue hc

theorem Owned.set (ho : Owned a b h) (hq : h.Live q) (queue' : Queue) :
    Owned a b (h.set q queue') where
  nodup := ho.nodup
  live i := (live_set hq).trans (ho.live i)
  bound i hl := ho.bound i ((live_set hq).mp hl)

theorem TermInv.setIn (hi : TermInv a b h) (ha : a.deleted = false) {queue' : Queue}
    {act : Bool} (hok : QueueOk queue')
    (hact : a.Reading → act = false → queue'.flushed = [] ∧ queue'.asleep = true) :
    TermInv { a with inActive := act } b (h.set a.inPipe queue') where
  linked := hi.linked
  left :=
    { out_none := hi.left.out_none
      out_peer := hi.left.out_peer
      announced := hi.left.announced
      wakes := fun hr hf => .inr fun queue hc => by
        rw [cell_set] at hc
        exact Option.some.inj hc ▸ hact hr hf
      notified := hi.left.notified
      last := hi.left.last
      empty := hi.left.empty }
  right := by
    refine ⟨hi.right.out_none, hi.right.out_peer, hi.right.announced, fun hr => ?_,
      hi.right.notified, hi.right.last, hi.right.empty⟩
    rw [cell_set_of_ne h queue' (hi.in_ne ha hr.alive)]
    exact hi.right.wakes hr
  owned := by
    have ho := hi.owned.set (hi.in_live ha) queue'
    exact ⟨ho.nodup, ho.live, ho.bound⟩
  queues := hi.queues_set hok

theorem TermInv.writeOut (hi : TermInv a b h) (ha : a.deleted = false) {queue queue' : Queue}
    {woken : Bool} (hq : a.outPipe = some q) (hc : h.cell q = some queue)
    (hw : queue.Written queue' woken) (hok : QueueOk queue') :
    TermInv a (b.receive (wakeUp woken)) (h.set q queue') where
  linked := by simpa [TermView.receive] using hi.linked
  left :=
    { hi.left with
      wakes := fun hr => by
        rw [cell_set_of_ne h queue' (hi.out_live ha hq).2.symm]
        exact hi.left.wakes hr }
  right := by
    have hsend : CanReceive b (wakeUp woken) :=
      hi.canReceive (by simp [hq]) (by cases woken <;> simp [wakeUp])
    refine hi.right.receive hsend (hiccups_wakeUp woken) rfl fun queue1 hc1 => ?_
    by_cases hqb : b.inPipe = q
    · subst hqb
      obtain rfl : queue' = queue1 := by simpa using hc1
      cases woken with
      | true => exact .inl (mem_singleton.mpr rfl)
      | false => exact .inr ⟨queue, hc, hw⟩
    · rw [cell_set_of_ne h queue' hqb] at hc1
      exact .inr ⟨queue1, hc1, FlushQueue.Written.refl queue1⟩
  owned := by
    have ho := hi.owned.set (hi.out_live ha hq).1 queue'
    have hb := b.receive_owned (hiccups_wakeUp woken)
    exact ⟨by rw [hb]; exact ho.nodup, fun i => by rw [hb]; exact ho.live i, ho.bound⟩
  queues := hi.queues_set hok

theorem mem_dropLast_of_suffix {α : Type} {x : α} {xs ys : List α} (h : xs <:+ ys)
    (hx : x ∈ xs.dropLast) : x ∈ ys.dropLast := by
  obtain ⟨zs, rfl⟩ := h
  cases xs with
  | nil => simp at hx
  | cons y xs =>
    rw [dropLast_append_of_ne_nil (by simp)]
    exact mem_append_right _ hx

/-- An end changes its state, takes commands out of its inbox or sends some, and gives up
its outbound queue when it acknowledges. -/
theorem TermInv.move (hi : TermInv a b h) (ha : a.deleted = false) {st : PipeState}
    {out : Option QueueId} {act : Bool} {rest : List Command}
    (hl : Linked ⟨some st, termCommands rest⟩ (b.view.receive (termCommands cs)))
    (hout : out = none ↔ st = .termAckSent ∨ st = .termReqSent2)
    (hkeep : out = a.outPipe ∨ (out = none ∧ hiccups a.inbox = []))
    (hsuffix : rest <:+ a.inbox) (hrest : hiccups rest = hiccups a.inbox)
    (hcs : hiccups cs = []) (hsend : CanReceive b cs)
    (hwake : st = .active ∨ st = .waitingForDelimiter → act = false →
      a.Reading ∧ a.inActive = false ∧ (.activateRead ∈ a.inbox → .activateRead ∈ rest)) :
    TermInv { a with state := st, outPipe := out, inActive := act, inbox := rest }
      (b.receive cs) h where
  linked := by
    rw [Party.receive_view]
    simpa [Party.view, Endpoint.status, ha] using hl
  left :=
    { out_none := by simpa [Endpoint.status, ha] using hout
      out_peer := fun hh q hq => by
        rcases hkeep with hkeep | ⟨hkeep, -⟩
        · exact hi.left.out_peer (hrest ▸ hh) q (hkeep ▸ hq)
        · simp [hkeep] at hq
      announced := fun q hmem => hi.left.announced q (hrest ▸ hmem)
      wakes := fun hr hact => by
        have hst : st = .active ∨ st = .waitingForDelimiter := by
          simpa [Endpoint.Reading, Endpoint.status, ha] using hr
        obtain ⟨hra, hia, hmem⟩ := hwake hst hact
        exact (hi.left.wakes hra hia).imp hmem id
      notified := hi.left.notified
      last := fun hmem => hi.left.last (mem_dropLast_of_suffix hsuffix hmem)
      empty := fun hd => by simp [ha] at hd }
  right := hi.right.receive_of_cell hsend hcs rfl rfl
  owned := by
    have hown : ({ a with state := st, outPipe := out, inActive := act, inbox := rest } :
        Party).owned = a.owned := by
      rcases hkeep with hkeep | ⟨-, hkeep⟩
      · simp [Party.owned, hrest, hkeep]
      · simp [Party.owned, hrest, hkeep]
    have hb := b.receive_owned hcs
    exact ⟨by rw [hown, hb]; exact hi.owned.nodup,
      fun i => by rw [hown, hb]; exact hi.owned.live i, hi.owned.bound⟩
  queues := hi.queues

/-- An active end gives up its inbound queue for a new one and asks its peer. The peer
owns the old queue from now on. -/
theorem TermInv.hiccup (hi : TermInv a b h) (ha : a.status = some .active) :
    TermInv { a with state := .termReqSent1, inPipe := h.next, inActive := true }
      (b.receive [.hiccup h.next, .pipeTerm]) (h.alloc {}) := by
  obtain ⟨hdel, hst⟩ := Endpoint.status_eq_some.mp ha
  have hl : Linked ⟨some .active, termCommands a.inbox⟩ b.view := by
    simpa [Party.view, ha] using hi.linked
  obtain ⟨hib, hbst⟩ := hl.active_peer
  have hhb : hiccups b.inbox = [] := hiccups_eq_nil fun hmem => by
    rw [show termCommands b.inbox = [] from hib] at hmem
    cases hmem
  have hout : a.outPipe ≠ none := fun hn => by simpa [ha] using hi.left.out_none.mp hn
  -- the old queue is the one the peer writes to
  have hbout : b.outPipe = some a.inPipe := by
    cases hq : b.outPipe with
    | none =>
      have hbs := hi.right.out_none.mp hq
      rcases hbst with hb' | hb' <;> simp [Party.view] at hb' <;> simp [hb'] at hbs
    | some q => rw [hi.right.out_peer hhb q hq]
  have hfresh : ∀ q, h.Live q → q ≠ h.next := fun q hl => Nat.ne_of_lt (hi.owned.bound q hl)
  have hsend : CanReceive b [.hiccup h.next, .pipeTerm] :=
    hi.canReceive (fun _ => hout) (by simp)
  have howna : ({ a with state := .termReqSent1, inPipe := h.next, inActive := true } :
      Party).owned = h.next :: a.owned.tail := by
    simp [Party.owned, hdel]
  have hownb : (b.receive [.hiccup h.next, .pipeTerm]).owned = b.owned ++ [a.inPipe] := by
    simp [Party.owned, hhb, hiccups, hbout, (hi.peer_open hout).1]
  have ha_owned : a.owned = a.inPipe :: a.owned.tail := by simp [Party.owned, hdel]
  refine ⟨?_, ?_, ?_, ⟨?_, fun i => ?_, fun i hlive => ?_⟩, fun i queue hc => ?_⟩
  · rw [Party.receive_view]
    simp only [Party.view, Endpoint.status, hdel]
    exact hl.ask true
  · refine ⟨?_, hi.left.out_peer, hi.left.announced, ?_, hi.left.notified, hi.left.last,
      hi.left.empty⟩
    · simp [Endpoint.status, hdel, hout]
    · simp [Endpoint.Reading, Endpoint.status, hdel]
  · refine ⟨hi.right.out_none, ?_, ?_, fun hr hact => ?_, hi.right.notified,
      hsend.last hi.right.last, hsend.empty hi.right.empty⟩
    · simp [hiccups]
    · simp [hiccups, hhb]
    have hlive : h.Live b.inPipe := hi.symm.in_live hr.alive
    rcases hi.right.wakes hr hact with hmem | hempty
    · exact .inl (mem_append_left _ hmem)
    · refine .inr fun queue hc => hempty queue ?_
      rwa [← cell_alloc_of_ne h {} (hfresh _ hlive)]
  · have hnd := hi.owned.nodup
    have hperm : ((h.next :: a.owned.tail) ++ (b.owned ++ [a.inPipe])).Perm
        (h.next :: (a.owned ++ b.owned)) := by
      rw [ha_owned]
      simp only [cons_append, tail_cons]
      refine List.Perm.cons _ ?_
      rw [← append_assoc]
      exact perm_append_singleton _ _
    rw [howna, hownb, hperm.nodup_iff, nodup_cons]
    refine ⟨fun hmem => ?_, hnd⟩
    exact hfresh _ ((hi.owned.live _).mpr (mem_append.mp hmem)) rfl
  · rw [live_alloc, hi.owned.live, howna, hownb, ha_owned]
    simp only [mem_cons, mem_append, tail_cons, not_mem_nil, or_false]
    tauto
  · rcases live_alloc.mp hlive with rfl | hlive
    · exact Nat.lt_succ_self _
    · exact Nat.lt_succ_of_lt (hi.owned.bound i hlive)
  · by_cases hin : i = h.next
    · rw [hin, cell_alloc_next] at hc
      rw [← Option.some.inj hc]
      exact ⟨by simp [FlushQueue.items], by simp [FlushQueue.items], by simp⟩
    · rw [cell_alloc_of_ne h {} hin] at hc
      exact hi.queues i queue hc

/-- An end processes a hiccup: it deletes the queue it wrote to and writes to the one
announced. -/
theorem TermInv.handleHiccup {new : QueueId} {rest : List Command} (hi : TermInv a b h)
    (hinbox : a.inbox = .hiccup new :: rest) (hq : a.outPipe = some q) :
    TermInv { a with outPipe := some new, inbox := rest } b (h.free q) := by
  have hv : a.view.inbox = .hiccup :: termCommands rest := by
    simp [Party.view, hinbox, termCommands]
  obtain ⟨hl, hno, hst⟩ := hi.linked.handleHiccup hv
  have hrest : hiccups rest = [] := hiccups_eq_nil hno
  have hdel : a.deleted = false := by
    cases hd : a.deleted with
    | false => rfl
    | true => simp [Party.view, Endpoint.status, hd] at hst
  have howna : a.owned = [a.inPipe, q] := by simp [Party.owned, hdel, hinbox, hiccups, hq]
  have howna' : ({ a with outPipe := some new, inbox := rest } : Party).owned = [a.inPipe] := by
    simp [Party.owned, hdel, hrest]
  have hnd := hi.owned.nodup
  rw [howna] at hnd
  simp only [cons_append, nil_append, nodup_cons, mem_cons, not_or] at hnd
  obtain ⟨⟨hin, hina⟩, hqb, hndb⟩ := hnd
  refine ⟨hl, ⟨?_, fun _ i hi' => ?_, by simp [hrest], fun hr hact => ?_, hi.left.notified,
    fun hmem => hi.left.last ?_, by simp [hdel]⟩, ?_, ⟨?_, fun i => ?_, fun i hlive => ?_⟩,
    fun i queue hc => ?_⟩
  · rcases hst with hst | hst | hst <;>
      simp [Party.view, Endpoint.status, hdel] at hst <;> simp [Endpoint.status, hdel, hst]
  · obtain rfl : new = i := by simpa using hi'
    exact hi.left.announced _ (by simp [hinbox, hiccups])
  · rcases hi.left.wakes hr hact with hmem | hempty
    · exact .inl (by simpa [hinbox] using hmem)
    · exact .inr fun queue hc => hempty queue (cell_of_cell_free hc)
  · exact mem_dropLast_of_suffix (hinbox ▸ suffix_cons _ _) hmem
  · refine ⟨hi.right.out_none, hi.right.out_peer, hi.right.announced, fun hr hact => ?_,
      hi.right.notified, hi.right.last, hi.right.empty⟩
    exact (hi.right.wakes hr hact).imp id fun hempty queue hc =>
      hempty queue (cell_of_cell_free hc)
  · rw [howna']
    exact nodup_cons.mpr ⟨hina, hndb⟩
  · rw [live_free, hi.owned.live, howna, howna']
    simp only [mem_cons, not_mem_nil, or_false]
    constructor
    · rintro ⟨hne, (rfl | rfl) | hb⟩
      · exact .inl rfl
      · exact absurd rfl hne
      · exact .inr hb
    · rintro (rfl | hb)
      · exact ⟨hin, .inl (.inl rfl)⟩
      · exact ⟨fun he => hqb (he ▸ hb), .inr hb⟩
  · exact hi.owned.bound i (live_free.mp hlive).2
  · exact hi.queues i queue (cell_of_cell_free hc)

/-- An end processes the last command it is sent, deletes its inbound queue and itself. -/
theorem TermInv.delete {rest : List Command} (hi : TermInv a b h) (ha : a.deleted = false)
    (hinbox : a.inbox = .pipeTermAck :: rest)
    (hl : Linked ⟨none, []⟩ (b.view.receive (termCommands cs)))
    (hcs : hiccups cs = []) (hsend : CanReceive b cs) :
    TermInv { a with outPipe := none, notified := a.notified + 1, deleted := true, inbox := rest }
      (b.receive cs) (h.free a.inPipe) := by
  have hlast := hi.left.last
  obtain rfl : rest = [] := by
    cases rest with
    | nil => rfl
    | cons c rest => simp [hinbox] at hlast
  have howna : a.owned = [a.inPipe] := by simp [Party.owned, ha, hinbox, hiccups]
  have howna' : Party.owned
      { a with outPipe := none, notified := a.notified + 1, deleted := true, inbox := [] } =
        [] := by
    simp [Party.owned, hiccups]
  have hnd := hi.owned.nodup
  rw [howna] at hnd
  obtain ⟨hin, hndb⟩ := nodup_cons.mp hnd
  refine ⟨?_, ⟨?_, ?_, by simp [hiccups], ?_, ?_, by simp, fun _ => rfl⟩,
    ?_, ⟨?_, fun i => ?_, fun i hlive => ?_⟩, fun i queue hc => ?_⟩
  · rw [Party.receive_view]
    simpa [Party.view, Endpoint.status, termCommands] using hl
  · simp [Endpoint.status]
  · intro _ q hq
    cases hq
  · intro hr
    exact absurd hr.alive (by simp)
  · simp [hi.left.notified, ha]
  · exact hi.right.receive hsend hcs rfl fun queue' hc =>
      .inr ⟨queue', cell_of_cell_free hc, FlushQueue.Written.refl queue'⟩
  · rw [howna', b.receive_owned hcs]
    exact hndb
  · rw [live_free, hi.owned.live, howna, howna', b.receive_owned hcs]
    simp only [mem_cons, not_mem_nil, or_false, false_or]
    constructor
    · rintro ⟨hne, rfl | hb⟩
      · exact absurd rfl hne
      · exact hb
    · intro hb
      exact ⟨fun he => hin (he ▸ hb), .inr hb⟩
  · exact hi.owned.bound i (live_free.mp hlive).2
  · exact hi.queues i queue (cell_of_cell_free hc)

end Changes

end ServerLink

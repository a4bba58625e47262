import ServerLink.Core.Router

/-!
# ServerLink.Core.RouterRecv

The receiving side of a ROUTER: what the prefetch buffers, the more flag and the pointer
to the current pipe have to do with the fair queue (`Recv`), and that identifying a peer,
receiving and polling keep it.
-/

namespace ServerLink

open Function FairQueue RoutingTable

namespace FairQueue

variable {b : FairQueue}

/-- Passing over routing ids: they are messages of their own, so that in the middle of a
message there are none. -/
theorem Steady.recvUser : ∀ (fuel : Nat) {b : FairQueue}, b.Steady → b.held < fuel →
    (∃ p m b', b.recvUser fuel = .ok (some (p, m), b') ∧ b'.Ok ∧ b.Advances b' ∧
      b'.fq.more = m.more ∧ (m.more = true → b'.Holds p) ∧ (b.fq.more = true → b.Holds p) ∧
      (b.pipes p).reading = true) ∨
    (∃ b', b.recvUser fuel = .ok (none, b') ∧ b'.Ok ∧ b.Advances b' ∧ b.fq.more = false ∧
      b'.fq.more = false)
  | 0, b, h, hfuel => by omega
  | fuel + 1, b, h, hfuel => by
      rcases h.recvpipe with ⟨p, m, b', heq, ht, hs⟩ | ⟨b', heq, hf, hs, hno⟩
      · obtain ⟨-, hread, -⟩ := Inlet.read_eq_some ht.read
        have hheld : b.fq.more = true → b.Holds p := by
          intro hmore
          obtain ⟨q, hq⟩ := h.holds hmore
          exact (ht.current hmore).unique hq.current ▸ hq
        rw [FairQueue.recvUser, heq]
        dsimp only
        cases hid : m.isRoutingId with
        | false =>
          exact .inl ⟨p, m, b', rfl, ht.ok, ht.advances, ht.more, ht.holds_more, hheld, hread⟩
        | true =>
          obtain ⟨hmid, hmore⟩ := (h.ok.framed p).read_routingId ht.read hid
          have hno : b.fq.more = false := by
            cases hb : b.fq.more with
            | false => rfl
            | true =>
              rw [(hheld hb).midway] at hmid
              cases hmid
          have hlt := ht.held_lt h.ok
          rcases Steady.recvUser fuel hs (by omega) with
            ⟨q, m', b'', heq', hok, ha, hm, hh, -, hr⟩ | ⟨b'', heq', hok, ha, -, hno'⟩
          · refine .inl ⟨q, m', b'', heq', hok, ht.advances.trans ha, hm, hh, fun hb => ?_,
              ht.advances.reading q hr⟩
            rw [hno] at hb
            cases hb
          · exact .inr ⟨b'', heq', hok, ht.advances.trans ha, hno, hno'⟩
      · exact .inr ⟨b', by rw [FairQueue.recvUser, heq], hs.ok, hf.advances, hno, hf.more.trans hno⟩

theorem Ok.modify_detached (h : b.Ok) {q : PipeId} (hq : q ∉ b.fq.pipes.items)
    {f : Inlet → Inlet} (hi : (f (b.pipes q)).Ok) : (b.modify q f).Ok :=
  h.update h.fq hi fun _ hp => ⟨hp, fun heq => absurd (heq ▸ hp.mem) hq⟩

theorem Holds.modify_of_ne {p q : PipeId} {f : Inlet → Inlet} (hp : b.Holds p) (hne : p ≠ q) :
    (b.modify q f).Holds p :=
  hp.modify fun heq => absurd heq hne

theorem Holds.ne_of_not_mem {p q : PipeId} (hp : b.Holds p) (hq : q ∉ b.fq.pipes.items) :
    p ≠ q := by
  rintro rfl
  exact hq hp.current.isActive.mem

theorem modify_reading (q : PipeId) (f : Inlet → Inlet)
    (hf : (f (b.pipes q)).reading = true → (b.pipes q).reading = true) (p : PipeId)
    (hp : ((b.modify q f).pipes p).reading = true) : (b.pipes p).reading = true := by
  by_cases hpq : p = q
  · subst hpq
    simp only [modify, update_self] at hp
    exact hf hp
  · simpa only [modify, update_of_ne hpq] using hp

theorem Advances.of_fq_eq {queue : FairQueue} (hfq : queue.fq = b.fq)
    (hr : ∀ q, (queue.pipes q).reading = true → (b.pipes q).reading = true) : b.Advances queue where
  mem q := by rw [hfq]
  reading := hr

end FairQueue

namespace Router

variable {old : PipeId} {s1 : Router}

/-- The receiving side of the socket agrees with the fair queue. -/
structure Recv (s : Router) : Prop where
  ok : s.queue.Ok
  /-- A message that is half read is one of the current pipe. -/
  holds : s.queue.fq.more = true → ∃ p, s.queue.Holds p ∧ s.currentIn = some p
  between : s.prefetched = false → s.moreIn = s.queue.fq.more
  kept : s.prefetched = true → s.prefetchedMsg.more = s.queue.fq.more
  ahead : s.prefetched = true → s.routingIdSent = false →
    s.prefetchedId.more = true ∧ s.moreIn = false
  current : s.prefetched = true → ∃ p, s.currentIn = some p
  idle : s.prefetched = false → s.moreIn = false → s.currentIn = none
  terminating : s.terminateCurrentIn = true →
    ∃ p ∈ s.queue.fq.pipes.items, s.currentIn = some p

/-- The pipes with an entry in the routing table. -/
def Listed (s : Router) (P : PipeId → Prop) : Prop :=
  ∀ id o, s.table.outPipes id = some o → P o.pipe

theorem recv_new (id : BitVec 32) : (new id).Recv where
  ok := empty_ok
  holds h := by cases h
  between _ := rfl
  kept h := by cases h
  ahead h := by cases h
  current h := by cases h
  idle _ _ := rfl
  terminating h := by cases h

variable {s s' : Router} {pipe : PipeId} {id : Blob}

theorem Recv.steady (h : s.Recv) : s.queue.Steady where
  ok := h.ok
  holds hmore := by
    obtain ⟨p, hp, -⟩ := h.holds hmore
    exact ⟨p, hp⟩

theorem Recv.setRest (h : s.Recv) (table : RoutingTable) (anonymousPipes : Finset PipeId)
    (handover rawSocket : Bool) :
    Recv { s with table, anonymousPipes, handover, rawSocket } :=
  ⟨h.ok, h.holds, h.between, h.kept, h.ahead, h.current, h.idle, h.terminating⟩

theorem Recv.setTable (h : s.Recv) (table : RoutingTable) : Recv { s with table } :=
  h.setRest table s.anonymousPipes s.handover s.rawSocket

/-- Only the queue changes, its more flag stays, and the current pipe stays where it is. -/
theorem Recv.setQueue (h : s.Recv) {queue : FairQueue} (hok : queue.Ok)
    (hmore : queue.fq.more = s.queue.fq.more)
    (hh : ∀ p, s.queue.Holds p → s.currentIn = some p → queue.Holds p)
    (hm : ∀ p ∈ s.queue.fq.pipes.items, s.terminateCurrentIn = true → s.currentIn = some p →
      p ∈ queue.fq.pipes.items) : Recv { s with queue } where
  ok := hok
  holds hq := by
    obtain ⟨p, hp, hcur⟩ := h.holds (hmore.symm.trans hq)
    exact ⟨p, hh p hp hcur, hcur⟩
  between hp := (h.between hp).trans hmore.symm
  kept hp := (h.kept hp).trans hmore.symm
  ahead := h.ahead
  current := h.current
  idle := h.idle
  terminating ht := by
    obtain ⟨p, hp, hcur⟩ := h.terminating ht
    exact ⟨p, hm p hp ht hcur, hcur⟩

/-! ### The routing table -/

/-- The assertions about routing ids that can fail. -/
def IdFault (e : Fault) : Prop := e = .routerConnectId ∨ e = .routerOutPipe

theorem enter_eq_ok {t t' : RoutingTable} (h : t.enter pipe id = .ok t') :
    t.outPipes id = none ∧ t' = { t with
      routingId := update t.routingId pipe id
      outPipes := update t.outPipes id (some ⟨pipe, true⟩) } := by
  unfold enter addOutPipe at h
  split at h
  · cases h
  · rename_i hfree
    exact ⟨hfree, (Except.ok.inj h).symm⟩

theorem enter_error {t : RoutingTable} {e : Fault} (h : t.enter pipe id = .error e) :
    IdFault e := by
  unfold enter addOutPipe at h
  split at h
  · exact .inr (Except.error.inj h).symm
  · cases h

theorem Listed.update {P Q : PipeId → Prop} (h : s.Listed P) (hPQ : ∀ p, P p → Q p)
    (hq : Q pipe) {table : RoutingTable}
    (ht : table.outPipes = update s.table.outPipes id (some ⟨pipe, true⟩)) :
    Listed { s with table } Q := by
  intro id' o ho
  simp only [ht] at ho
  by_cases hid : id' = id
  · subst hid
    rw [update_self] at ho
    exact Option.some.inj ho ▸ hq
  · rw [update_of_ne hid] at ho
    exact hPQ _ (h id' o ho)

theorem Listed.erase {P : PipeId → Prop} (h : s.Listed P) (pipe : PipeId) :
    Listed { s with table := s.table.eraseOutPipe pipe } fun p => P p ∧ p ≠ pipe := by
  intro id' o ho
  simp only [eraseOutPipe, Option.filter_eq_some_iff] at ho
  exact ⟨h id' o ho.1, by simpa using ho.2⟩

/-! ### Identifying a peer -/

theorem handOver_eq_ok (h : s.handOver old = .ok s') :
    ∃ table, (s.table.integralId.2.eraseOutPipe old).enter old s.table.integralId.1 = .ok table ∧
      ((s.currentIn = some old ∧ s' = { s with table, terminateCurrentIn := true }) ∨
        (s.currentIn ≠ some old ∧
          s' = { s with table, queue := s.queue.modify old (·.terminate true) })) := by
  unfold handOver at h
  split at h
  · cases h
  rename_i table heq
  split at h
  · rename_i hcur
    exact ⟨table, heq, .inl ⟨hcur, (Except.ok.inj h).symm⟩⟩
  · rename_i hcur
    exact ⟨table, heq, .inr ⟨hcur, (Except.ok.inj h).symm⟩⟩

theorem handOver_error {e : Fault} (h : s.handOver old = .error e) : IdFault e := by
  unfold handOver at h
  split at h
  · rename_i heq
    exact Except.error.inj h ▸ enter_error heq
  · split at h <;> cases h

/-- The ways in which `identify_peer` finds an id for the pipe: the socket at that moment, and
the id. -/
inductive Naming (s : Router) (pipe : PipeId) : Router → Blob → Prop
  | connectId (hc : s.table.connectRoutingId ≠ []) :
    Naming s pipe { s with table := { s.table with connectRoutingId := [] } }
      s.table.connectRoutingId
  | raw (hr : s.rawSocket = true) :
    Naming s pipe { s with table := s.table.integralId.2 } s.table.integralId.1
  | unnamed {m : Msg} (hm : (s.queue.pipes pipe).read.1 = some m) (hdata : m.data = []) :
    Naming s pipe { s with queue := s.queue.modify pipe (·.read.2), table := s.table.integralId.2 }
      s.table.integralId.1
  | named {m : Msg} (hm : (s.queue.pipes pipe).read.1 = some m) (hdata : m.data ≠ []) :
    Naming s pipe { s with queue := s.queue.modify pipe (·.read.2) } m.data
  | takenOver {m : Msg} {old : OutPipe} {s1 : Router}
      (hm : (s.queue.pipes pipe).read.1 = some m) (hdata : m.data ≠ [])
      (hold : s.table.outPipes m.data = some old)
      (h : { s with queue := s.queue.modify pipe (·.read.2) }.handOver old.pipe = .ok s1) :
    Naming s pipe s1 m.data

/-- The pipe stays anonymous, or it is entered in the table under the id that was found. -/
def Named (s : Router) (pipe : PipeId) (r : Bool) (s' : Router) : Prop :=
  (r = false ∧ s' = { s with queue := s.queue.modify pipe (·.read.2) }) ∨
  (r = true ∧ ∃ s1 id table, s.Naming pipe s1 id ∧ s1.table.enter pipe id = .ok table ∧
    s' = { s1 with table })

/-- A computation ends in one of these ways, or one of the assertions about ids fails. -/
def Names (s : Router) (pipe : PipeId) (x : Except Fault (Bool × Router)) : Prop :=
  (∃ r s', x = .ok (r, s') ∧ s.Named pipe r s') ∨ ∃ e, x = .error e ∧ IdFault e

theorem Naming.identified (hn : s.Naming pipe s1 id) : s.Names pipe (s1.identified pipe id) := by
  unfold Router.identified
  split
  · rename_i heq
    exact .inr ⟨_, rfl, enter_error heq⟩
  · rename_i table heq
    exact .inl ⟨true, _, rfl, .inr ⟨rfl, s1, id, table, hn, heq, rfl⟩⟩

theorem identifyPeer_names (s : Router) (pipe : PipeId) (locallyInitiated : Bool) :
    s.Names pipe (s.identifyPeer pipe locallyInitiated) := by
  unfold identifyPeer
  split
  · rename_i hli
    simp only [Bool.and_eq_true, decide_eq_true_eq] at hli
    dsimp only
    split
    · exact .inr ⟨_, rfl, .inl rfl⟩
    · exact (Naming.connectId hli.2).identified
  split
  · rename_i hraw
    exact (Naming.raw hraw).identified
  dsimp only
  split
  · exact .inl ⟨false, _, rfl, .inl ⟨rfl, rfl⟩⟩
  rename_i m hm
  split
  · rename_i hsize
    exact (Naming.unnamed hm (List.eq_nil_of_length_eq_zero hsize)).identified
  rename_i hsize
  have hdata : m.data ≠ [] := fun hnil => hsize (by simp [Msg.size, hnil])
  unfold identifyBy
  split
  · exact (Naming.named hm hdata).identified
  rename_i old hold
  split
  · exact .inl ⟨false, _, rfl, .inl ⟨rfl, rfl⟩⟩
  split
  · rename_i heq
    exact .inr ⟨_, rfl, handOver_error heq⟩
  · rename_i s1 heq
    exact (Naming.takenOver hm hdata hold heq).identified

theorem identifyPeer_eq_ok {locallyInitiated r : Bool}
    (h : s.identifyPeer pipe locallyInitiated = .ok (r, s')) : s.Named pipe r s' := by
  rcases s.identifyPeer_names pipe locallyInitiated with ⟨r', s'', heq, hn⟩ | ⟨e, heq, -⟩
  · cases heq.symm.trans h
    exact hn
  · cases heq.symm.trans h

/-- What identifying a peer leaves alone. -/
structure Keeps (s s' : Router) : Prop where
  fq : s'.queue.fq = s.queue.fq
  reading : ∀ q, (s'.queue.pipes q).reading = true → (s.queue.pipes q).reading = true
  anonymous : s'.anonymousPipes = s.anonymousPipes
  prefetched : s'.prefetched = s.prefetched
  routingIdSent : s'.routingIdSent = s.routingIdSent
  currentIn : s'.currentIn = s.currentIn

theorem Keeps.trans {s'' : Router} (h : s.Keeps s') (h' : s'.Keeps s'') : s.Keeps s'' where
  fq := h'.fq.trans h.fq
  reading q hq := h.reading q (h'.reading q hq)
  anonymous := h'.anonymous.trans h.anonymous
  prefetched := h'.prefetched.trans h.prefetched
  routingIdSent := h'.routingIdSent.trans h.routingIdSent
  currentIn := h'.currentIn.trans h.currentIn

theorem keeps_setTable (s : Router) (table : RoutingTable) (terminateCurrentIn : Bool) :
    s.Keeps { s with table, terminateCurrentIn } :=
  ⟨rfl, fun _ h => h, rfl, rfl, rfl, rfl⟩

theorem keeps_modify (s : Router) (q : PipeId) {f : Inlet → Inlet}
    (hf : ∀ i, (f i).reading = true → i.reading = true) :
    s.Keeps { s with queue := s.queue.modify q f } :=
  ⟨rfl, modify_reading q f (hf _), rfl, rfl, rfl, rfl⟩

/-- `identify_peer` reads the first message, whatever it is. -/
theorem keeps_read (s : Router) (pipe : PipeId) :
    s.Keeps { s with queue := s.queue.modify pipe (·.read.2) } :=
  s.keeps_modify pipe fun _ => Inlet.read_reading_of

theorem read_ok (hok : s.queue.Ok) (hp : pipe ∉ s.queue.fq.pipes.items) :
    (s.queue.modify pipe (·.read.2)).Ok :=
  hok.modify_detached hp (hok.framed pipe).read

/-- What finding an id for a pipe does to the queue. -/
structure Ready (s s1 : Router) : Prop where
  keeps : s.Keeps s1
  prefetchedId : s1.prefetchedId = s.prefetchedId
  ok : s1.queue.Ok
  inActive : ∀ q, (s1.queue.pipes q).inActive = (s.queue.pipes q).inActive

theorem Ready.trans {s'' : Router} (h : s.Ready s') (h' : s'.Ready s'') : s.Ready s'' :=
  ⟨h.keeps.trans h'.keeps, h'.prefetchedId.trans h.prefetchedId, h'.ok,
    fun q => (h'.inActive q).trans (h.inActive q)⟩

theorem ready_setTable (hok : s.queue.Ok) (table : RoutingTable) (terminateCurrentIn : Bool) :
    s.Ready { s with table, terminateCurrentIn } :=
  ⟨keeps_setTable s table _, rfl, hok, fun _ => rfl⟩

theorem ready_modify (q : PipeId) {f : Inlet → Inlet} (hok : (s.queue.modify q f).Ok)
    (hf : ∀ i, (f i).reading = true → i.reading = true)
    (ha : (f (s.queue.pipes q)).inActive = (s.queue.pipes q).inActive) :
    s.Ready { s with queue := s.queue.modify q f } := by
  refine ⟨s.keeps_modify q hf, rfl, hok, fun x => ?_⟩
  by_cases hx : x = q
  · subst hx
    simp only [FairQueue.modify, update_self, ha]
  · simp only [FairQueue.modify, update_of_ne hx]

/-- The old pipe is terminated, unless a message is being received from it. -/
theorem ready_handOver (hok : s.queue.Ok) (h : s.handOver old = .ok s') : s.Ready s' := by
  obtain ⟨table, -, ⟨-, rfl⟩ | ⟨-, rfl⟩⟩ := handOver_eq_ok h
  · exact ready_setTable hok table true
  obtain ⟨state, hterm⟩ := (s.queue.pipes old).terminate_eq true
  exact (ready_setTable hok table _).trans (ready_modify old
    (hok.modify (by rw [hterm]) ((hok.framed old).terminate true))
    (fun _ => Inlet.terminate_reading_of) (by rw [hterm]))

theorem ready_read (hok : s.queue.Ok) (hp : pipe ∉ s.queue.fq.pipes.items) {m : Msg}
    (hm : (s.queue.pipes pipe).read.1 = some m) :
    s.Ready { s with queue := s.queue.modify pipe (·.read.2) } := by
  have hread : (s.queue.pipes pipe).read = (some m, (s.queue.pipes pipe).read.2) :=
    Prod.ext hm rfl
  obtain ⟨-, -, -, rest, -, hi⟩ := Inlet.read_eq_some hread
  exact ready_modify pipe (read_ok hok hp) (fun _ => Inlet.read_reading_of) (by rw [hi])

theorem Naming.ready (hn : s.Naming pipe s1 id) (hok : s.queue.Ok)
    (hp : pipe ∉ s.queue.fq.pipes.items) : s.Ready s1 := by
  cases hn with
  | connectId hc => exact ready_setTable hok _ _
  | raw hr => exact ready_setTable hok _ _
  | unnamed hm hdata => exact (ready_read hok hp hm).trans (ready_setTable (read_ok hok hp) _ _)
  | named hm hdata => exact ready_read hok hp hm
  | takenOver hm hdata hold ho =>
    exact (ready_read hok hp hm).trans (ready_handOver (read_ok hok hp) ho)

/-- The result of identifying the peer at a pipe. -/
structure Identified (s : Router) (pipe : PipeId) (r : Bool) (s' : Router) : Prop where
  recv : s'.Recv
  keeps : s.Keeps s'
  listed : s'.Listed fun p => p ∈ s.queue.fq.pipes.items ∨ (r = true ∧ p = pipe)
  awake : r = true → (s'.queue.pipes pipe).inActive = true

/-- A computation identifies the peer, or one of the assertions about ids fails. -/
def Identifies (s : Router) (pipe : PipeId) (x : Except Fault (Bool × Router)) : Prop :=
  (∃ r s', x = .ok (r, s') ∧ s.Identified pipe r s') ∨ ∃ e, x = .error e ∧ IdFault e

/-- The old pipe stays in the table under another id. -/
theorem listed_handOver (hl : s.Listed (· ∈ s.queue.fq.pipes.items))
    (hold : old ∈ s.queue.fq.pipes.items) (h : s.handOver old = .ok s') :
    s'.Listed (· ∈ s.queue.fq.pipes.items) := by
  obtain ⟨table, he, hs'⟩ := handOver_eq_ok h
  have hl' : Listed { s with table } (· ∈ s.queue.fq.pipes.items) :=
    Listed.update (hl.erase old) (fun p hp => hp.1) hold (by rw [(enter_eq_ok he).2]; rfl)
  rcases hs' with ⟨-, rfl⟩ | ⟨-, rfl⟩
  · exact hl'
  · exact hl'

theorem recv_handOver (h : s.Recv) (hold : old ∈ s.queue.fq.pipes.items)
    (ho : s.handOver old = .ok s') : s'.Recv := by
  have hok := (ready_handOver h.ok ho).ok
  obtain ⟨table, -, ⟨hcur, rfl⟩ | ⟨hcur, rfl⟩⟩ := handOver_eq_ok ho
  · exact ⟨hok, h.holds, h.between, h.kept, h.ahead, h.current, h.idle, fun _ => ⟨old, hold, hcur⟩⟩
  refine (h.setTable table).setQueue hok rfl (fun p hp hc => hp.modify_of_ne ?_) fun p hp _ _ => hp
  rintro rfl
  exact hcur hc

section Identify

variable (h : s.Recv) (hl : s.Listed (· ∈ s.queue.fq.pipes.items))
  (hp : pipe ∉ s.queue.fq.pipes.items)

include h hp

theorem recv_read : Recv { s with queue := s.queue.modify pipe (·.read.2) } :=
  h.setQueue (read_ok h.ok hp) rfl (fun _ hh _ => hh.modify_of_ne (hh.ne_of_not_mem hp))
    fun _ hm _ _ => hm

include hl

theorem Naming.recv (hn : s.Naming pipe s1 id) :
    s1.Recv ∧ s1.Listed (· ∈ s.queue.fq.pipes.items) := by
  have hread := recv_read h hp
  cases hn with
  | connectId hc => exact ⟨h.setTable _, hl⟩
  | raw hr => exact ⟨h.setTable _, hl⟩
  | unnamed hm hdata => exact ⟨hread.setTable _, hl⟩
  | named hm hdata => exact ⟨hread, hl⟩
  | takenOver hm hdata hold ho =>
    exact ⟨recv_handOver hread (hl _ _ hold) ho, listed_handOver
      (s := { s with queue := s.queue.modify pipe (·.read.2) }) hl (hl _ _ hold) ho⟩

/-- `identify_peer` of a pipe that is not attached to the fair queue. -/
theorem identifies_identifyPeer (ha : (s.queue.pipes pipe).inActive = true)
    (locallyInitiated : Bool) :
    s.Identifies pipe (s.identifyPeer pipe locallyInitiated) := by
  refine (s.identifyPeer_names pipe locallyInitiated).imp_left ?_
  rintro ⟨r, s', heq, ⟨rfl, rfl⟩ | ⟨rfl, s1, id, table, hn, he, rfl⟩⟩
  · exact ⟨false, _, heq, recv_read h hp, s.keeps_read pipe, fun id o ho => .inl (hl id o ho),
      nofun⟩
  have hready := hn.ready h.ok hp
  obtain ⟨hrecv, hlisted⟩ := hn.recv h hl hp
  refine ⟨true, _, heq, hrecv.setTable table, hready.keeps.trans (keeps_setTable s1 table _),
    hlisted.update (fun p hp => .inl hp) (.inr ⟨rfl, rfl⟩) (by rw [(enter_eq_ok he).2]),
    fun _ => ?_⟩
  rw [← ha]
  exact hready.inActive pipe

end Identify

/-! ### Receiving -/

/-- The user has received the id of a message and not yet all of its parts. -/
def half (s : Router) : Bool := s.moreIn || (s.prefetched && s.routingIdSent)

/-- What receiving leaves alone. -/
structure Received (s s' : Router) : Prop where
  recv : s'.Recv
  advances : s.queue.Advances s'.queue
  table : s'.table = s.table
  anonymous : s'.anonymousPipes = s.anonymousPipes

theorem idFrame_more (id : Blob) (metadata : Bool) : (idFrame id metadata).more = true := by
  simp [idFrame, Msg.more, Msg.setFlags, Msg.initBuffer, Msg.moreFlag]

/-- At the end of a message the current pipe is still there, if it is to be terminated. -/
theorem endMessage_eq (hok : s.queue.Ok) (ht : s.terminateCurrentIn = true →
      ∃ p ∈ s.queue.fq.pipes.items, s.currentIn = some p) :
    ∃ queue, s.endMessage = .ok { s with queue, terminateCurrentIn := false, currentIn := none } ∧
      queue.Ok ∧ queue.fq = s.queue.fq ∧
      ∀ q, (queue.pipes q).reading = true → (s.queue.pipes q).reading = true := by
  cases hterm : s.terminateCurrentIn with
  | false =>
    refine ⟨s.queue, ?_, hok, rfl, fun _ h => h⟩
    simp [endMessage, hterm]
  | true =>
    obtain ⟨p, hp, hcur⟩ := ht hterm
    obtain ⟨state, heq⟩ := (s.queue.pipes p).terminate_eq true
    refine ⟨s.queue.modify p (·.terminate true), ?_,
      hok.modify (by rw [heq]) ((hok.framed p).terminate true), rfl, fun q hq => ?_⟩
    · simp [endMessage, hterm, hcur, attached, hp]
    · exact modify_reading p (·.terminate true) Inlet.terminate_reading_of q hq

theorem received_end {queue : FairQueue} (hok : queue.Ok) (hno : queue.fq.more = false)
    (ha : s.queue.Advances queue) (prefetchedMsg : Msg) (routingIdSent : Bool) :
    s.Received { s with
      queue, prefetchedMsg, routingIdSent, prefetched := false, moreIn := false,
      terminateCurrentIn := false, currentIn := none } where
  recv := {
    ok := hok
    holds := fun h => by rw [hno] at h; cases h
    between := fun _ => hno.symm
    kept := nofun
    ahead := nofun
    current := nofun
    idle := fun _ _ => rfl
    terminating := fun h => by cases h }
  advances := ha
  table := rfl
  anonymous := rfl

/-- A frame was received: it begins a message unless one is half received, and in that case
it is kept from the current pipe or read from a pipe that can still be read from. -/
structure Receives (s : Router) (frame : RecvFrame) (s' : Router) : Prop where
  received : s.Received s'
  first : frame.first = !s.half
  source : frame.first = false →
    (s.prefetched = true ∧ s.routingIdSent = true ∧ s.currentIn = some frame.pipe) ∨
      (s.queue.pipes frame.pipe).reading = true

theorem Recv.recvPrefetched_id (h : s.Recv) (hp : s.prefetched = true)
    (hs : s.routingIdSent = false) :
    ∃ frame s', s.recvPrefetched = .ok (frame, s') ∧ s.Receives frame s' := by
  obtain ⟨hmore, hno⟩ := h.ahead hp hs
  refine ⟨⟨s.currentIn.getD 0, s.prefetchedId, true⟩,
    { s with routingIdSent := true, prefetchedId := .init, moreIn := true }, ?_, ?_⟩
  · rw [recvPrefetched, if_pos (by simp [hs]), handOut, if_pos hmore]
  refine ⟨⟨⟨h.ok, h.holds, fun hp' => ?_, h.kept, nofun, h.current,
    nofun, h.terminating⟩, .of_fq_eq rfl fun _ hq => hq, rfl, rfl⟩, ?_,
    nofun⟩
  · rw [show s.prefetched = false from hp'] at hp
    cases hp
  · simp [half, hs, hno]

theorem Recv.recvPrefetched_msg (h : s.Recv) (hp : s.prefetched = true)
    (hs : s.routingIdSent = true) :
    ∃ frame s', s.recvPrefetched = .ok (frame, s') ∧ s.Receives frame s' := by
  obtain ⟨p, hcur⟩ := h.current hp
  have hpipe : s.currentIn.getD 0 = p := by rw [hcur, Option.getD_some]
  have hkept := h.kept hp
  have hfirst : (false : Bool) = !s.half := by simp [half, hp, hs]
  cases hmore : s.prefetchedMsg.more with
  | true =>
    rw [hmore] at hkept
    refine ⟨⟨p, s.prefetchedMsg, false⟩,
      { s with prefetched := false, prefetchedMsg := .init, moreIn := true }, ?_, ?_⟩
    · rw [recvPrefetched, if_neg (by simp [hs]), handOut, if_pos hmore, hpipe]
    · exact ⟨⟨⟨h.ok, h.holds, fun _ => hkept, nofun,
        nofun, nofun, nofun,
        h.terminating⟩, .of_fq_eq rfl fun _ hq => hq, rfl, rfl⟩, hfirst,
        fun _ => .inl ⟨hp, hs, hcur⟩⟩
  | false =>
    rw [hmore] at hkept
    obtain ⟨queue, heq, hok, hfq, hr⟩ := endMessage_eq
      (s := { s with prefetched := false, prefetchedMsg := .init, moreIn := false })
      h.ok h.terminating
    have ha : s.queue.Advances queue := .of_fq_eq hfq hr
    have hend := received_end hok (hfq ▸ hkept.symm) ha .init false
    refine ⟨⟨p, s.prefetchedMsg, false⟩, _, ?_, hend, hfirst, fun _ => .inl ⟨hp, hs, hcur⟩⟩
    rw [recvPrefetched, if_neg (by simp [hs]), handOut, if_neg (by simp [hmore]), heq, hpipe]

/-- The first part of a message is kept for later. -/
theorem Recv.received_ahead (h : s.Recv) {queue : FairQueue} {p : PipeId} {m : Msg}
    (hok : queue.Ok) (ha : s.queue.Advances queue) (hm : queue.fq.more = m.more)
    (hh : m.more = true → queue.Holds p) (hcur : s.currentIn = none)
    (prefetchedId : Msg) (routingIdSent : Bool)
    (hid : routingIdSent = false → prefetchedId.more = true ∧ s.moreIn = false) :
    s.Received { s with
      queue, prefetchedMsg := m, prefetchedId, prefetched := true, currentIn := some p,
      routingIdSent } where
  recv := {
    ok := hok
    holds := fun hq => ⟨p, hh (hm.symm.trans hq), rfl⟩
    between := nofun
    kept := fun _ => hm.symm
    ahead := fun _ hs => hid hs
    current := fun _ => ⟨p, rfl⟩
    idle := nofun
    terminating := fun ht => by
      obtain ⟨q, -, hq⟩ := h.terminating ht
      rw [hcur] at hq
      cases hq }
  advances := ha
  table := rfl
  anonymous := rfl

/-- A further part of the message that is being received. -/
theorem Recv.xrecv_more (h : s.Recv) {queue : FairQueue} {p : PipeId} {m : Msg}
    (hok : queue.Ok) (ha : s.queue.Advances queue) (hm : queue.fq.more = m.more)
    (hh : m.more = true → queue.Holds p) (hcur : s.currentIn = some p)
    (hp : s.prefetched = false) :
    ∃ s', (if m.more then .ok (some ⟨p, m, false⟩, { s with queue, moreIn := m.more })
        else ({ s with queue, moreIn := m.more } : Router).endMessage.map
          fun s => (some (⟨p, m, false⟩ : RecvFrame), s)) = Except.ok (some ⟨p, m, false⟩, s') ∧
      s.Received s' := by
  have hterm : s.terminateCurrentIn = true → ∃ q ∈ queue.fq.pipes.items, s.currentIn = some q := by
    intro ht
    obtain ⟨q, hq, hqc⟩ := h.terminating ht
    exact ⟨q, (ha.mem q).mpr hq, hqc⟩
  have hno : ¬ s.prefetched = true := by simp [hp]
  by_cases hmore : m.more = true
  · rw [if_pos hmore]
    refine ⟨_, rfl, ⟨hok, fun _ => ⟨p, hh hmore, hcur⟩, fun _ => hm.symm, fun hp' => absurd hp' hno,
      fun hp' => absurd hp' hno, fun hp' => absurd hp' hno, fun _ hmi => ?_, hterm⟩, ha, rfl, rfl⟩
    rw [show m.more = false from hmi] at hmore
    cases hmore
  rw [if_neg hmore]
  have hlast : m.more = false := by simpa using hmore
  obtain ⟨queue', heq, hok', hfq, hr⟩ := endMessage_eq
    (s := { s with queue, moreIn := m.more }) hok hterm
  rw [heq]
  refine ⟨_, rfl, ⟨hok', fun hb => ?_, fun _ => ?_, fun hp' => absurd hp' hno,
    fun hp' => absurd hp' hno, fun hp' => absurd hp' hno, fun _ _ => rfl, nofun⟩,
    ha.trans (.of_fq_eq hfq hr), rfl, rfl⟩
  · rw [show queue'.fq.more = m.more from (congrArg Fq.more hfq).trans hm, hlast] at hb
    cases hb
  · exact ((congrArg Fq.more hfq).trans hm).symm

/-- Receiving never faults, and hands out the frames of one message after the other. -/
theorem Recv.xrecv (h : s.Recv) :
    (∃ frame s', s.xrecv = .ok (some frame, s') ∧ s.Receives frame s') ∨
    (∃ queue, s.xrecv = .ok (none, { s with queue }) ∧ s.Received { s with queue }) := by
  rcases Bool.eq_false_or_eq_true s.prefetched with hp | hp
  · have hrecv : ∃ frame s', s.recvPrefetched = .ok (frame, s') ∧ s.Receives frame s' := by
      cases hs : s.routingIdSent with
      | false => exact h.recvPrefetched_id hp hs
      | true => exact h.recvPrefetched_msg hp hs
    obtain ⟨frame, s', heq, hr⟩ := hrecv
    exact .inl ⟨frame, s', by rw [Router.xrecv, if_pos hp, heq]; rfl, hr⟩
  have hbetween := h.between hp
  have hhalf : s.half = s.moreIn := by simp [half, hp]
  rw [Router.xrecv, if_neg (by simp [hp])]
  rcases h.steady.recvUser (s.queue.held + 1) (Nat.lt_succ_self _) with
    ⟨p, m, queue, heq, hok, ha, hm, hh, hheld, hread⟩ | ⟨queue, heq, hok, ha, hno, hno'⟩
  · rw [heq]
    dsimp only
    rcases Bool.eq_false_or_eq_true s.moreIn with hmi | hmi
    · obtain ⟨q, hq, hcur⟩ := h.holds (hbetween.symm.trans hmi)
      obtain rfl := hq.current.unique (hheld (hbetween.symm.trans hmi)).current
      obtain ⟨s', heq', hr⟩ := h.xrecv_more hok ha hm hh hcur hp
      rw [if_pos hmi]
      exact .inl ⟨_, s', heq', hr, by rw [hhalf, hmi]; rfl, fun _ => .inr hread⟩
    rw [if_neg (by simp [hmi])]
    refine .inl ⟨_, _, rfl, h.received_ahead hok ha hm hh (h.idle hp hmi) s.prefetchedId true
      nofun, ?_, nofun⟩
    rw [hhalf, hmi]
    rfl
  · rw [heq]
    refine .inr ⟨queue, rfl, h.setQueue hok (hno'.trans hno.symm) (fun p hp => ?_)
      fun p hmem _ _ => (ha.mem p).mpr hmem, ha, rfl, rfl⟩
    rw [hp.more] at hno
    cases hno

/-- Polling never faults; it may keep the first part of a message. -/
theorem Recv.xhasIn (h : s.Recv) :
    ∃ r s', s.xhasIn = .ok (r, s') ∧ s.Received s' ∧
      (s'.prefetched = true → s'.routingIdSent = true →
        s.prefetched = true ∧ s.routingIdSent = true ∧ s'.currentIn = s.currentIn) := by
  unfold Router.xhasIn
  split
  · exact ⟨true, s, rfl, ⟨h, .of_fq_eq rfl fun _ hq => hq, rfl, rfl⟩, fun hp hs => ⟨hp, hs, rfl⟩⟩
  rename_i hcond
  simp only [Bool.or_eq_true, not_or, Bool.not_eq_true] at hcond
  obtain ⟨hmi, hp⟩ := hcond
  rcases h.steady.recvUser (s.queue.held + 1) (Nat.lt_succ_self _) with
    ⟨p, m, queue, heq, hok, ha, hm, hh, -, -⟩ | ⟨queue, heq, hok, ha, hno, hno'⟩
  · rw [heq]
    refine ⟨true, _, rfl, h.received_ahead hok ha hm hh (h.idle hp hmi) _ false
      (fun _ => ⟨idFrame_more _ _, hmi⟩), nofun⟩
  rw [heq]
  refine ⟨false, _, rfl, ⟨h.setQueue hok (hno'.trans hno.symm) (fun p hp => ?_)
    fun p hmem _ _ => (ha.mem p).mpr hmem, ha, rfl, rfl⟩, fun hp hs => ⟨hp, hs, rfl⟩⟩
  rw [hp.more] at hno
  cases hno

end Router

end ServerLink

import ServerLink.Core.Disconnect

/-!
# ServerLink.Core.RouterFrame

What a ROUTER does at one pipe leaves another pipe alone, as long as the socket does not read from
that pipe: it is not in the fair queue yet. The socket may still terminate it, and that does not
change what it holds (`Router.Spares`). At the pipe itself, the socket reads one message to
identify the peer (`Router.identifyPeer_reads`).
-/

namespace ServerLink

open FairQueue List Checked CheckedRun Function

/-! ### The fair queue -/

namespace ArrayT

variable {α : Type} [DecidableEq α] {a : ArrayT α} {x : α}

theorem of_mem_swap {i j : Nat} (h : x ∈ (a.swap i j).items) : x ∈ a.items := by
  unfold swap at h
  split at h
  · rename_i y z hy hz
    rcases mem_or_eq_of_mem_set h with h | rfl
    · rcases mem_or_eq_of_mem_set h with h | rfl
      · exact h
      · exact mem_of_getElem? hz
    · exact mem_of_getElem? hy
  · exact h

theorem of_mem_erase {y : α} (h : x ∈ (a.erase y).items) : x ∈ a.items := by
  unfold erase at h
  split at h
  · exact h
  rename_i back hback
  rcases mem_or_eq_of_mem_set (mem_of_mem_dropLast h) with h | rfl
  · exact h
  · exact mem_of_mem_getLast? hback

end ArrayT

namespace FairQueue

/-- A pipe that is not in the queue stays as it is. -/
def Misses (p : PipeId) (b b' : FairQueue) : Prop :=
  p ∉ b.fq.pipes.items → p ∉ b'.fq.pipes.items ∧ b'.pipes p = b.pipes p

variable {p : PipeId} {b b' b'' : FairQueue}

theorem Misses.trans (h : Misses p b b') (h' : Misses p b' b'') : Misses p b b'' := by
  intro hp
  obtain ⟨hp', heq⟩ := h hp
  obtain ⟨hp'', heq'⟩ := h' hp'
  exact ⟨hp'', heq'.trans heq⟩

theorem misses_refl (p : PipeId) (b : FairQueue) : Misses p b b := fun hp => ⟨hp, rfl⟩

theorem misses_update {q : PipeId} {fq : Fq} (hq : p ∉ b.fq.pipes.items → p ≠ q) (i : Inlet)
    (hfq : p ∈ fq.pipes.items → p ∈ b.fq.pipes.items) :
    Misses p b ⟨fq, update b.pipes q i⟩ :=
  fun hp => ⟨fun hmem => hp (hfq hmem), update_of_ne (hq hp) _ _⟩

theorem misses_activateRead {q : PipeId} (hne : p ≠ q) : Misses p b (b.activateRead q) := by
  unfold activateRead
  split
  · exact misses_update (fun _ => hne) _ ArrayT.of_mem_swap
  · exact misses_refl p b

theorem misses_pipeTerminated (q : PipeId) : Misses p b (b.pipeTerminated q) := by
  refine fun hp => ⟨fun hmem => hp ?_, rfl⟩
  unfold pipeTerminated Fq.pipeTerminated at hmem
  dsimp only at hmem
  split at hmem
  · exact ArrayT.of_mem_swap (ArrayT.of_mem_erase hmem)
  · exact ArrayT.of_mem_erase hmem

theorem misses_attach {q : PipeId} (hne : p ≠ q) (i : Inlet) : Misses p b (b.attach q i) := by
  refine misses_update (fun _ => hne) i fun hmem => ?_
  have hmem := ArrayT.of_mem_swap hmem
  rcases mem_append.mp hmem with hmem | hmem
  · exact hmem
  · exact absurd (mem_singleton.mp hmem) hne

/-- Only pipes of the queue are read from. -/
theorem misses_recvLoop (p : PipeId) (fuel : Nat) (b : FairQueue) :
    Ensures (b.recvLoop fuel) (Misses p b ·.2) := by
  induction fuel generalizing b with
  | zero => exact .ok (misses_refl p b)
  | succ fuel ih =>
    refine .ite (fun _ => .ok (misses_refl p b)) fun _ => ?_
    split
    · exact .error _ _
    rename_i q hq
    -- the pipe that is read from is in the queue
    have hne : p ∉ b.fq.pipes.items → p ≠ q := fun hp heq => hp (heq ▸ mem_of_getElem? hq)
    split
    · exact .ok (misses_update hne _ id)
    · refine .ite (fun _ => .error _ _) fun _ => (ih _).mono fun _ => ?_
      exact (misses_update hne _ ArrayT.of_mem_swap).trans

theorem misses_recvUser (p : PipeId) (fuel : Nat) (b : FairQueue) :
    Ensures (b.recvUser fuel) (Misses p b ·.2) := by
  induction fuel generalizing b with
  | zero => exact .ok (misses_refl p b)
  | succ fuel ih =>
    unfold recvUser
    split
    · exact .error _ _
    · exact .ok (misses_recvLoop p _ b _ ‹_›)
    have hr := misses_recvLoop p _ b _ ‹_›
    exact .ite (fun _ => (ih _).mono fun _ => hr.trans) fun _ => .ok hr

end FairQueue

/-! ### The socket -/

namespace Router

variable {locallyInitiated r : Bool}

/-- The socket does not read from the pipe, and it stays anonymous if it was. -/
structure Spares (p : PipeId) (s s' : Router) : Prop where
  unread : p ∉ s.queue.fq.pipes.items → p ∉ s'.queue.fq.pipes.items ∧
    (s'.queue.pipes p).parts = (s.queue.pipes p).parts ∧
    (s'.queue.pipes p).inActive = (s.queue.pipes p).inActive ∧
    ((s'.queue.pipes p).reading = true → (s.queue.pipes p).reading = true)
  anonymous : p ∈ s'.anonymousPipes ↔ p ∈ s.anonymousPipes
  connectId : s.table.connectRoutingId = [] → s'.table.connectRoutingId = []
  raw : s'.rawSocket = s.rawSocket

variable {p q : PipeId} {s s' s'' : Router}

theorem Spares.trans (h : Spares p s s') (h' : Spares p s' s'') : Spares p s s'' where
  unread hp := by
    obtain ⟨hp', hparts, hact, hread⟩ := h.unread hp
    obtain ⟨hp'', hparts', hact', hread'⟩ := h'.unread hp'
    exact ⟨hp'', hparts'.trans hparts, hact'.trans hact, fun hr => hread (hread' hr)⟩
  anonymous := h'.anonymous.trans h.anonymous
  connectId hc := h'.connectId (h.connectId hc)
  raw := h'.raw.trans h.raw

/-- Only the queue changes, and the rest of the socket in ways that do not matter here. -/
theorem spares_of_misses (hq : FairQueue.Misses p s.queue s'.queue)
    (ha : s'.anonymousPipes = s.anonymousPipes)
    (hc : s.table.connectRoutingId = [] → s'.table.connectRoutingId = [])
    (hr : s'.rawSocket = s.rawSocket) : Spares p s s' where
  unread hp := by
    obtain ⟨hp', heq⟩ := hq hp
    rw [heq]
    exact ⟨hp', rfl, rfl, id⟩
  anonymous := by rw [ha]
  connectId := hc
  raw := hr

/-- What is looked at does not change. -/
theorem spares_of_eq (hq : s'.queue = s.queue) (ha : s'.anonymousPipes = s.anonymousPipes)
    (ht : s'.table = s.table) (hr : s'.rawSocket = s.rawSocket) : Spares p s s' :=
  spares_of_misses (hq ▸ misses_refl p _) ha (fun hc => ht ▸ hc) hr

theorem spares_refl (p : PipeId) (s : Router) : Spares p s s := spares_of_eq rfl rfl rfl rfl

theorem spares_setTable (s : Router) (table : RoutingTable)
    (hc : s.table.connectRoutingId = [] → table.connectRoutingId = []) :
    Spares p s { s with table } :=
  spares_of_misses (misses_refl p _) rfl hc rfl

theorem spares_setAnonymous (s : Router) {anonymousPipes : Finset PipeId}
    (ha : p ∈ anonymousPipes ↔ p ∈ s.anonymousPipes) : Spares p s { s with anonymousPipes } where
  unread hp := ⟨hp, rfl, rfl, id⟩
  anonymous := ha
  connectId := id
  raw := rfl

/-- The state of a pipe changes, which may be `p`. -/
theorem spares_setState (s : Router) (q : PipeId) {f : Inlet → Inlet}
    (hparts : ∀ i, (f i).parts = i.parts) (hact : ∀ i, (f i).inActive = i.inActive)
    (hr : ∀ i, (f i).reading = true → i.reading = true) :
    Spares p s { s with queue := s.queue.modify q f } where
  unread hp := by
    refine ⟨hp, ?_⟩
    by_cases hq : p = q
    · subst hq
      have heq : (s.queue.modify p f).pipes p = f (s.queue.pipes p) := update_self _ _ _
      exact ⟨by rw [heq, hparts], by rw [heq, hact], fun hread => hr _ (heq ▸ hread)⟩
    · have heq : (s.queue.modify q f).pipes p = s.queue.pipes p := update_of_ne hq _ _
      exact ⟨by rw [heq], by rw [heq], fun hread => heq ▸ hread⟩
  anonymous := Iff.rfl
  connectId := id
  raw := rfl

/-- `terminate` leaves alone what a pipe holds, be it `p` itself. -/
theorem spares_terminate (s : Router) (q : PipeId) (delay : Bool) :
    Spares p s { s with queue := s.queue.modify q (·.terminate delay) } := by
  refine spares_setState s q (fun i => ?_) (fun i => ?_) fun i => Inlet.terminate_reading_of
  all_goals
    obtain ⟨state, heq⟩ := i.terminate_eq delay
    rw [heq]

theorem spares_processPipeTerm (s : Router) (q : PipeId) :
    Spares p s { s with queue := s.queue.modify q Inlet.processPipeTerm } := by
  refine spares_setState s q (fun i => ?_) (fun i => ?_) fun i hr => i.processPipeTerm_reading ▸ hr
  all_goals
    obtain ⟨state, heq⟩ := i.processPipeTerm_eq
    rw [heq]

theorem spares_modify (s : Router) (hne : p ≠ q) (f : Inlet → Inlet) :
    Spares p s { s with queue := s.queue.modify q f } :=
  spares_of_misses (misses_update (fun _ => hne) _ id) rfl id rfl

/-! ### Identifying peers -/

theorem enter_connectRoutingId {t t' : RoutingTable} {id : Blob} (h : t.enter q id = .ok t') :
    t'.connectRoutingId = t.connectRoutingId := by
  rw [(enter_eq_ok h).2]

/-- The pipe that is taken over from may be `p`: it is terminated at most. -/
theorem spares_handOver (h : s.handOver q = .ok s') : Spares p s s' := by
  obtain ⟨table, he, hs'⟩ := handOver_eq_ok h
  have ht : Spares p s { s with table } :=
    spares_setTable s table fun hc => (enter_connectRoutingId he).trans hc
  rcases hs' with ⟨-, rfl⟩ | ⟨-, rfl⟩
  · exact ⟨ht.unread, ht.anonymous, ht.connectId, ht.raw⟩
  · exact ht.trans (spares_terminate { s with table } q true)

/-- Finding an id for a pipe reads from that pipe at most. -/
theorem Naming.spares_or_read {id : Blob} (h : s.Naming q s' id) :
    Spares p s s' ∨ Spares p { s with queue := s.queue.modify q (·.read.2) } s' := by
  cases h with
  | connectId hc => exact .inl (spares_setTable s _ fun _ => rfl)
  | raw hr => exact .inl (spares_setTable s _ id)
  | unnamed hm hdata => exact .inr (spares_setTable _ _ id)
  | named hm hdata => exact .inr (spares_of_misses (misses_refl p _) rfl id rfl)
  | takenOver hm hdata hold ho => exact .inr (spares_handOver ho)

/-- `identify_peer` reads from its own pipe at most. -/
theorem spares_or_read (h : s.identifyPeer q locallyInitiated = .ok (r, s')) :
    Spares p s s' ∨ Spares p { s with queue := s.queue.modify q (·.read.2) } s' := by
  rcases identifyPeer_eq_ok h with ⟨-, rfl⟩ | ⟨-, s1, id, table, hn, he, rfl⟩
  · exact .inr (spares_of_misses (misses_refl p _) rfl (fun hc => hc) rfl)
  · have ht : Spares p s1 { s1 with table } :=
      spares_setTable s1 table fun hc => (enter_connectRoutingId he).trans hc
    exact hn.spares_or_read.imp (·.trans ht) (·.trans ht)

/-- At another pipe, one message may be read and an id entered. -/
theorem spares_identifyPeer (hne : p ≠ q)
    (h : s.identifyPeer q locallyInitiated = .ok (r, s')) : Spares p s s' := by
  rcases spares_or_read (p := p) h with hs | hs
  · exact hs
  · exact (spares_modify s hne (·.read.2)).trans hs

/-- The anonymous pipes are left to the caller. -/
theorem identifyPeer_anonymous (p : PipeId) (h : s.identifyPeer q locallyInitiated = .ok (r, s')) :
    p ∈ s'.anonymousPipes ↔ p ∈ s.anonymousPipes := by
  rcases spares_or_read (p := p) h with hs | hs
  · exact hs.anonymous
  · exact hs.anonymous

/-- What `identify_peer` makes of the first message at the pipe, when the user has set no id for
it: the pipe stays anonymous, or the message names it. -/
theorem identifyPeer_reads (hc : s.table.connectRoutingId = []) (hr : s.rawSocket = false)
    (h : s.identifyPeer p locallyInitiated = .ok (r, s')) :
    (r = false ∧ s' = { s with queue := s.queue.modify p (·.read.2) }) ∨
    (r = true ∧ ∃ m, (s.queue.pipes p).read.1 = some m ∧
      (m.data ≠ [] → s'.table.routingId p = m.data) ∧
      (m.data = [] → ∃ n, s'.table.routingId p = 0 :: putUint32 n)) := by
  refine (identifyPeer_eq_ok h).imp_right ?_
  rintro ⟨rfl, s1, id, table, hn, he, rfl⟩
  have hid : table.routingId p = id := by
    rw [(enter_eq_ok he).2]
    exact update_self _ _ _
  refine ⟨rfl, ?_⟩
  cases hn with
  | connectId hc' => exact absurd hc hc'
  | raw hr' =>
    rw [hr] at hr'
    cases hr'
  | unnamed hm hdata => exact ⟨_, hm, fun hne => absurd hdata hne, fun _ => ⟨_, hid⟩⟩
  | named hm hdata => exact ⟨_, hm, fun _ => hid, fun hnil => absurd hnil hdata⟩
  | takenOver hm hdata hold ho => exact ⟨_, hm, fun _ => hid, fun hnil => absurd hnil hdata⟩

theorem spares_fqAttach (s : Router) (hne : p ≠ q) : Spares p s (s.fqAttach q) :=
  spares_of_misses (misses_attach hne _) rfl id rfl

/-- Another pipe goes into the queue, or it stays anonymous. -/
theorem spares_xattachPipe (hne : p ≠ q) :
    Ensures (s.xattachPipe q locallyInitiated) (Spares p s) := by
  unfold xattachPipe
  split
  · exact .error _ _
  · exact .ok ((spares_identifyPeer hne ‹_›).trans (spares_fqAttach _ hne))
  · exact .ok ((spares_identifyPeer hne ‹_›).trans (spares_setAnonymous _ (by simp [hne])))

/-- Another pipe wakes up, and is identified if it was anonymous. -/
theorem spares_activateRead (hne : p ≠ q) : Ensures (s.activateRead q) (Spares p s) := by
  refine .ite (fun _ => .ite (fun _ => ?_) fun _ => .ok (spares_refl p s)) fun _ =>
    .ok (spares_of_misses (misses_activateRead hne) rfl id rfl)
  have hawake := spares_modify s hne fun i => { i with inActive := true }
  unfold identifyActivated
  split
  · exact .error _ _
  · have hid := hawake.trans (spares_identifyPeer hne ‹_›)
    exact .ok ((hid.trans (spares_setAnonymous _ (by simp [hne]))).trans (spares_fqAttach _ hne))
  · exact .ok (hawake.trans (spares_identifyPeer hne ‹_›))

theorem spares_xpipeTerminated (s : Router) (hne : p ≠ q) : Spares p s (s.xpipeTerminated q) := by
  unfold xpipeTerminated
  split
  · refine spares_setAnonymous s ?_
    simp [hne]
  · exact spares_of_misses (misses_pipeTerminated q) rfl id rfl

/-! ### Receiving -/

/-- A handover that waited for the end of the message terminates its pipe. -/
theorem spares_endMessage (p : PipeId) (s : Router) : Ensures s.endMessage (Spares p s) := by
  refine .ite (fun _ => ?_) fun _ => .ok (spares_of_eq rfl rfl rfl rfl)
  split
  · exact .error _ _
  · have ht := spares_terminate (p := p) s ‹_› true
    exact .ite (fun _ => .ok ⟨ht.unread, ht.anonymous, ht.connectId, ht.raw⟩) fun _ => .error _ _

theorem spares_handOut (p : PipeId) (s : Router) (frame : RecvFrame) :
    Ensures (s.handOut frame) (Spares p s ·.2) := by
  refine .ite (fun _ => .ok (spares_of_eq rfl rfl rfl rfl)) fun _ => ?_
  split
  · exact .error _ _
  · have he := spares_endMessage p _ _ ‹_›
    exact .ok ⟨he.unread, he.anonymous, he.connectId, he.raw⟩

/-- Parts are taken from the queue, and the prefetch buffers change. -/
theorem spares_recvUser {fuel : Nat} {r : Option (PipeId × Msg)} {queue : FairQueue}
    (h : s.queue.recvUser fuel = .ok (r, queue)) (hq : s'.queue = queue)
    (ha : s'.anonymousPipes = s.anonymousPipes) (ht : s'.table = s.table)
    (hr : s'.rawSocket = s.rawSocket) : Spares p s s' :=
  spares_of_misses (hq ▸ misses_recvUser p _ _ _ h) ha (fun hc => ht ▸ hc) hr

theorem spares_recvPrefetched (p : PipeId) (s : Router) :
    Ensures s.recvPrefetched (Spares p s ·.2) := by
  refine .ite (fun _ => ?_) fun _ => ?_
  all_goals
    exact (spares_handOut p _ _).mono fun _ h => ⟨h.unread, h.anonymous, h.connectId, h.raw⟩

theorem spares_xrecv (p : PipeId) (s : Router) : Ensures s.xrecv (Spares p s ·.2) := by
  refine .ite (fun _ => .map fun x hx => spares_recvPrefetched p s x hx) fun _ => ?_
  split
  · exact .error _ _
  · exact .ok (spares_recvUser ‹_› rfl rfl rfl rfl)
  rename_i m queue hq
  refine .ite (fun _ => ?_) fun _ => .ok (spares_recvUser hq rfl rfl rfl rfl)
  have hs : Spares p s { s with queue, moreIn := m.more } := spares_recvUser hq rfl rfl rfl rfl
  exact .ite (fun _ => .ok hs) fun _ => .map fun t ht => hs.trans (spares_endMessage p _ t ht)

theorem spares_xhasIn (p : PipeId) (s : Router) : Ensures s.xhasIn (Spares p s ·.2) := by
  refine .ite (fun _ => .ok (spares_refl p s)) fun _ => ?_
  split
  · exact .error _ _
  · exact .ok (spares_recvUser ‹_› rfl rfl rfl rfl)
  · exact .ok (spares_recvUser ‹_› rfl rfl rfl rfl)

/-! ### Steps -/

/-- The action is at another pipe and sets no option that matters to how peers are named. -/
def Avoids (p : PipeId) : RouterAction → Prop
  | .attach q _ _ | .event q _ | .activateRead q | .disconnect q | .pipeTerminated q => p ≠ q
  | .setConnectRoutingId _ | .setRaw => False
  | .setHandover _ | .xrecv | .xhasIn => True

/-- Whatever happens elsewhere spares the pipe. -/
theorem spares_step {a : RouterAction} {dropped : Finset PipeId} (ha : Avoids p a) :
    Ensures (step ⟨s, dropped⟩ a) (Spares p s ·.socket) := by
  cases a with
  | attach q held locallyInitiated =>
    exact .ite (fun _ => .ok (spares_refl p s)) fun _ => .map fun t ht =>
      (spares_modify s ha _).trans (spares_xattachPipe ha t ht)
  | event q e => exact .ok (spares_modify s ha _)
  | activateRead q =>
    exact .ite (fun _ => .map (spares_activateRead ha)) fun _ => .ok (spares_refl p s)
  | disconnect q => exact .ok (spares_modify s ha _)
  | pipeTerminated q =>
    exact .ite (fun _ => .ok (spares_xpipeTerminated s ha)) fun _ => .ok (spares_refl p s)
  | setConnectRoutingId id => exact ha.elim
  | setHandover value => exact .ok (spares_of_eq rfl rfl rfl rfl)
  | setRaw => exact ha.elim
  | xrecv =>
    simp only [step]
    split
    · exact .error _ _
    · exact .ok (spares_xrecv p s _ ‹_›)
    · exact .ok (spares_xrecv p s _ ‹_›)
  | xhasIn => exact .map (spares_xhasIn p s)

end Router

end ServerLink

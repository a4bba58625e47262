import ServerLink.Core.Ledger

/-!
# ServerLink.Core.Bookkeeping

Every method of sockets, sessions, listeners and connecters keeps the books in order; the one that
joins inproc sockets does so only if the counters of commands are left out. A method that ends with
`check_term_acks` is cut before the check, so that something can be said about the context in which
the check is made.
-/

namespace ServerLink

open Checked OwnCommand Arena Obj

namespace Ctx

variable {e : Bool} {s t : Ctx} {o c : ObjId} {x : Obj} {k : Nat} {hand : ObjId → List OwnCommand}
variable {b : SessionBase} {value : Int}

/-! ### Methods without a check -/

/-- The body changes, but not what the books know of it. -/
theorem Ledger.setBody (h : s.Ledger e k hand) {body : Body}
    (hbody : ∀ x, s.objects.cell o = some x → body.pending = x.body.pending ∧
      body.pipes.length = x.body.pipes.length ∧
      (body.options?.isSome = true → x.body.options?.isSome = true)) :
    Ensures (s.setBody o body) (Ledger e k hand) := by
  refine h.modify (Nat.le_refl k) (fun _ _ => rfl) fun x hx hb => ?_
  obtain ⟨hpending, hpipes, hkind⟩ := hbody x hx
  refine ⟨node_eq rfl rfl rfl rfl hpending (List.Perm.refl _), hb.seqnum, hb.room, ?_,
    hb.closed, fun hs => hb.root (hkind hs)⟩
  rw [hpipes]
  exact hb.termAcks

theorem Ledger.setBody_session (h : s.Ledger e k hand) (hx : s.objects.cell o = some x)
    {b' : SessionBase} (hb : x.body = .session b) (hpending : b'.pending = b.pending) :
    Ensures (s.setBody o (.session b')) (Ledger e k hand) := by
  refine h.setBody fun y hy => ?_
  cases hx.symm.trans hy
  rw [hb]
  exact ⟨hpending, rfl, id⟩

/-- The pipes of a socket change, and the acknowledgements that are awaited with them. -/
theorem Ledger.setPipes (h : s.Ledger e k hand) (hx : s.objects.cell o = some x) {b : SocketBase}
    (hb : x.body = .socket b) {pipes : List PipeId} {termAcks : Int}
    (hacks : termAcks + (if x.own.terminating then (b.pipes.length : Int) else 0) =
      x.own.termAcks + if x.own.terminating then (pipes.length : Int) else 0) :
    (s.set o { x with
      own := { x.own with termAcks }, body := .socket { b with pipes } }).Ledger e k hand := by
  have hbal := h.balanced o x hx
  refine h.set hx (Nat.le_refl k) (fun _ _ => rfl)
    (node_eq rfl rfl rfl rfl (by rw [hb]; rfl) (List.Perm.refl _))
    ⟨hbal.seqnum, hbal.room, ?_, hbal.closed, fun _ => hbal.root (by rw [hb]; rfl)⟩
  have := hbal.termAcks
  simp only [hb, Body.pipes] at this ⊢
  omega

theorem Ledger.attachPipe (h : s.Ledger e k hand) (o : ObjId) (pipe : PipeId) :
    Ensures (s.attachPipe o pipe) (Ledger e k hand) := by
  refine ensures_get fun x hx => ?_
  split
  · rename_i b hbody
    intro t ht
    obtain ⟨s1, h1, ht⟩ := bind_eq_ok ht
    obtain rfl := modify_of_cell hx h1
    split at ht
    · rename_i hterm
      obtain rfl := modify_of_cell (cell_set _ _ _) ht
      rw [Ctx.set, Ctx.set, set_set]
      refine h.setPipes hx hbody ?_
      simp only [hterm, if_true, List.length_append, List.length_singleton]
      omega
    · rename_i hterm
      cases ht
      refine h.setPipes hx hbody ?_
      rw [if_neg hterm, if_neg hterm]
  · exact .error _ _

theorem modify_cell_of_ne {q : ObjId} (hq : q ≠ o) {f : Obj → Obj} (h : s.modify o f = .ok t) :
    t.objects.cell q = s.objects.cell q := by
  obtain ⟨x, -, rfl⟩ := modify_eq_ok h
  exact cell_set_of_ne _ _ hq

theorem attachPipe_cell_of_ne {q : ObjId} (hq : q ≠ o) {pipe : PipeId}
    (h : s.attachPipe o pipe = .ok t) : t.objects.cell q = s.objects.cell q := by
  obtain ⟨x, -, h⟩ := bind_eq_ok h
  split at h
  · obtain ⟨s1, h1, h⟩ := bind_eq_ok h
    rw [← modify_cell_of_ne hq h1]
    split at h
    · exact modify_cell_of_ne hq h
    · rw [Except.ok.inj h]
  · cases h

theorem Ledger.setEndpoints (h : s.Ledger e k hand)
    (f : List EndpointRecord → List EndpointRecord) :
    Ensures (s.modify o fun x =>
      match x.body with
      | .socket b => { x with body := .socket { b with endpoints := f b.endpoints } }
      | _ => x) (Ledger e k hand) := by
  refine h.modify (Nat.le_refl k) (fun _ _ => rfl) fun x _ hb => ?_
  split
  · rename_i b hbody
    refine ⟨node_eq rfl rfl rfl rfl (by rw [hbody]; rfl) (List.Perm.refl _),
      hb.seqnum, hb.room, ?_, hb.closed, fun _ => hb.root (by rw [hbody]; rfl)⟩
    have := hb.termAcks
    rwa [hbody] at this
  · exact ⟨rfl, hb⟩

theorem Ledger.addEndpoint (h : s.Ledger e (k + 1) hand) {r : EndpointRecord}
    (hr : ∀ c, r.child = some c → o < c ∧ ∀ y, s.objects.cell c = some y →
      y.body.options? = none ∧ (y.node (hand c)).told = 0) :
    Ensures (s.addEndpoint o r) (Ledger e k hand) := by
  refine Ensures.bind (P := Ledger e k hand) ?_ fun s' h' => ?_
  · split
    · exact .ok (h.mono (Nat.le_succ k))
    · rename_i c hc
      exact h.launchChild (hr c hc).1 (hr c hc).2
  · exact h'.setEndpoints (· ++ [r])

theorem told_newObject {options : Options} {body : Body} (hbody : body.pending = false)
    (hkind : body.options? = none) (hhand : links (hand s.objects.next) = []) (y : Obj)
    (hy : (s.newObject options body).objects.cell s.objects.next = some y) :
    y.body.options? = none ∧ (y.node (hand s.objects.next)).told = 0 := by
  cases (cell_alloc_next _ _).symm.trans hy
  have hnode : node (hand s.objects.next) { own := { options }, body } =
      node [] { own := { options }, body } := by
    refine node_eq rfl rfl rfl rfl rfl ?_
    rw [links_append, hhand]
    rfl
  refine ⟨hkind, ?_⟩
  rw [hnode]
  simp [node, hbody]

theorem Ledger.bindTcp (h : s.Ledger e (k + 1) idle) (hk : k + 1 < 2 ^ 32)
    (hx : s.objects.cell o = some x) (b : SocketBase) (address : String) :
    Ensures (s.bindTcp o b address) (Ledger e k idle) := by
  have hnew : (s.newObject b.options (.listener o)).Ledger e (k + 1) idle :=
    h.newObject hk rfl b.options rfl
  refine hnew.addEndpoint fun c hc => ?_
  cases hc
  exact ⟨h.forest.created o _ (forest_cell _ hx), told_newObject rfl rfl rfl⟩

theorem Ledger.connectTcp (h : s.Ledger e (k + 1) idle) (hk : k + 1 < 2 ^ 32)
    (hx : s.objects.cell o = some x) (b : SocketBase) (address : String) :
    Ensures (s.connectTcp o b address) (Ledger e k idle) := by
  have hlt : o < s.objects.next := h.forest.created o _ (forest_cell _ hx)
  refine .ite (fun _ => ?_) fun _ => ?_
  · have hnew : (s.newObject b.options (.session (activeSession o address none))).Ledger e
        (k + 1) idle := h.newObject hk rfl b.options rfl
    refine hnew.addEndpoint fun c hc => ?_
    cases hc
    exact ⟨hlt, told_newObject rfl rfl rfl⟩
  have hpair : s.pipepair.Ledger e (k + 1) idle := h.of_objects rfl
  have hnew : (s.pipepair.newObject b.options
      (.session (activeSession o address (some (s.nextPipe + 1))))).Ledger e (k + 1) idle :=
    hpair.newObject hk rfl b.options rfl
  intro t ht
  obtain ⟨s1, h1, ht⟩ := bind_eq_ok ht
  refine (hnew.attachPipe o s.nextPipe s1 h1).addEndpoint (fun c hc => ?_) t ht
  cases hc
  -- the pipe is attached to the socket, not to the session
  refine ⟨hlt, fun y hy => ?_⟩
  rw [attachPipe_cell_of_ne (Nat.ne_of_gt hlt) h1] at hy
  exact told_newObject (s := s.pipepair) rfl rfl rfl y hy

/-- The `bind` to a peer that is bound is not counted. -/
theorem Ledger.connectInproc (h : s.Ledger e (k + 1) idle) {address : String}
    (hfree : e = true → s.findEndpoint address = none) (o : ObjId) :
    Ensures (s.connectInproc o address) (Ledger e k idle) := by
  have hpair : s.pipepair.Ledger e (k + 1) idle := h.of_objects rfl
  have hrecord : ∀ {s' : Ctx} {r : EndpointRecord}, r.child = none → s'.Ledger e (k + 1) idle →
      Ensures (s'.addEndpoint o r) (Ledger e k idle) := fun hr h' =>
    h'.addEndpoint fun c hc => by rw [hr] at hc; cases hc
  unfold Ctx.connectInproc
  dsimp only
  split
  · exact .error _ _
  rename_i peer hpeer
  refine Ensures.bind (hpair.sendCommand rfl (fun he => ?_) peer) fun s1 h1 =>
    Ensures.bind (h1.attachPipe o s.nextPipe) fun s2 h2 => hrecord rfl h2
  cases (hfree he).symm.trans hpeer

theorem Ledger.bindInproc (h : s.Ledger e (k + 1) idle) (address : String) (o : ObjId) :
    Ensures (s.bindInproc o address) (Ledger e k idle) := by
  have hreg : (s.registerEndpoint address o).Ledger e (k + 1) idle := h.of_objects rfl
  exact hreg.addEndpoint nofun

/-! ### Sessions, listeners and connecters -/

theorem Ledger.startConnecting (h : s.Ledger e (k + 1) hand) (hk : k + 1 < 2 ^ 32)
    (hhand : hand s.objects.next = []) (hlt : o < s.objects.next) (options : Options) :
    Ensures (s.startConnecting o options) (Ledger e k hand) := by
  have hnew : (s.newObject options (.connecter o false)).Ledger e (k + 1) hand :=
    h.newObject hk hhand options rfl
  refine hnew.launchChild hlt ?_
  exact told_newObject rfl rfl (by rw [hhand]; rfl)

theorem Ledger.terminate (h : s.Ledger e k hand) (o : ObjId) :
    Ensures (s.terminate o) (Ledger e k hand) := by
  refine ensures_get fun x _ => .ite (fun _ => .pure h) fun _ => ?_
  split
  · exact .pure h
  · exact h.sendCommand rfl (fun _ => rfl) _

theorem detachPipe_pending (options : Options) (b : SessionBase) :
    (detachPipe options b).pending = b.pending := by
  unfold detachPipe
  split
  · split <;> rfl
  · rfl

theorem Ledger.reconnect (h : s.Ledger e (k + 1) idle) (hk : k + 1 < 2 ^ 32)
    (hx : s.objects.cell o = some x) (hb : x.body = .session b) (y : Obj) {b' : SessionBase}
    (hb' : b'.pending = b.pending) :
    Ensures (s.reconnect o y b') (Ledger e k idle) := by
  intro t ht
  obtain ⟨s1, h1, ht⟩ := bind_eq_ok ht
  have hlt : o < s1.objects.next := by
    obtain ⟨z, -, rfl⟩ := modify_eq_ok h1
    exact h.forest.created o _ (forest_cell _ hx)
  have hs1 := h.setBody_session hx hb ((detachPipe_pending _ b').trans hb') s1 h1
  split at ht
  · exact hs1.startConnecting hk rfl hlt _ t ht
  split at ht
  · cases ht
    exact hs1.mono (Nat.le_succ k)
  · exact (hs1.mono (Nat.le_succ k)).sendCommand rfl (fun _ => rfl) _ t ht

theorem Ledger.engineError (h : s.Ledger e (k + 1) idle) (hk : k + 1 < 2 ^ 32)
    (hx : s.objects.cell o = some x) (hb : x.body = .session b)
    (reason : ErrorReason) : Ensures (s.engineError o x b reason) (Ledger e k idle) := by
  intro t ht
  obtain ⟨s1, h1, ht⟩ := bind_eq_ok ht
  have hs1 : s1.Ledger e (k + 1) idle := by
    refine h.setBody_session hx hb ?_ s1 h1
    rfl
  obtain ⟨y, hy, rfl⟩ := modify_eq_ok h1
  split at ht
  · exact hs1.reconnect hk (cell_set _ _ _) rfl x rfl t ht
  split at ht
  · cases ht
    exact hs1.mono (Nat.le_succ k)
  · exact (hs1.mono (Nat.le_succ k)).terminate o t ht

theorem Ledger.engineReady (h : s.Ledger e (k + 1) idle) (hx : s.objects.cell o = some x)
    (hb : x.body = .session b) :
    Ensures (s.engineReady o x b) (Ledger e k idle) := by
  refine .ite (fun _ => ?_) fun _ => .pure (h.mono (Nat.le_succ k))
  have hpair : s.pipepair.Ledger e (k + 1) idle := h.of_objects rfl
  refine Ensures.bind (hpair.setBody_session hx hb rfl) fun s' h' => ?_
  exact h'.sendCounted rfl rfl _

theorem Ledger.connected (h : s.Ledger e (k + 1) idle) (hx : s.objects.cell o = some x)
    {session : ObjId} {done : Bool} (hb : x.body = .connecter session done) :
    Ensures (s.connected o session) (Ledger e k idle) := by
  refine Ensures.bind (P := Ledger e (k + 1) idle) ?_ fun s1 h1 => ?_
  · refine h.setBody fun y hy => ?_
    cases hx.symm.trans hy
    rw [hb]
    exact ⟨rfl, rfl, id⟩
  · exact Ensures.bind (h1.sendCounted rfl rfl session) fun s2 h2 => h2.terminate o

theorem Ledger.put {cmd : OwnCommand} (h : s.Ledger e k (holding o [cmd])) :
    Ensures (s.sendCommand o cmd) (Ledger e k idle) := by
  refine h.modify (Nat.le_refl k) (fun q hq => (holding_of_ne hq _).symm) fun x _ hb => ⟨?_, ?_⟩
  · refine node_eq rfl rfl rfl rfl rfl ?_
    rw [holding_self]
    show (List.filter _ (x.inbox ++ [cmd])).Perm (List.filter _ ([cmd] ++ x.inbox))
    exact List.perm_append_comm.filter _
  · refine ⟨?_, hb.room, hb.termAcks, hb.closed, hb.root⟩
    have := hb.seqnum
    simpa [idle, List.countP_append, List.countP_cons] using this

theorem Ledger.accept (h : s.Ledger e (k + 2) idle) (hk : k + 2 < 2 ^ 32)
    (hx : s.objects.cell o = some x) (y : Obj) (socket : ObjId) :
    Ensures (s.accept o y socket) (Ledger e k idle) := by
  have hlt : o < s.objects.next := h.forest.created o _ (forest_cell _ hx)
  have hnew : (s.newObject y.own.options (.session { active := false, socket })).Ledger e
      (k + 2) idle := h.newObject hk rfl y.own.options rfl
  -- the `attach` that follows is announced before the session is launched
  have hinc : Ensures (Ctx.incSeqnum (s.newObject y.own.options
      (.session { active := false, socket })) s.objects.next)
      (Ledger e (k + 1) (holding s.objects.next [.attach])) := by
    refine hnew.modify (Nat.le_succ _) (fun q hq => holding_of_ne hq _) fun z _ hb => ⟨?_, ?_⟩
    · refine node_eq rfl rfl rfl rfl rfl ?_
      rw [holding_self]
      exact List.Perm.refl _
    · refine hb.inc ?_
      rw [holding_self]
      exact List.countP_cons_of_pos rfl
  intro t ht
  obtain ⟨s1, h1, ht⟩ := bind_eq_ok ht
  obtain ⟨s2, h2, ht⟩ := bind_eq_ok ht
  have hs2 : s2.Ledger e k (holding s.objects.next [.attach]) := by
    refine (hinc s1 h1).launchChild hlt (fun z hz => ?_) s2 h2
    obtain rfl := modify_of_cell (cell_alloc_next _ _) h1
    cases (cell_set _ _ _).symm.trans hz
    rw [holding_self]
    exact ⟨rfl, rfl⟩
  exact hs2.put t ht

/-! ### Termination requests -/

theorem count_erase_add {l : List ObjId} (hc : c ∈ l) (d : ObjId) :
    (l.erase c).count d + [c].count d = l.count d := by
  have hsplit : l.count d = ([c] ++ l.erase c).count d := (List.perm_cons_erase hc).count_eq d
  rw [hsplit, List.count_append, Nat.add_comm]

theorem Ledger.processTermReq (h : s.Ledger e k idle) (o c : ObjId) :
    Ensures (s.processTermReq o c) (Ledger e k idle) := by
  refine ensures_get fun x hx => .ite (fun _ => .pure h) fun hterm => .ite (fun _ => .pure h)
    fun hc => ?_
  have hterm : x.own.terminating = false := by simpa using hterm
  have hc : c ∈ x.own.owned := not_not.mp hc
  have hb := h.balanced o x hx
  intro t ht
  obtain ⟨s1, h1, ht⟩ := bind_eq_ok ht
  obtain ⟨s2, h2, ht⟩ := bind_eq_ok ht
  obtain rfl := modify_of_cell hx h1
  obtain rfl := modify_of_cell (cell_set _ _ _) h2
  have hne : o ≠ c := by
    intro heq
    exact List.count_eq_zero.mp (h.unnoted_self hx).2 (heq ▸ hc)
  have htold := (sendTerm_told (cell_set _ _ _) hne ht).of_base (s := s) rfl fun q hq => by
    simp [Ctx.set, cell_set_of_ne _ _ hq]
  refine h.tell hx htold (fun _ _ => rfl) rfl (.inl rfl) id (fun _ => rfl) (fun d => ?_)
    (fun d => ?_) ?_
  · exact List.count_append
  · exact (Nat.add_assoc _ _ _).trans (congrArg _ (count_erase_add hc d))
  refine ⟨hb.seqnum, hb.room, ?_, fun hterm' => ?_, hb.root⟩
  · have := hb.termAcks
    simp only [hterm, List.length_append] at this ⊢
    rw [this]
    simp
  · rw [hterm] at hterm'
    cases hterm'

/-- The objects of an endpoint are told to terminate one after the other. -/
theorem Ledger.termEndpoint (h : s.Ledger e k idle) (o : ObjId) (b : SocketBase)
    (endpoint : EndpointUri) : Ensures (s.termEndpoint o b endpoint) (Ledger e k idle) := by
  refine Ensures.bind (P := Ledger e k idle) ?_ fun s' h' => ?_
  · refine .foldlM (fun r _ s' h' => ?_) h
    split
    · exact .ok h'
    · exact h'.processTermReq o _
  · exact h'.setEndpoints fun l => l.filter (·.endpoint ≠ endpoint)

/-! ### Methods before their check -/

/-- `own_t::process_term` up to the check. -/
def ownTermStart (s : Ctx) (o : ObjId) (linger : Int) : Except Fault Ctx := do
  let x ← s.get o
  if x.own.terminating then .error .ownTerminating
  else
    let s ← x.own.owned.foldlM (fun s object => s.sendTerm o object linger) s
    let s ← s.registerTermAcks o x.own.owned.length
    s.modifyOwn o fun own => { own with owned := [], terminating := true }

/-- `socket_base_t::process_term` up to the check. -/
def socketTermStart (s : Ctx) (o : ObjId) (linger : Int) : Except Fault Ctx := do
  let x ← s.get o
  let s := s.unregisterEndpoints o
  let s ← s.registerTermAcks o x.body.pipes.length
  s.ownTermStart o linger

/-- `process_seqnum` up to the check. -/
def countProcessed (s : Ctx) (o : ObjId) : Except Fault Ctx :=
  s.modifyOwn o fun own => { own with processedSeqnum := (own.processedSeqnum + 1) % 2 ^ 64 }

/-- `unregister_term_ack` up to the check. -/
def dropTermAck (s : Ctx) (o : ObjId) : Except Fault Ctx := do
  let x ← s.get o
  if x.own.termAcks ≤ 0 then .error .ownTermAcks
  else s.modifyOwn o fun own => { own with termAcks := own.termAcks - 1 }

/-- `process_term_ack` up to the check. -/
def dropChild (s : Ctx) (o object : ObjId) : Except Fault Ctx := do
  let s ← s.modifyOwn o fun own => { own with unacked := own.unacked.erase object }
  s.dropTermAck o

theorem ownProcessTerm_eq (s : Ctx) (o : ObjId) (linger : Int) :
    s.ownProcessTerm o linger = s.ownTermStart o linger >>= fun s => s.checkTermAcks o := by
  unfold ownProcessTerm ownTermStart
  rw [bind_assoc]
  congr 1
  funext x
  split
  · rfl
  rw [bind_assoc]
  congr 1
  funext s
  rw [bind_assoc]

theorem socketProcessTerm_eq (s : Ctx) (o : ObjId) (linger : Int) :
    s.socketProcessTerm o linger = s.socketTermStart o linger >>= fun s => s.checkTermAcks o := by
  unfold socketProcessTerm socketTermStart
  rw [bind_assoc]
  congr 1
  funext x
  dsimp only
  rw [bind_assoc]
  congr 1
  funext s
  exact ownProcessTerm_eq s o linger

theorem unregisterTermAck_eq (s : Ctx) (o : ObjId) :
    s.unregisterTermAck o = s.dropTermAck o >>= fun s => s.checkTermAcks o := by
  unfold unregisterTermAck dropTermAck
  rw [bind_assoc]
  congr 1
  funext x
  split
  · rfl
  · rfl

theorem processTermAck_eq (s : Ctx) (o c : ObjId) :
    s.processTermAck o c = s.dropChild o c >>= fun s => s.checkTermAcks o := by
  unfold processTermAck dropChild
  rw [bind_assoc]
  congr 1
  funext s
  exact unregisterTermAck_eq s o

theorem Told.set {l : List ObjId} {linger : Int} {x' : Obj} (h : s.Told o l linger x t) :
    s.Told o l linger x' (t.set o x') where
  next := h.next
  self := cell_set _ _ _
  others := fun q hq => (cell_set_of_ne _ _ hq).trans (h.others q hq)

theorem count_term {cmd : OwnCommand} (hcmd : cmd.isTerm = false) (value : Int) :
    [term value].count cmd = 0 := by
  refine List.count_eq_zero.mpr fun hmem => ?_
  rw [List.mem_singleton.mp hmem] at hcmd
  cases hcmd

/-- What an object that starts to terminate has in its hand: an object without an owner need not
be told. -/
def Starts (x : Obj) (cmds : List OwnCommand) : Prop :=
  (∃ value, cmds = [.term value]) ∨ cmds = [] ∧ x.own.owner = none

variable {cmds : List OwnCommand}

theorem Starts.count (h : Starts x cmds) (cmd : OwnCommand) (hcmd : cmd.isTerm = false) :
    cmds.count cmd = 0 := by
  rcases h with ⟨value, rfl⟩ | ⟨rfl, -⟩
  · exact count_term hcmd value
  · rfl

theorem Starts.countP (h : Starts x cmds) : cmds.countP counted = 0 := by
  rcases h with ⟨value, rfl⟩ | ⟨rfl, -⟩ <;> rfl

/-- An object starts to terminate, and tells its children. Before that it may have registered its
pipes. -/
theorem Ledger.start {s' : Ctx} {linger : Int} (h : s.Ledger e k (holding o cmds))
    (hx : s.objects.cell o = some x) (hcmds : Starts x cmds)
    (hnext : s'.objects.next = s.objects.next)
    (hx' : s'.objects.cell o = some { x with
      own := { x.own with termAcks := x.own.termAcks + x.body.pipes.length } })
    (hcell : ∀ q, q ≠ o → s'.objects.cell q = s.objects.cell q) :
    Ensures (s'.ownTermStart o linger) (Ledger e k idle) := by
  intro t ht
  replace ht := get_of_cell hx' ht
  split at ht
  · cases ht
  rename_i hterm
  have hterm : x.own.terminating = false := by simpa using hterm
  obtain ⟨s1, h1, ht⟩ := bind_eq_ok ht
  obtain ⟨s2, h2, ht⟩ := bind_eq_ok ht
  have hne : o ∉ x.own.owned := List.count_eq_zero.mp (h.unnoted_self hx).2
  have htold := (sendTerms_told hx' hne h1).of_base (s := s) hnext hcell
  obtain rfl := modify_of_cell htold.self h2
  obtain rfl := modify_of_cell (cell_set _ _ _) ht
  have hb := h.balanced o x hx
  refine h.tell hx (htold.set.set) (fun q hq => (holding_of_ne hq _).symm) rfl ?_ (fun hnone => ?_)
    (fun d => ?_) (fun d => ?_) (fun d => ?_) ?_
  · -- the command in the hand becomes the flag
    refine hcmds.imp (fun ⟨value, hc⟩ => ?_) And.right
    simp only [node, holding_self, hc, idle, hterm, List.nil_append, List.countP_append]
    show _ + _ + 1 = 1 + _ + _ + 0
    omega
  · simp only [node, holding_self, hterm, List.countP_append] at hnone
    simp only [node, idle, List.nil_append]
    omega
  · simp [node, idle, hcmds.count (.termAck d) rfl]
  · exact List.count_append
  · simp [node, idle, hcmds.count (.own d) rfl]
  · refine ⟨fun he => ?_, hb.room, ?_, fun _ => rfl, hb.root⟩
    · simpa [idle, hcmds.countP] using hb.seqnum he
    · have := hb.termAcks
      simp only [hterm, Bool.false_eq_true, if_false, if_true, List.length_append] at this ⊢
      omega

/-- The object has no pipes of its own. -/
theorem Ledger.ownTermStart (h : s.Ledger e k (holding o [.term value]))
    (hx : s.objects.cell o = some x) (hpipes : x.body.pipes = []) (linger : Int) :
    Ensures (s.ownTermStart o linger) (Ledger e k idle) := by
  refine h.start hx (.inl ⟨value, rfl⟩) rfl ?_ fun _ _ => rfl
  rw [hx, hpipes]
  simp

theorem Ledger.socketTermStart (h : s.Ledger e k (holding o cmds))
    (hx : s.objects.cell o = some x) (hcmds : Starts x cmds) (linger : Int) :
    Ensures (s.socketTermStart o linger) (Ledger e k idle) := by
  intro t ht
  replace ht := get_of_cell hx ht
  obtain ⟨s1, h1, ht⟩ := bind_eq_ok ht
  obtain ⟨y, hy, hs1⟩ := modify_eq_ok h1
  cases hx.symm.trans hy
  refine h.start hx hcmds ?_ ?_ (fun q hq => ?_) t ht
  · rw [hs1]
    rfl
  · rw [hs1]
    exact cell_set _ _ _
  · rw [hs1]
    exact cell_set_of_ne _ _ hq

theorem Ledger.setPending {hand' : ObjId → List OwnCommand} (h : s.Ledger e k hand)
    (hx : s.objects.cell o = some x) (hb : x.body = .session b) {b' : SessionBase}
    (hhand : ∀ q, q ≠ o → hand' q = hand q)
    (hcount : ∀ cmd, cmd.isTerm = false → (hand' o).count cmd = (hand o).count cmd)
    (htold : (hand' o).countP isTerm + b'.pending.toNat = (hand o).countP isTerm + b.pending.toNat)
    (hcounted : (hand' o).countP counted = (hand o).countP counted) :
    Ensures (s.setBody o (.session b')) (Ledger e k hand') := by
  refine h.modify (Nat.le_refl k) hhand fun y hy hbal => ?_
  cases hx.symm.trans hy
  refine ⟨node_eq_of_told hcount ?_, fun he => ?_, hbal.room, ?_, hbal.closed,
    nofun⟩
  · rw [hb]
    exact htold
  · rw [List.countP_append, hcounted, ← List.countP_append]
    exact hbal.seqnum he
  · simpa [hb, Body.pipes] using hbal.termAcks

/-- A session with pipes delays its termination. -/
theorem Ledger.delay (h : s.Ledger e k (holding o [.term value]))
    (hx : s.objects.cell o = some x) (hb : x.body = .session b) (hpending : b.pending = false) :
    Ensures (s.setBody o (.session { b with pending := true })) (Ledger e k idle) := by
  refine h.setPending hx hb (fun q hq => (holding_of_ne hq _).symm) (fun cmd hcmd => ?_) ?_ ?_
  · rw [holding_self, count_term hcmd]
    rfl
  · rw [holding_self, hpending]
    rfl
  · rw [holding_self]
    rfl

/-- The last pipe of a session that delays its termination is gone. -/
theorem Ledger.resume (h : s.Ledger e k idle) (hx : s.objects.cell o = some x) {b' : SessionBase}
    (hb : x.body = .session b) (hpending : b.pending = true) :
    Ensures (s.setBody o (.session { b' with pending := false }))
      (Ledger e k (holding o [.term 0])) := by
  refine h.setPending hx hb (fun q hq => holding_of_ne hq _) (fun cmd hcmd => ?_) ?_ ?_
  · rw [holding_self, count_term hcmd]
    rfl
  · rw [holding_self, hpending]
    rfl
  · rw [holding_self]
    rfl

/-! ### Commands in the hand -/

theorem Ledger.take (h : s.Ledger e k idle) (hx : s.objects.cell o = some x) {i : Nat}
    {cmd : OwnCommand} (hcmd : x.inbox[i]? = some cmd) :
    (s.set o { x with inbox := x.inbox.eraseIdx i }).Ledger e k (holding o [cmd]) := by
  obtain ⟨hi, rfl⟩ := List.getElem?_eq_some_iff.mp hcmd
  have hperm : ([x.inbox[i]] ++ x.inbox.eraseIdx i).Perm x.inbox :=
    List.getElem_cons_eraseIdx_perm hi
  have hb := h.balanced o x hx
  refine h.set hx (Nat.le_refl k) (fun q hq => holding_of_ne hq _) ?_
    ⟨?_, hb.room, hb.termAcks, hb.closed, hb.root⟩
  · refine node_eq rfl rfl rfl rfl rfl ?_
    rw [holding_self]
    exact hperm.filter _
  · rw [holding_self, hperm.countP_eq]
    exact hb.seqnum

theorem Ledger.countProcessed (h : s.Ledger e k (holding o [.plug])) :
    Ensures (s.countProcessed o) (Ledger e k idle) := by
  refine h.modify (Nat.le_refl k) (fun q hq => (holding_of_ne hq _).symm) fun x _ hb => ⟨?_, ?_⟩
  · refine node_eq rfl rfl rfl rfl rfl ?_
    rw [holding_self]
    exact List.Perm.refl _
  refine ⟨fun he => ?_, hb.room, hb.termAcks, hb.closed, hb.root⟩
  have hroom := hb.room he
  have hseqnum := hb.seqnum he
  rw [holding_self, List.singleton_append, List.countP_cons_of_pos rfl] at hseqnum
  show x.own.sentSeqnum = (x.own.processedSeqnum + 1) % 2 ^ 64 + x.inbox.countP _
  omega

/-- A child that is announced is not owned yet, and it is another object. -/
theorem Ledger.announced (h : s.Ledger e k (holding o [.own c])) (hx : s.objects.cell o = some x) :
    c ∉ x.own.owned ∧ o ≠ c := by
  have hentering : 0 < (x.node [.own c]).entering c := by simp [node]
  have hx' := forest_cell (holding o [.own c]) hx
  rw [holding_self] at hx'
  constructor
  · refine List.count_eq_zero.mp (h.forest.owned_of_entering hx' hentering)
  intro heq
  subst heq
  have := (h.unnoted_self hx).1
  rw [holding_self] at this
  omega

/-- A child that was announced is taken over, or told to terminate. -/
theorem Ledger.processOwn (h : s.Ledger e k (holding o [.own c])) :
    Ensures (s.processOwn o c) (Ledger e k (holding o [.plug])) := by
  refine ensures_get fun x hx => ?_
  obtain ⟨howned, hne⟩ := h.announced hx
  have hb := h.balanced o x hx
  have hentering : ∀ d, (holding o [.own c] o ++ x.inbox).count (.own d) =
      (holding o [.plug] o ++ x.inbox).count (.own d) + [c].count d := by
    intro d
    rw [holding_self, holding_self, List.count_append, List.count_append, count_own,
      List.count_singleton]
    by_cases hd : d = c
    · simp [hd, Nat.add_comm]
    · simp [hd, Ne.symm hd]
  have hseqnum : e = true → x.own.sentSeqnum =
      x.own.processedSeqnum + (holding o [.plug] o ++ x.inbox).countP counted := by
    have := hb.seqnum
    rw [holding_self] at this ⊢
    exact this
  have hothers : ∀ q, q ≠ o → holding o [.plug] q = holding o [.own c] q := by
    intro q hq
    rw [holding_of_ne hq, holding_of_ne hq]
  refine .ite (fun hterm => ?_) fun hterm => ?_
  · intro t ht
    obtain ⟨s1, h1, ht⟩ := bind_eq_ok ht
    obtain rfl := modify_of_cell hx h1
    have htold := (sendTerm_told (cell_set _ _ _) hne ht).of_base (s := s) rfl fun q hq => by
      simp [Ctx.set, cell_set_of_ne _ _ hq]
    refine h.tell hx htold hothers rfl (.inl ?_) (fun hr => ?_) (fun d => ?_)
      (fun d => List.count_append) (fun d => ?_) ⟨hseqnum, hb.room, ?_, hb.closed, hb.root⟩
    · simp [node, isTerm]
    · simpa [node, isTerm] using hr
    · simp [node]
    · simp only [node, hentering]
      omega
    · have := hb.termAcks
      simp only [hterm, if_true, List.length_append] at this ⊢
      simp only [List.length_singleton]
      omega
  · intro t ht
    obtain rfl := modify_of_cell hx ht
    have htold : s.Told o [] 0 x s := ⟨rfl, hx, fun q _ => by simp⟩
    refine h.tell hx htold.set hothers rfl (.inl ?_) (fun hr => ?_) (fun d => ?_) (fun d => rfl)
      (fun d => ?_) ⟨hseqnum, hb.room, hb.termAcks, fun ht => absurd ht hterm, hb.root⟩
    · simp [node, isTerm]
    · simpa [node, isTerm] using hr
    · simp [node]
    have hinsert : (x.own.owned.insert c).count d = [c].count d + x.own.owned.count d := by
      rw [List.insert_of_not_mem howned, ← List.count_append]
      rfl
    simp only [node, hentering, hinsert, List.count_nil]
    omega

/-- A child that was told to terminate has acknowledged. -/
theorem Ledger.dropChild (h : s.Ledger e k (holding o [.termAck c])) :
    Ensures (s.dropChild o c) (Ledger e k idle) := by
  intro t ht
  obtain ⟨s1, h1, ht⟩ := bind_eq_ok ht
  obtain ⟨x, hx, rfl⟩ := modify_eq_ok h1
  replace ht := get_of_cell (cell_set _ _ _) ht
  split at ht
  · cases ht
  obtain rfl := modify_of_cell (cell_set _ _ _) ht
  rw [Ctx.set, Ctx.set, set_set]
  have hx' := forest_cell (holding o [.termAck c]) hx
  have hacked : 0 < (x.node (holding o [.termAck c] o)).acked c := by simp [node]
  have hunacked : c ∈ x.own.unacked := by
    have := (h.forest.unacked_of_acked hx' hacked).2
    exact List.count_pos_iff.mp (Nat.lt_of_lt_of_eq hacked this.symm)
  have hb := h.balanced o x hx
  refine h.of_set (Nat.le_refl k) (fun q hq => (holding_of_ne hq _).symm) ?_
    ⟨?_, hb.room, ?_, hb.closed, hb.root⟩
  · have hack := h.forest.ack hx' hacked
    convert hack using 2
    simp only [node, Ownership.Node.mk.injEq, holding_self, idle, List.nil_append, true_and]
    refine ⟨?_, ?_, ?_, ?_⟩
    · funext d
      simp
    · funext d
      rw [List.count_erase]
      by_cases hd : d = c
      · simp [hd]
      · simp [hd, Ne.symm hd]
    · funext d
      rw [List.count_append, count_termAck]
      omega
    · simp [isTerm]
  · simpa [idle, counted] using hb.seqnum
  · have := hb.termAcks
    have hpos : 0 < x.own.unacked.length := List.length_pos_of_mem hunacked
    simp only [List.length_erase_of_mem hunacked]
    omega

/-- A pipe of a terminating socket is gone. -/
theorem Ledger.dropPipe (h : s.Ledger e k idle) (hx : s.objects.cell o = some x) {b : SocketBase}
    (hb : x.body = .socket b) {pipe : PipeId} (hpipe : pipe ∈ b.pipes)
    (hterm : x.own.terminating = true) :
    Ensures (s.setBody o (.socket { b with pipes := b.pipes.erase pipe }) >>= fun s =>
      s.dropTermAck o) (Ledger e k idle) := by
  intro t ht
  obtain ⟨s1, h1, ht⟩ := bind_eq_ok ht
  obtain rfl := modify_of_cell hx h1
  replace ht := get_of_cell (cell_set _ _ _) ht
  split at ht
  · cases ht
  obtain rfl := modify_of_cell (cell_set _ _ _) ht
  rw [Ctx.set, Ctx.set, set_set]
  have hpos : 0 < b.pipes.length := List.length_pos_of_mem hpipe
  refine h.setPipes hx hb ?_
  simp only [hterm, if_true, List.length_erase_of_mem hpipe]
  omega

/-- A pipe of a socket that is not terminating is gone. -/
theorem Ledger.erasePipe (h : s.Ledger e k idle) (hx : s.objects.cell o = some x) {b : SocketBase}
    (hb : x.body = .socket b) (pipe : PipeId) (hterm : x.own.terminating = false) :
    Ensures (s.setBody o (.socket { b with pipes := b.pipes.erase pipe })) (Ledger e k idle) := by
  intro t ht
  obtain rfl := modify_of_cell hx ht
  refine h.setPipes hx hb ?_
  simp only [hterm, Bool.false_eq_true, if_false]

end Ctx

end ServerLink

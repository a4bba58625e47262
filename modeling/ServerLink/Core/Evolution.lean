import ServerLink.Core.Context

/-!
# ServerLink.Core.Evolution

What the methods of a context leave alone. `Evolves` relates the contexts before and after a
method: an object that is left was there before, is of the same kind, has the same options and is
still terminating if it was; a socket that is open stays open; and no name changes. Every method
evolves the context except for the termination of a socket, `setsockopt` and `bind` to an inproc
address, which have their own lemmas.
-/

namespace ServerLink

open Checked Ensures Arena List List.Sublist

/-- The options of a socket; `none` for any other object. -/
def Body.options? : Body → Option Options
  | .socket b => some b.options
  | _ => none

namespace Obj

/-- A socket that is not terminating. -/
def IsOpen (x : Obj) : Prop := x.body.options?.isSome = true ∧ x.own.terminating = false

instance (x : Obj) : Decidable x.IsOpen := inferInstanceAs (Decidable (_ ∧ _))

/-- Children are newer than their owners and owned once. The options a socket has as an `own_t`
are the default ones. -/
structure Tidy (o : ObjId) (x : Obj) : Prop where
  nodup : x.own.owned.Nodup
  owned : ∀ c ∈ x.own.owned, o < c
  arriving : ∀ c, OwnCommand.own c ∈ x.inbox → o < c
  options : x.body.options?.isSome = true → x.own.options = {}

/-- What does not change about an object. -/
structure Becomes (x x' : Obj) : Prop where
  kind : x'.body.options? = x.body.options?
  terminating : x.own.terminating = true → x'.own.terminating = true
  socket : x.body.options?.isSome = true → x'.own.terminating = x.own.terminating

theorem Becomes.refl (x : Obj) : x.Becomes x := ⟨rfl, id, fun _ => rfl⟩

theorem Becomes.trans {x y z : Obj} (h : x.Becomes y) (h' : y.Becomes z) : x.Becomes z where
  kind := h'.kind.trans h.kind
  terminating := fun ht => h'.terminating (h.terminating ht)
  socket := fun hs => (h'.socket (h.kind ▸ hs)).trans (h.socket hs)

theorem Becomes.isOpen {x y : Obj} (h : x.Becomes y) (ho : x.IsOpen) : y.IsOpen :=
  ⟨h.kind ▸ ho.1, (h.socket ho.1).trans ho.2⟩

/-- The object when it has started to terminate. -/
abbrev ended (x : Obj) : Obj := { x with own := { x.own with owned := [], terminating := true } }

theorem Tidy.ended {o : ObjId} {x : Obj} (h : x.Tidy o) : x.ended.Tidy o :=
  ⟨nodup_nil, by simp, h.arriving, h.options⟩

/-- Another body of the same kind. -/
theorem Tidy.setBody {o : ObjId} {x : Obj} (h : x.Tidy o) {body : Body}
    (hb : body.options? = x.body.options?) :
    Tidy o { x with body } ∧ x.Becomes { x with body } :=
  ⟨⟨h.nodup, h.owned, h.arriving, fun hs => h.options (hb ▸ hs)⟩, hb, id, fun _ => rfl⟩

end Obj

namespace Ctx

variable {s s' s'' : Ctx} {o c : ObjId} {x x' : Obj}

/-- The addresses in use have been given out, and every object is tidy. -/
def Tidy (s : Ctx) : Prop := ∀ o x, s.objects.cell o = some x → o < s.objects.next ∧ x.Tidy o

/-- What the methods leave alone. -/
structure Evolves (s s' : Ctx) : Prop where
  tidy : s'.Tidy
  next : s.objects.next ≤ s'.objects.next
  endpoints : s'.endpoints = s.endpoints
  old : ∀ o x', o < s.objects.next → s'.objects.cell o = some x' →
    ∃ x, s.objects.cell o = some x ∧ x.Becomes x'
  opened : ∀ o x, s.objects.cell o = some x → x.IsOpen →
    ∃ x', s'.objects.cell o = some x' ∧ x'.IsOpen

theorem Evolves.refl (h : s.Tidy) : s.Evolves s where
  tidy := h
  next := Nat.le_refl _
  endpoints := rfl
  old := fun _ x _ hx => ⟨x, hx, .refl x⟩
  opened := fun _ x hx ho => ⟨x, hx, ho⟩

theorem Evolves.trans (h : s.Evolves s') (h' : s'.Evolves s'') : s.Evolves s'' where
  tidy := h'.tidy
  next := Nat.le_trans h.next h'.next
  endpoints := h'.endpoints.trans h.endpoints
  old := by
    intro o x'' ho hx''
    obtain ⟨x', hx', hb'⟩ := h'.old o x'' (Nat.lt_of_lt_of_le ho h.next) hx''
    obtain ⟨x, hx, hb⟩ := h.old o x' ho hx'
    exact ⟨x, hx, hb.trans hb'⟩
  opened := by
    intro o x hx ho
    obtain ⟨x', hx', ho'⟩ := h.opened o x hx ho
    exact h'.opened o x' hx' ho'

/-- Two methods that evolve the context, one after the other. -/
theorem Evolves.bind {m : Except Fault Ctx} {f : Ctx → Except Fault Ctx}
    (hm : Ensures m s.Evolves) (hf : ∀ s', s.Evolves s' → Ensures (f s') s'.Evolves) :
    Ensures (m >>= f) s.Evolves :=
  hm.bind fun s' h => (hf s' h).mono fun _ h' => h.trans h'

theorem get_eq_ok (h : s.get o = .ok x) : s.objects.cell o = some x := by
  unfold get at h
  split at h
  · cases h
  · rename_i hx
    exact Except.ok.inj h ▸ hx

theorem ensures_get {P : Ctx → Prop} {f : Obj → Except Fault Ctx}
    (hf : ∀ x, s.objects.cell o = some x → Ensures (f x) P) : Ensures (s.get o >>= f) P :=
  bind (P := fun x => s.objects.cell o = some x) (fun _ hx => get_eq_ok hx) hf

/-! ### Single changes -/

theorem Tidy.set (h : s.Tidy) (hx : s.objects.cell o = some x) (htidy : x'.Tidy o) :
    (s.set o x').Tidy := by
  intro q y hy
  by_cases hq : q = o
  · subst hq
    obtain rfl : x' = y := by simpa [Ctx.set] using hy
    exact ⟨(h q x hx).1, htidy⟩
  · exact h q y (by simpa [Ctx.set, cell_set_of_ne _ _ hq] using hy)

/-- An object changes as it may. -/
theorem evolves_set (h : s.Tidy) (hx : s.objects.cell o = some x) (htidy : x'.Tidy o)
    (hb : x.Becomes x') : s.Evolves (s.set o x') where
  tidy := h.set hx htidy
  next := Nat.le_refl _
  endpoints := rfl
  old := by
    intro q y _ hy
    by_cases hq : q = o
    · subst hq
      obtain rfl : x' = y := by simpa [set] using hy
      exact ⟨x, hx, hb⟩
    · exact ⟨y, by simpa [set, cell_set_of_ne _ _ hq] using hy, .refl y⟩
  opened := by
    intro q y hy ho
    by_cases hq : q = o
    · subst hq
      cases hx.symm.trans hy
      exact ⟨x', by simp [set], hb.isOpen ho⟩
    · exact ⟨y, by simpa [set, cell_set_of_ne _ _ hq] using hy, ho⟩

theorem evolves_modify (h : s.Tidy) {f : Obj → Obj}
    (hf : ∀ x, s.objects.cell o = some x → x.Tidy o → (f x).Tidy o ∧ x.Becomes (f x)) :
    Ensures (s.modify o f) s.Evolves :=
  ensures_get fun x hx => .pure (evolves_set h hx (hf x hx (h o x hx).2).1 (hf x hx (h o x hx).2).2)

/-- Only an object that terminates is deleted. -/
theorem evolves_free (h : s.Tidy)
    (hterm : ∀ x, s.objects.cell o = some x → x.own.terminating = true) :
    s.Evolves { s with objects := s.objects.free o } where
  tidy := fun q y hy => h q y (cell_of_cell_free hy)
  next := Nat.le_refl _
  endpoints := rfl
  old := fun q y _ hy => ⟨y, cell_of_cell_free hy, .refl y⟩
  opened := by
    intro q y hy ho
    have hq : q ≠ o := by
      intro heq
      subst heq
      have := hterm y hy
      rw [ho.2] at this
      cases this
    exact ⟨y, by simpa [cell_free_of_ne _ hq] using hy, ho⟩

/-- A new object is nobody's child yet. -/
theorem evolves_newObject (h : s.Tidy) {options : Options} {body : Body}
    (ho : body.options?.isSome = true → options = {}) : s.Evolves (s.newObject options body) where
  tidy := by
    intro q y hy
    by_cases hq : q = s.objects.next
    · subst hq
      have hy : some { own := { options }, body } = some y := by simpa [newObject] using hy
      cases hy
      exact ⟨Nat.lt_succ_self _, nodup_nil, by simp, by simp, ho⟩
    · obtain ⟨hlt, ht⟩ := h q y (by simpa [newObject, cell_alloc_of_ne _ _ hq] using hy)
      exact ⟨Nat.lt_succ_of_lt hlt, ht⟩
  next := Nat.le_succ _
  endpoints := rfl
  old := by
    intro q y hq hy
    have hq : q ≠ s.objects.next := Nat.ne_of_lt hq
    exact ⟨y, by simpa [newObject, cell_alloc_of_ne _ _ hq] using hy, .refl y⟩
  opened := by
    intro q y hy ho
    have hq : q ≠ s.objects.next := Nat.ne_of_lt (h q y hy).1
    exact ⟨y, by simpa [newObject, cell_alloc_of_ne _ _ hq] using hy, ho⟩

/-! ### `own_t` and commands -/

/-- The children an object has taken over may become fewer. -/
theorem evolves_modifyOwn (h : s.Tidy) {g : Own → Own}
    (hg : ∀ own, (g own).owned.Sublist own.owned ∧ (g own).options = own.options ∧
      (g own).terminating = own.terminating) : Ensures (s.modifyOwn o g) s.Evolves := by
  refine evolves_modify h fun x _ ht => ?_
  obtain ⟨hsub, hopt, hterm⟩ := hg x.own
  refine ⟨⟨ht.nodup.sublist hsub, fun c hc => ht.owned c (hsub.subset hc), ht.arriving, ?_⟩,
    rfl, fun h => hterm.trans h, fun _ => hterm⟩
  exact fun hs => hopt.trans (ht.options hs)

theorem incSeqnum_evolves (h : s.Tidy) (o : ObjId) : Ensures (s.incSeqnum o) s.Evolves :=
  evolves_modifyOwn h fun _ => ⟨refl _, rfl, rfl⟩

/-- A child is announced to an older object. -/
theorem sendCommand_evolves (h : s.Tidy) {cmd : OwnCommand} (hcmd : ∀ c, cmd = .own c → o < c) :
    Ensures (s.sendCommand o cmd) s.Evolves := by
  refine evolves_modify h fun x _ ht => ⟨⟨ht.nodup, ht.owned, fun c hc => ?_, ht.options⟩, rfl, id,
    fun _ => rfl⟩
  rcases mem_append.mp hc with hc | hc
  · exact ht.arriving c hc
  · exact hcmd c (mem_singleton.mp hc).symm

theorem sendCounted_evolves (h : s.Tidy) {cmd : OwnCommand} (hcmd : ∀ c, cmd = .own c → o < c)
    (inc : Bool) : Ensures (s.sendCounted o cmd inc) s.Evolves := by
  refine Evolves.bind ?_ fun s' h' => sendCommand_evolves h'.tidy hcmd
  exact .ite (fun _ => incSeqnum_evolves h o) fun _ => .ok (.refl h)

theorem sendTerm_evolves (h : s.Tidy) (o c : ObjId) (linger : Int) :
    Ensures (s.sendTerm o c linger) s.Evolves := by
  refine Evolves.bind (evolves_modifyOwn h fun _ => ⟨refl _, rfl, rfl⟩) ?_
  intro s' h'
  exact sendCommand_evolves h'.tidy fun c hc => by cases hc

/-- A child is younger than its owner, so no object comes to own itself. -/
theorem launchChild_evolves (h : s.Tidy) (hlt : o < c) : Ensures (s.launchChild o c) s.Evolves := by
  refine Evolves.bind ?_ fun s' h' => ?_
  · refine ensures_get fun x _ => .ite (fun _ => .error _ _) fun _ => ?_
    exact evolves_modifyOwn h fun _ => ⟨refl _, rfl, rfl⟩
  · refine Evolves.bind ?_ fun s'' h'' => ?_
    · exact sendCounted_evolves h'.tidy (fun c hc => by cases hc) true
    · exact sendCounted_evolves h''.tidy (fun c' hc => by cases hc; exact hlt) true

theorem registerTermAcks_evolves (h : s.Tidy) (o : ObjId) (count : Nat) :
    Ensures (s.registerTermAcks o count) s.Evolves :=
  evolves_modifyOwn h fun _ => ⟨refl _, rfl, rfl⟩

theorem sendTermAck_evolves (h : s.Tidy) (owner : Option ObjId) (o : ObjId) :
    Ensures (s.sendTermAck owner o) s.Evolves := by
  unfold sendTermAck
  split
  · exact .ok (.refl h)
  · exact sendCommand_evolves h fun c hc => by cases hc

/-- The last acknowledgement deletes the object. -/
theorem checkTermAcks_evolves (h : s.Tidy) (o : ObjId) : Ensures (s.checkTermAcks o) s.Evolves := by
  refine ensures_get fun x hx => .ite (fun hpass => .ite (fun _ => .error _ _) fun _ => ?_)
    fun _ => .pure (.refl h)
  refine Evolves.bind (sendTermAck_evolves h x.own.owner o) fun s' h' => .pure ?_
  refine evolves_free h'.tidy fun x' hx' => ?_
  obtain ⟨y, hy, hb⟩ := h'.old o x' (h o x hx).1 hx'
  cases hx.symm.trans hy
  exact hb.terminating hpass.1

theorem processSeqnum_evolves (h : s.Tidy) (o : ObjId) : Ensures (s.processSeqnum o) s.Evolves := by
  refine Evolves.bind (evolves_modifyOwn h fun _ => ⟨refl _, rfl, rfl⟩) ?_
  exact fun s' h' => checkTermAcks_evolves h'.tidy o

theorem unregisterTermAck_evolves (h : s.Tidy) (o : ObjId) :
    Ensures (s.unregisterTermAck o) s.Evolves := by
  refine ensures_get fun x _ => .ite (fun _ => .error _ _) fun _ => ?_
  refine Evolves.bind (evolves_modifyOwn h fun _ => ⟨refl _, rfl, rfl⟩) ?_
  exact fun s' h' => checkTermAcks_evolves h'.tidy o

theorem processTermAck_evolves (h : s.Tidy) (o c : ObjId) :
    Ensures (s.processTermAck o c) s.Evolves := by
  refine Evolves.bind (evolves_modifyOwn h fun _ => ⟨refl _, rfl, rfl⟩) ?_
  exact fun s' h' => unregisterTermAck_evolves h'.tidy o

theorem processTermReq_evolves (h : s.Tidy) (o c : ObjId) :
    Ensures (s.processTermReq o c) s.Evolves := by
  refine ensures_get fun x _ => .ite (fun _ => .pure (.refl h)) fun _ =>
    .ite (fun _ => .pure (.refl h)) fun _ => ?_
  refine Evolves.bind (evolves_modifyOwn h fun _ => ⟨erase_sublist, rfl, rfl⟩) ?_
  intro s' h'
  refine Evolves.bind (registerTermAcks_evolves h'.tidy o 1) fun s'' h'' => ?_
  exact sendTerm_evolves h''.tidy o c _

/-- The child that is taken over has been announced. -/
theorem processOwn_evolves (h : s.Tidy) (hlt : o < c) : Ensures (s.processOwn o c) s.Evolves := by
  refine ensures_get fun x _ => .ite (fun _ => ?_) fun _ => ?_
  · refine Evolves.bind (registerTermAcks_evolves h o 1) fun s' h' => ?_
    exact sendTerm_evolves h'.tidy o c 0
  refine evolves_modify h fun x _ ht => ⟨⟨?_, ?_, ht.arriving, ht.options⟩, rfl, id, fun _ => rfl⟩
  · exact ht.nodup.insert
  intro c' hc'
  rcases mem_insert_iff.mp hc' with rfl | hc'
  · exact hlt
  · exact ht.owned c' hc'

/-- The object was created, and it is not a socket. -/
structure NoSocket (s : Ctx) (o : ObjId) : Prop where
  created : o < s.objects.next
  kind : ∀ x, s.objects.cell o = some x → x.body.options? = none

theorem NoSocket.evolves (hn : s.NoSocket o) (h : s.Evolves s') : s'.NoSocket o where
  created := Nat.lt_of_lt_of_le hn.created h.next
  kind := by
    intro x' hx'
    obtain ⟨x, hx, hb⟩ := h.old o x' hn.created hx'
    exact hb.kind.trans (hn.kind x hx)

theorem Tidy.noSocket (h : s.Tidy) (hx : s.objects.cell o = some x) {body : Body}
    (hb : x.body = body) (hkind : body.options? = none) : s.NoSocket o :=
  ⟨(h o x hx).1, fun _ hy => Option.some.inj (hx.symm.trans hy) ▸ hb ▸ hkind⟩

/-- The children are told, the object is marked as terminating and gives them up, and the
acknowledgements are looked at. -/
theorem ensures_ownProcessTerm {P : Ctx → Prop} (h : s.Tidy) {linger : Int}
    (hP : ∀ s1 s2 x, s.Evolves s1 → s1.objects.cell o = some x →
      (s1.set o x.ended).Evolves s2 → P s2) : Ensures (s.ownProcessTerm o linger) P := by
  refine ensures_get fun x _ => .ite (fun _ => .error _ _) fun _ => ?_
  have htell : Ensures (x.own.owned.foldlM (fun s c => s.sendTerm o c linger) s) s.Evolves :=
    .foldlM (fun c _ s' h' => (sendTerm_evolves h'.tidy o c linger).mono fun _ => h'.trans)
      (.refl h)
  refine bind htell fun s1 h1 => ?_
  refine bind (registerTermAcks_evolves h1.tidy o _) fun s2 h2 => ?_
  have h2 := h1.trans h2
  rw [modifyOwn, modify, bind_assoc]
  refine ensures_get fun x' hx' => ?_
  have htidy := h2.tidy.set hx' (h2.tidy o x' hx').2.ended
  exact (checkTermAcks_evolves htidy o).mono fun s3 h3 => hP s2 s3 x' h2 hx' h3

/-- An object that is not a socket starts to terminate. -/
theorem ownProcessTerm_evolves (h : s.Tidy) (hn : s.NoSocket o) (linger : Int) :
    Ensures (s.ownProcessTerm o linger) s.Evolves := by
  refine ensures_ownProcessTerm h fun s1 s2 x h1 hx h2 => (h1.trans ?_).trans h2
  refine evolves_set h1.tidy hx (h1.tidy o x hx).2.ended ⟨rfl, fun _ => rfl, fun hs => ?_⟩
  rw [(hn.evolves h1).kind x hx] at hs
  cases hs

/-! ### Sockets -/

theorem setBody_evolves (h : s.Tidy) {body : Body}
    (hb : ∀ x, s.objects.cell o = some x → body.options? = x.body.options?) :
    Ensures (s.setBody o body) s.Evolves := by
  exact evolves_modify h fun x hx ht => ht.setBody (hb x hx)

theorem setBody_socket_evolves (h : s.Tidy) (hx : s.objects.cell o = some x) {b b' : SocketBase}
    (hb : x.body = .socket b) (ho : b'.options = b.options) :
    Ensures (s.setBody o (.socket b')) s.Evolves := by
  refine setBody_evolves h fun y hy => ?_
  cases hx.symm.trans hy
  rw [hb]
  exact congrArg some ho

theorem attachPipe_evolves (h : s.Tidy) (o : ObjId) (pipe : PipeId) :
    Ensures (s.attachPipe o pipe) s.Evolves := by
  refine ensures_get fun x hx => ?_
  split
  · rename_i b hb
    refine Evolves.bind (setBody_socket_evolves h hx hb rfl) fun s' h' => ?_
    exact .ite (fun _ => registerTermAcks_evolves h'.tidy o 1) fun _ => .pure (.refl h'.tidy)
  · exact .error _ _

/-- The number of the next pipe is of no concern. -/
theorem Evolves.of_objects (h : s.Evolves s') (hobj : s''.objects = s'.objects)
    (hend : s''.endpoints = s'.endpoints) : s.Evolves s'' where
  tidy := fun o x hx => by
    rw [hobj] at hx ⊢
    exact h.tidy o x hx
  next := hobj ▸ h.next
  endpoints := hend.trans h.endpoints
  old := fun o x' ho hx' => h.old o x' ho (hobj ▸ hx')
  opened := fun o x hx ho => hobj ▸ h.opened o x hx ho

/-- The child of an endpoint is younger than the socket. -/
theorem addEndpoint_evolves (h : s.Tidy) {r : EndpointRecord}
    (hchild : ∀ c, r.child = some c → o < c) : Ensures (s.addEndpoint o r) s.Evolves := by
  refine Evolves.bind ?_ fun s' h' => ?_
  · split
    · exact .ok (.refl h)
    · rename_i c hc
      exact launchChild_evolves h (hchild c hc)
  refine evolves_modify h'.tidy fun x _ ht => ?_
  split
  · rename_i b hb
    exact ht.setBody (by rw [hb]; rfl)
  · exact ⟨ht, .refl x⟩

theorem bindTcp_evolves (h : s.Tidy) (hx : s.objects.cell o = some x) (b : SocketBase)
    (address : String) : Ensures (s.bindTcp o b address) s.Evolves := by
  have hnew : s.Evolves (s.newObject b.options (.listener o)) :=
    evolves_newObject h fun hs => by cases hs
  refine (addEndpoint_evolves hnew.tidy fun c hc => ?_).mono fun _ => hnew.trans
  exact Option.some.inj hc ▸ (h o x hx).1

theorem pipepair_evolves (h : s.Tidy) : s.Evolves s.pipepair := (Evolves.refl h).of_objects rfl rfl

theorem connectTcp_evolves (h : s.Tidy) (hx : s.objects.cell o = some x) (b : SocketBase)
    (address : String) : Ensures (s.connectTcp o b address) s.Evolves := by
  have hchild : ∀ c, some s.objects.next = some c → o < c := by
    intro c hc
    exact Option.some.inj hc ▸ (h o x hx).1
  refine .ite (fun _ => ?_) fun _ => ?_
  · have hnew : s.Evolves (s.newObject b.options (.session (activeSession o address none))) :=
      evolves_newObject h fun hs => by cases hs
    exact (addEndpoint_evolves hnew.tidy hchild).mono fun _ => hnew.trans
  have hnew : s.Evolves (s.pipepair.newObject b.options
      (.session (activeSession o address (some (s.nextPipe + 1))))) :=
    (pipepair_evolves h).trans (evolves_newObject (pipepair_evolves h).tidy fun hs => by cases hs)
  refine bind (attachPipe_evolves hnew.tidy o s.nextPipe) fun s' h' => ?_
  exact (addEndpoint_evolves h'.tidy hchild).mono fun _ => (hnew.trans h').trans

theorem connectInproc_evolves (h : s.Tidy) (o : ObjId) (address : String) :
    Ensures (s.connectInproc o address) s.Evolves := by
  have hpair := pipepair_evolves h
  have hnone : ∀ c, (none : Option ObjId) = some c → o < c := fun c hc => by cases hc
  unfold connectInproc
  dsimp only
  split
  · exact .error _ _
  rename_i q _
  refine (Evolves.bind ?_ fun s1 h1 => ?_).mono fun _ => hpair.trans
  · exact sendCounted_evolves hpair.tidy (fun c hc => by cases hc) false
  · refine Evolves.bind (attachPipe_evolves h1.tidy o _) fun s2 h2 => ?_
    exact addEndpoint_evolves h2.tidy hnone

theorem termEndpoint_evolves (h : s.Tidy) (o : ObjId) (b : SocketBase) (endpoint : EndpointUri) :
    Ensures (s.termEndpoint o b endpoint) s.Evolves := by
  refine Evolves.bind ?_ fun s' h' => ?_
  · refine .foldlM (fun r _ s' h' => ?_) (.refl h)
    split
    · exact .ok h'
    · rename_i c _
      exact (processTermReq_evolves h'.tidy o c).mono fun _ => h'.trans
  refine evolves_modify h'.tidy fun x _ ht => ?_
  split
  · rename_i b hb
    exact ht.setBody (by rw [hb]; rfl)
  · exact ⟨ht, .refl x⟩

theorem socketPipeTerminated_evolves (h : s.Tidy) (hx : s.objects.cell o = some x)
    {b : SocketBase} (hb : x.body = .socket b) (pipe : PipeId) :
    Ensures (s.socketPipeTerminated o x b pipe) s.Evolves := by
  refine Evolves.bind (setBody_socket_evolves h hx hb rfl) fun s' h' => ?_
  exact .ite (fun _ => unregisterTermAck_evolves h'.tidy o) fun _ => .pure (.refl h'.tidy)

/-! ### Sessions, listeners and connecters -/

theorem NoSocket.setBody_evolves (hn : s.NoSocket o) (h : s.Tidy) {body : Body}
    (hb : body.options? = none) : Ensures (s.setBody o body) s.Evolves :=
  Ctx.setBody_evolves h fun x hx => hb.trans (hn.kind x hx).symm

theorem sessionProcessTerm_evolves (h : s.Tidy) (hn : s.NoSocket o) (b : SessionBase) :
    Ensures (s.sessionProcessTerm o b) s.Evolves := by
  refine .ite (fun _ => .error _ _) fun _ => .ite (fun _ => ?_) fun _ => ?_
  · exact ownProcessTerm_evolves h hn 0
  · exact hn.setBody_evolves h rfl

theorem startConnecting_evolves (h : s.Tidy) (hlt : o < s.objects.next) (options : Options) :
    Ensures (s.startConnecting o options) s.Evolves := by
  have hnew : s.Evolves (s.newObject options (.connecter o false)) :=
    evolves_newObject h fun hs => by cases hs
  exact (launchChild_evolves hnew.tidy hlt).mono fun _ => hnew.trans

/-- The owner is asked, unless there is none or the object terminates. -/
theorem terminate_evolves (h : s.Tidy) (o : ObjId) : Ensures (s.terminate o) s.Evolves := by
  refine ensures_get fun x _ => .ite (fun _ => .pure (.refl h)) fun _ => ?_
  split
  · exact .pure (.refl h)
  · exact sendCommand_evolves h fun c hc => by cases hc

/-- An active session starts a new connecter, another one asks to be terminated. -/
theorem reconnect_evolves (h : s.Tidy) (hn : s.NoSocket o) (x : Obj) (b : SessionBase) :
    Ensures (s.reconnect o x b) s.Evolves := by
  refine Evolves.bind (hn.setBody_evolves h rfl) fun s' h' => .ite (fun _ => ?_) fun _ => ?_
  · exact startConnecting_evolves h'.tidy (hn.evolves h').created _
  · split
    · exact .pure (.refl h'.tidy)
    · exact sendCommand_evolves h'.tidy fun c hc => by cases hc

theorem engineError_evolves (h : s.Tidy) (hn : s.NoSocket o) (x : Obj) (b : SessionBase)
    (reason : ErrorReason) : Ensures (s.engineError o x b reason) s.Evolves := by
  refine Evolves.bind (hn.setBody_evolves h rfl) fun s' h' => .ite (fun _ => ?_) fun _ =>
    .ite (fun _ => .pure (.refl h'.tidy)) fun _ => terminate_evolves h'.tidy o
  exact reconnect_evolves h'.tidy (hn.evolves h') x _

theorem engineReady_evolves (h : s.Tidy) (hn : s.NoSocket o) (x : Obj) (b : SessionBase) :
    Ensures (s.engineReady o x b) s.Evolves := by
  refine .ite (fun _ => ?_) fun _ => .pure (.refl h)
  have hpair := pipepair_evolves h
  refine (Evolves.bind ((hn.evolves hpair).setBody_evolves hpair.tidy rfl) fun s' h' => ?_).mono
    fun _ => hpair.trans
  exact sendCounted_evolves h'.tidy (fun c hc => by cases hc) true

/-- With its last pipe a session that waits for it terminates. -/
theorem sessionPipeTerminated_evolves (h : s.Tidy) (hn : s.NoSocket o) (b : SessionBase)
    (pipe : PipeId) : Ensures (s.sessionPipeTerminated o b pipe) s.Evolves := by
  refine .seq fun b' _ => .ite (fun _ => ?_) fun _ => hn.setBody_evolves h rfl
  refine Evolves.bind (hn.setBody_evolves h rfl) fun s' h' => ?_
  exact ownProcessTerm_evolves h'.tidy (hn.evolves h') 0

theorem accept_evolves (h : s.Tidy) (hlt : o < s.objects.next) (x : Obj) (socket : ObjId) :
    Ensures (s.accept o x socket) s.Evolves := by
  have hnew : s.Evolves (s.newObject x.own.options (.session { active := false, socket })) :=
    evolves_newObject h fun hs => by cases hs
  refine (Evolves.bind (incSeqnum_evolves hnew.tidy _) fun s1 h1 => ?_).mono fun _ => hnew.trans
  refine Evolves.bind (launchChild_evolves h1.tidy hlt) fun s2 h2 => ?_
  exact sendCounted_evolves h2.tidy (fun c hc => by cases hc) false

theorem connected_evolves (h : s.Tidy) (hn : s.NoSocket o) (session : ObjId) :
    Ensures (s.connected o session) s.Evolves := by
  refine Evolves.bind (hn.setBody_evolves h rfl) fun s1 h1 => ?_
  refine Evolves.bind ?_ fun s2 h2 => terminate_evolves h2.tidy o
  exact sendCounted_evolves h1.tidy (fun c hc => by cases hc) true

/-! ### The termination of a socket -/

/-- A method that makes `o` terminate: the context evolves before that, and after it. -/
inductive Stops (s : Ctx) (o : ObjId) (s' : Ctx) : Prop
  | intro {s1 : Ctx} {x x' : Obj} (before : s.Evolves s1) (hx : s1.objects.cell o = some x)
      (kind : x'.body.options? = x.body.options?) (ends : x'.own.terminating = true)
      (after : (s1.set o x').Evolves s')

theorem Evolves.stops (h : s.Evolves s') : s'.Stops o s'' → s.Stops o s''
  | ⟨before, hx, kind, ends, after⟩ => ⟨h.trans before, hx, kind, ends, after⟩

theorem Stops.evolves (h : s.Stops o s') (h' : s'.Evolves s'') : s.Stops o s'' := by
  obtain ⟨before, hx, kind, ends, after⟩ := h
  exact ⟨before, hx, kind, ends, after.trans h'⟩

/-- No object and no name is lost. -/
theorem Stops.keeps (h : s.Stops o s') :
    s'.Tidy ∧ s.objects.next ≤ s'.objects.next ∧ s'.endpoints = s.endpoints := by
  obtain ⟨before, -, -, -, after⟩ := h
  exact ⟨after.tidy, Nat.le_trans before.next after.next, after.endpoints.trans before.endpoints⟩

theorem ownProcessTerm_stops (h : s.Tidy) (o : ObjId) (linger : Int) :
    Ensures (s.ownProcessTerm o linger) (s.Stops o) :=
  ensures_ownProcessTerm h fun _ _ x h1 hx h2 =>
    .intro h1 hx (show x.ended.body.options? = _ from rfl) rfl h2

/-- A socket that terminates gives up its names. -/
theorem socketProcessTerm_stops (h : s.Tidy) (o : ObjId) (linger : Int) :
    Ensures (s.socketProcessTerm o linger) ((s.unregisterEndpoints o).Stops o) := by
  have h' : (s.unregisterEndpoints o).Tidy := h
  refine ensures_get fun x _ => ?_
  refine bind (registerTermAcks_evolves h' o _) fun s1 h1 => ?_
  exact (ownProcessTerm_stops h1.tidy o linger).mono fun _ => h1.stops

/-! ### Commands and steps -/

/-- The handler of a command evolves the context, or makes a socket terminate. -/
theorem processCommand_effect (h : s.Tidy) (hx : s.objects.cell o = some x')
    (hbody : x'.body = x.body) {cmd : OwnCommand} (hcmd : ∀ c, cmd = .own c → o < c) :
    Ensures (s.processCommand o x cmd) fun s' =>
      s.Evolves s' ∨ (s.unregisterEndpoints o).Stops o s' := by
  have hlt := (h o x' hx).1
  have hno : ∀ {body : Body}, x.body = body → body.options? = none → s.NoSocket o := fun hb =>
    h.noSocket hx (hbody.trans hb)
  cases cmd with
  | plug =>
    refine mono (P := s.Evolves) ?_ fun _ => .inl
    unfold processCommand
    dsimp only
    split
    · exact .ite (fun _ => startConnecting_evolves h hlt _) fun _ => .ok (.refl h)
    · exact .ok (.refl h)
    · exact .ok (.refl h)
    · exact .error _ _
  | own c => exact (processOwn_evolves h (hcmd c rfl)).mono fun _ => .inl
  | attach =>
    refine mono (P := s.Evolves) ?_ fun _ => .inl
    unfold processCommand
    dsimp only
    split
    · rename_i b hb
      refine .ite (fun _ => .error _ _) fun _ => ?_
      exact (hno hb rfl).setBody_evolves h rfl
    · exact .error _ _
  | bind pipe => exact (attachPipe_evolves h o pipe).mono fun _ => .inl
  | termReq c => exact (processTermReq_evolves h o c).mono fun _ => .inl
  | term linger =>
    unfold processCommand
    dsimp only
    split
    · rename_i b hb
      exact (sessionProcessTerm_evolves h (hno hb rfl) b).mono fun _ => .inl
    · exact (socketProcessTerm_stops h o linger).mono fun _ => .inr
    rename_i hsession hsocket
    have hk : x.body.options? = none := by
      cases hb : x.body with
      | socket b => exact absurd hb (hsocket b)
      | listener _ => rfl
      | session _ => rfl
      | connecter _ _ => rfl
    exact (ownProcessTerm_evolves h (hno rfl hk) linger).mono fun _ => .inl
  | termAck c => exact (processTermAck_evolves h o c).mono fun _ => .inl
  | termEndpoint e =>
    refine mono (P := s.Evolves) ?_ fun _ => .inl
    unfold processCommand
    dsimp only
    split
    · exact .ok (.refl h)
    · exact .error _ _

/-- A command is taken out of the inbox and handled, and counted behind that. -/
theorem deliver_effect (h : s.Tidy) (o : ObjId) (i : Nat) :
    Ensures (s.deliver o i) fun s' =>
      s.Evolves s' ∨ (s.unregisterEndpoints o).Stops o s' := by
  refine ensures_get fun x hx => ?_
  split
  · exact .pure (.inl (.refl h))
  rename_i cmd hcmd
  have ht := (h o x hx).2
  have hmem : cmd ∈ x.inbox := mem_of_getElem? hcmd
  have htidy : Obj.Tidy o { x with inbox := x.inbox.eraseIdx i } :=
    ⟨ht.nodup, ht.owned, fun c hc => ht.arriving c ((eraseIdx_sublist _ _).subset hc),
      ht.options⟩
  have hpop := evolves_set h hx htidy ⟨rfl, id, fun _ => rfl⟩
  have hx' : (s.set o { x with inbox := x.inbox.eraseIdx i }).objects.cell o =
      some { x with inbox := x.inbox.eraseIdx i } := by simp [set]
  refine bind (processCommand_effect (x := x) hpop.tidy hx' rfl fun c hc =>
    ht.arriving c (hc ▸ hmem)) fun s' hs' => ?_
  rcases hs' with h' | h'
  · have h' := hpop.trans h'
    exact .ite (fun _ => (processSeqnum_evolves h'.tidy o).mono fun _ h'' => .inl (h'.trans h''))
      fun _ => .pure (.inl h')
  have hpop' : (s.unregisterEndpoints o).Evolves
      ((s.set o { x with inbox := x.inbox.eraseIdx i }).unregisterEndpoints o) :=
    evolves_set h hx htidy ⟨rfl, id, fun _ => rfl⟩
  have h' := hpop'.stops h'
  exact .ite (fun _ => (processSeqnum_evolves h'.keeps.1 o).mono fun _ h'' =>
    .inr (h'.evolves h'')) fun _ => .pure (.inr h')

/-- The object is a socket, and it is not terminating. -/
def IsOpen (s : Ctx) (o : ObjId) : Prop := ∃ x, s.objects.cell o = some x ∧ x.IsOpen

instance (s : Ctx) (o : ObjId) : Decidable (s.IsOpen o) :=
  decidable_of_iff ((s.objects.cell o).any (decide ·.IsOpen) = true) (by
    unfold IsOpen
    cases s.objects.cell o <;> simp)

/-- No old socket is opened or closed. -/
theorem Evolves.isOpen_iff (h : s.Evolves s') (ho : o < s.objects.next) :
    s'.IsOpen o ↔ s.IsOpen o := by
  constructor
  · intro ⟨x', hx', hkind, hterm⟩
    obtain ⟨x, hx, hb⟩ := h.old o x' ho hx'
    have hkind : x.body.options?.isSome = true := hb.kind ▸ hkind
    exact ⟨x, hx, hkind, (hb.socket hkind).symm.trans hterm⟩
  · intro ⟨x, hx, hopen⟩
    exact h.opened o x hx hopen

/-- The socket that stops is closed, and no other. -/
theorem Stops.isOpen_iff {q : ObjId} (h : s.Stops o s') (hq : q < s.objects.next) :
    s'.IsOpen q ↔ q ≠ o ∧ s.IsOpen q := by
  obtain ⟨before, hx, kind, ends, after⟩ := h
  have hq1 := Nat.lt_of_lt_of_le hq before.next
  rw [after.isOpen_iff hq1, ← before.isOpen_iff hq]
  by_cases hqo : q = o
  · subst hqo
    simp [IsOpen, set, Obj.IsOpen, ends]
  · simp [IsOpen, set, cell_set_of_ne _ _ hqo, hqo]

/-- How most steps change a context. -/
inductive Changes (s s' : Ctx) : Prop
  | evolves (h : s.Evolves s')
  | stops {o : ObjId} (h : (s.unregisterEndpoints o).Stops o s')

/-- A call on a socket that is not open has no effect. -/
theorem user_eq_ok {f : Obj → SocketBase → Except Fault Ctx} (h : s.user o f = .ok s') :
    (¬ s.IsOpen o ∧ s' = s) ∨
    ∃ x b, s.objects.cell o = some x ∧ x.body = .socket b ∧ x.own.terminating = false ∧
      f x b = .ok s' := by
  unfold user at h
  split at h
  · rename_i x hx
    split at h
    · rename_i b hb
      split at h
      · rename_i hterm
        refine .inl ⟨fun ⟨y, hy, hopen⟩ => ?_, (Except.ok.inj h).symm⟩
        cases hx.symm.trans hy
        rw [hopen.2] at hterm
        cases hterm
      · rename_i hterm
        exact .inr ⟨x, b, hx, hb, by simpa using hterm, h⟩
    · rename_i hno
      refine .inl ⟨fun ⟨y, hy, hopen⟩ => ?_, (Except.ok.inj h).symm⟩
      cases hx.symm.trans hy
      cases hb : x.body with
      | socket b => exact hno b hb
      | listener _ => simp [Obj.IsOpen, Body.options?, hb] at hopen
      | session _ => simp [Obj.IsOpen, Body.options?, hb] at hopen
      | connecter _ _ => simp [Obj.IsOpen, Body.options?, hb] at hopen
  · rename_i hx
    refine .inl ⟨fun ⟨y, hy, _⟩ => ?_, (Except.ok.inj h).symm⟩
    rw [hx] at hy
    cases hy

theorem ensures_user (h : s.Tidy) {f : Obj → SocketBase → Except Fault Ctx}
    (hf : ∀ x b, s.objects.cell o = some x → Ensures (f x b) s.Changes) :
    Ensures (s.user o f) s.Changes := by
  intro s' hs'
  rcases user_eq_ok hs' with ⟨-, rfl⟩ | ⟨x, b, hx, -, -, heq⟩
  · exact .evolves (.refl h)
  · exact hf x b hx s' heq

theorem ensures_event {P : Ctx → Prop} (hs : P s) {f : Obj → Body → Except Fault Ctx}
    (hf : ∀ x, s.objects.cell o = some x → Ensures (f x x.body) P) :
    Ensures (s.event o f) P := by
  unfold event
  split
  · rename_i x hx
    exact hf x hx
  · exact .ok hs

theorem step_termEndpoint (h : s.Tidy) (o : ObjId) (endpoint : EndpointUri) :
    Ensures (s.step (.termEndpoint o endpoint)) s.Evolves := by
  rw [step]
  refine ensures_event (.refl h) fun x _ => ?_
  split
  · exact termEndpoint_evolves h o _ endpoint
  · exact .ok (.refl h)

theorem step_setsockopt {option : OptionName} {value : Int}
    (hs : s.step (.setsockopt o option value) = .ok s') :
    (¬ s.IsOpen o ∧ s' = s) ∨
    ∃ x b, s.objects.cell o = some x ∧ x.body = .socket b ∧ x.own.terminating = false ∧
      s' = s.set o { x with
        body := .socket { b with
          options := (b.options.setsockopt option value).getD b.options } } := by
  rcases user_eq_ok hs with hno | ⟨x, b, hx, hb, hopen, heq⟩
  · exact .inl hno
  refine .inr ⟨x, b, hx, hb, hopen, ?_⟩
  cases ho : b.options.setsockopt option value with
  | none =>
    rw [ho] at heq
    cases heq
    rw [Option.getD_none, set, set_self]
    rw [hx, ← hb]
  | some options =>
    rw [ho] at heq
    obtain ⟨y, hy, heq⟩ := bind_eq_ok heq
    cases hx.symm.trans (get_eq_ok hy)
    exact (Except.ok.inj heq).symm

/-- An address is bound if the socket is open. -/
theorem step_bindInproc (h : s.Tidy) {address : String}
    (hs : s.step (.bindInproc o address) = .ok s') :
    (¬ s.IsOpen o ∧ s' = s) ∨ s.IsOpen o ∧ (s.registerEndpoint address o).Evolves s' := by
  rcases user_eq_ok hs with hno | ⟨x, b, hx, hb, hopen, heq⟩
  · exact .inl hno
  refine .inr ⟨⟨x, hx, by rw [hb]; rfl, hopen⟩, ?_⟩
  have h' : (s.registerEndpoint address o).Tidy := h
  exact addEndpoint_evolves h' (fun c hc => by cases hc) s' heq

/-- Every other step is one of the kinds above. -/
theorem step_changes (h : s.Tidy) {a : CtxAction}
    (hset : ∀ o option value, a ≠ .setsockopt o option value)
    (hbind : ∀ o address, a ≠ .bindInproc o address) : Ensures (s.step a) s.Changes := by
  have hev : ∀ {m : Except Fault Ctx}, Ensures m s.Evolves → Ensures m s.Changes :=
    fun hm => hm.mono fun _ => .evolves
  have hsame : Ensures (.ok s : Except Fault Ctx) s.Changes := .ok (.evolves (.refl h))
  cases a with
  | createSocket type =>
    rw [step, createSocket]
    split
    · exact hsame
    · exact .ok (.evolves (evolves_newObject h fun _ => rfl))
  | setsockopt o option value => exact absurd rfl (hset o option value)
  | bindInproc o address => exact absurd rfl (hbind o address)
  | bindTcp o address => exact ensures_user h fun x b hx => hev (bindTcp_evolves h hx b address)
  | connectTcp o address =>
    exact ensures_user h fun x b hx => hev (connectTcp_evolves h hx b address)
  | connectInproc o address =>
    exact ensures_user h fun x b _ => hev (connectInproc_evolves h o address)
  | termEndpoint o endpoint => exact hev (step_termEndpoint h o endpoint)
  | close o =>
    exact ensures_user h fun x b _ => (socketProcessTerm_stops h o _).mono fun _ => .stops
  | deliver o i =>
    rw [step]
    refine ensures_event (.evolves (.refl h)) fun x hx => ?_
    exact (deliver_effect h o i).mono fun s' hs' => hs'.elim .evolves .stops
  | accept o =>
    rw [step]
    refine ensures_event (.evolves (.refl h)) fun x hx => ?_
    split
    · exact hev (accept_evolves h (h o x hx).1 x _)
    · exact hsame
  | connected o =>
    rw [step]
    refine ensures_event (.evolves (.refl h)) fun x hx => ?_
    split
    · rename_i session done hb
      exact .ite (fun _ => hsame) fun _ => hev (connected_evolves h (h.noSocket hx hb rfl) session)
    · exact hsame
  | engineReady o =>
    rw [step]
    refine ensures_event (.evolves (.refl h)) fun x hx => ?_
    split
    · rename_i b hb
      exact .ite (fun _ => hev (engineReady_evolves h (h.noSocket hx hb rfl) x b)) fun _ => hsame
    · exact hsame
  | engineError o reason =>
    rw [step]
    refine ensures_event (.evolves (.refl h)) fun x hx => ?_
    split
    · rename_i b hb
      exact .ite (fun _ => hev (engineError_evolves h (h.noSocket hx hb rfl) x b reason))
        fun _ => hsame
    · exact hsame
  | pipeTerminated o pipe =>
    rw [step]
    refine ensures_event (.evolves (.refl h)) fun x hx => ?_
    split
    · rename_i b hb
      exact .ite (fun _ => hev (socketPipeTerminated_evolves h hx hb pipe)) fun _ => hsame
    · rename_i b hb
      exact hev (sessionPipeTerminated_evolves h (h.noSocket hx hb rfl) b pipe)
    · exact hsame

theorem Changes.tidy (hc : s.Changes s') : s'.Tidy := by
  cases hc with
  | evolves h' => exact h'.tidy
  | stops h' => exact h'.keeps.1

theorem Tidy.step (h : s.Tidy) {a : CtxAction} (hs : s.step a = .ok s') : s'.Tidy := by
  by_cases hset : ∃ o option value, a = .setsockopt o option value
  · obtain ⟨o, option, value, rfl⟩ := hset
    rcases step_setsockopt hs with ⟨-, rfl⟩ | ⟨x, b, hx, hb, -, rfl⟩
    · exact h
    have ht := (h o x hx).2
    exact h.set hx ⟨ht.nodup, ht.owned, ht.arriving, fun _ => ht.options (by rw [hb]; rfl)⟩
  · by_cases hbind : ∃ o address, a = .bindInproc o address
    · obtain ⟨o, address, rfl⟩ := hbind
      rcases step_bindInproc h hs with ⟨-, rfl⟩ | ⟨-, h'⟩
      · exact h
      · exact h'.tidy
    · exact (step_changes h (fun o option value ha => hset ⟨o, option, value, ha⟩)
        (fun o address ha => hbind ⟨o, address, ha⟩) s' hs).tidy

theorem new_tidy (blocky : Bool) : ({ blocky } : Ctx).Tidy := fun _ _ h => by cases h

theorem run_tidy (h : s.Tidy) {as : List CtxAction} (hr : CheckedRun.run step s as = .ok s') :
    s'.Tidy :=
  CheckedRun.run_inv (fun _ _ _ h hs => h.step hs) h hr

end Ctx

end ServerLink

import ServerLink.Core.Evolution

/-!
# ServerLink.Core.Names

The inproc names of a context (`register_endpoint`, `find_endpoint`, `unregister_endpoints`)
against the sockets that bound them. `Named` runs a context beside a record of the names that
were bound and not unbound since; the table is exact if it finds just the open sockets of the
record.

The table and the endpoint maps of the sockets are updated apart from each other: a second `bind`
takes a name over, and `term_endpoint` drops the endpoint of the socket and leaves the name. As
long as neither happens the table stays exact, because a socket that terminates gives up all its
names.
-/

namespace ServerLink

open CheckedRun Ctx

/-- A context and the names that sockets bound and did not unbind. -/
structure Named where
  ctx : Ctx := {}
  bound : List (String × ObjId) := []

namespace Named

variable {o : ObjId} {address : String}

/-- The record after an action. A closed socket binds nothing. -/
def record (s : Named) : CtxAction → List (String × ObjId)
  | .bindInproc o address => if s.ctx.IsOpen o then s.bound ++ [(address, o)] else s.bound
  | .termEndpoint o ⟨.inproc, address⟩ => s.bound.filter (· ≠ (address, o))
  | _ => s.bound

def step (s : Named) (a : CtxAction) : Except Fault Named :=
  (s.ctx.step a).map fun ctx => { ctx, bound := s.record a }

/-- A connection to an address finds the socket that bound it, as long as it is open. -/
def Exact (s : Named) : Prop :=
  ∀ address o, s.ctx.findEndpoint address = some o ↔ (address, o) ∈ s.bound ∧ s.ctx.IsOpen o

/-- A bind to an address that is bound changes nothing. -/
def Refuses (s : Named) (a : CtxAction) (s' : Named) : Prop :=
  ∀ o address q, a = .bindInproc o address → s.ctx.IsOpen o →
    s.ctx.findEndpoint address = some q → s' = s

/-- No address is bound twice, or unbound by the socket that has it. -/
def Admissible (s : Named) : CtxAction → Prop
  | .bindInproc o address => s.ctx.IsOpen o → s.ctx.findEndpoint address = none
  | .termEndpoint o ⟨.inproc, address⟩ => s.ctx.findEndpoint address ≠ some o
  | _ => True

instance (s : Named) (a : CtxAction) : Decidable (s.Admissible a) := by
  unfold Admissible
  split <;> infer_instance

structure Inv (s : Named) : Prop where
  tidy : s.ctx.Tidy
  created : ∀ address o, (address, o) ∈ s.bound → o < s.ctx.objects.next
  names : s.Exact

variable {s s' : Named} {a : CtxAction}

theorem step_eq_ok (h : s.step a = .ok s') : s.ctx.step a = .ok s'.ctx ∧ s'.bound = s.record a := by
  obtain ⟨ctx, hctx, rfl⟩ := map_eq_ok h
  exact ⟨hctx, rfl⟩

/-! ### Steps -/

/-- What most steps do to the open sockets and to the table: a set of sockets is spared, and the
others lose their names. -/
theorem changes_spares {s s' : Ctx} (h : s.Changes s') :
    ∃ Spared : ObjId → Prop, (∀ o, o < s.objects.next → (s'.IsOpen o ↔ Spared o ∧ s.IsOpen o)) ∧
      ∀ address o, s'.findEndpoint address = some o ↔
        Spared o ∧ s.findEndpoint address = some o := by
  cases h with
  | evolves h =>
    refine ⟨fun _ => True, fun o ho => by rw [h.isOpen_iff ho, true_and], fun address o => ?_⟩
    rw [findEndpoint, h.endpoints, true_and, findEndpoint]
  | @stops q h =>
    refine ⟨(· ≠ q), fun o ho => h.isOpen_iff ho, fun address o => ?_⟩
    simp only [findEndpoint, h.keeps.2.2, unregisterEndpoints]
    split <;> rename_i hq
    · rw [hq]
      simp [eq_comm]
    · refine ⟨fun ho => ⟨?_, ho⟩, And.right⟩
      rintro rfl
      exact hq ho

theorem changes_next {s s' : Ctx} (h : s.Changes s') : s.objects.next ≤ s'.objects.next := by
  cases h with
  | evolves h => exact h.next
  | stops h => exact h.keeps.2.1

/-- The record of a step that the table follows: what it drops was not found. -/
theorem Inv.of_changes (h : s.Inv) (hc : s.ctx.Changes s'.ctx) (hsub : ∀ b ∈ s'.bound, b ∈ s.bound)
    (hdrop : ∀ address o, (address, o) ∈ s.bound → s.ctx.findEndpoint address = some o →
      (address, o) ∈ s'.bound) : s'.Inv where
  tidy := hc.tidy
  created := fun address o hb =>
    Nat.lt_of_lt_of_le (h.created address o (hsub _ hb)) (changes_next hc)
  names := by
    intro address o
    obtain ⟨Spared, hopen, hfind⟩ := changes_spares hc
    rw [hfind]
    constructor
    · intro ⟨hs, hf⟩
      obtain ⟨hb, ho⟩ := (h.names address o).mp hf
      exact ⟨hdrop address o hb hf, (hopen o (h.created address o hb)).mpr ⟨hs, ho⟩⟩
    intro ⟨hb, ho⟩
    have hb := hsub _ hb
    obtain ⟨hs, ho⟩ := (hopen o (h.created address o hb)).mp ho
    exact ⟨hs, (h.names address o).mpr ⟨hb, ho⟩⟩

theorem Inv.setsockopt (h : s.Inv) {option : OptionName} {value : Int}
    (hs : s.step (.setsockopt o option value) = .ok s') : s'.Inv := by
  obtain ⟨hctx, hb⟩ := step_eq_ok hs
  have hb : s'.bound = s.bound := hb
  rcases Ctx.step_setsockopt hctx with ⟨-, hsame⟩ | ⟨x, b, hx, hbody, hterm, hset⟩
  · refine ⟨hsame ▸ h.tidy, ?_, ?_⟩
    · rw [hb, hsame]
      exact h.created
    · unfold Exact
      rw [hb, hsame]
      exact h.names
  have hopen : ∀ q, s'.ctx.IsOpen q ↔ s.ctx.IsOpen q := by
    intro q
    rw [hset, Ctx.IsOpen, Ctx.IsOpen, Ctx.set]
    by_cases hq : q = o
    · subst hq
      simp [hx, hbody, Obj.IsOpen, Body.options?]
    · simp [Arena.cell_set_of_ne _ _ hq]
  refine ⟨h.tidy.step hctx, ?_, fun address q => ?_⟩
  · rw [hb, hset]
    exact h.created
  · rw [hb, hopen, ← h.names, hset]
    rfl

theorem findEndpoint_bindInproc (h : s.Inv) (hs : s.step (.bindInproc o address) = .ok s')
    (hopen : s.ctx.IsOpen o) (address' : String) :
    s'.ctx.findEndpoint address' =
      if address' = address then some o else s.ctx.findEndpoint address' := by
  rcases step_bindInproc h.tidy (step_eq_ok hs).1 with ⟨hno, -⟩ | ⟨-, hev⟩
  · exact absurd hopen hno
  · rw [findEndpoint, hev.endpoints]
    simp [registerEndpoint, Function.update_apply, findEndpoint]

theorem isOpen_bindInproc (h : s.Inv) {q : ObjId} (hs : s.step (.bindInproc o address) = .ok s')
    (hq : q < s.ctx.objects.next) :
    s'.ctx.IsOpen q ↔ s.ctx.IsOpen q := by
  rcases step_bindInproc h.tidy (step_eq_ok hs).1 with ⟨-, hsame⟩ | ⟨-, hev⟩
  · rw [hsame]
  · exact hev.isOpen_iff hq

/-- The address is free: it is bound. -/
theorem Inv.bindInproc (h : s.Inv) (hs : s.step (.bindInproc o address) = .ok s')
    (hfree : s.ctx.IsOpen o → s.ctx.findEndpoint address = none) : s'.Inv := by
  obtain ⟨hctx, hb⟩ := step_eq_ok hs
  by_cases hopen : s.ctx.IsOpen o
  · have hb : s'.bound = s.bound ++ [(address, o)] := hb.trans (if_pos hopen)
    have hlt : o < s.ctx.objects.next := by
      obtain ⟨x, hx, -⟩ := hopen
      exact (h.tidy o x hx).1
    have hcreated : ∀ address' q, (address', q) ∈ s'.bound → q < s.ctx.objects.next := by
      intro address' q hq
      rw [hb] at hq
      rcases List.mem_append.mp hq with hq | hq
      · exact h.created _ _ hq
      · cases List.mem_singleton.mp hq
        exact hlt
    refine ⟨h.tidy.step hctx, fun address' q hq => ?_, fun address' q => ?_⟩
    · rcases step_bindInproc h.tidy hctx with ⟨hno, -⟩ | ⟨-, hev⟩
      · exact absurd hopen hno
      · exact Nat.lt_of_lt_of_le (hcreated _ _ hq) hev.next
    rw [findEndpoint_bindInproc h hs hopen]
    split <;> rename_i ha
    · subst ha
      constructor
      · intro hq
        cases hq
        exact ⟨by simp [hb], (isOpen_bindInproc h hs hlt).mpr hopen⟩
      intro ⟨hq, ho⟩
      have ho := (isOpen_bindInproc h hs (hcreated _ _ hq)).mp ho
      rw [hb] at hq
      rcases List.mem_append.mp hq with hq | hq
      · -- nobody else has the address
        have := (h.names _ _).mpr ⟨hq, ho⟩
        rw [hfree hopen] at this
        cases this
      · cases List.mem_singleton.mp hq
        rfl
    · rw [h.names]
      have hmem : (address', q) ∈ s'.bound ↔ (address', q) ∈ s.bound := by
        rw [hb]
        simp [ha]
      rw [hmem]
      refine and_congr_right fun hq => (isOpen_bindInproc h hs (h.created _ _ hq)).symm
  · have hb : s'.bound = s.bound := hb.trans (if_neg hopen)
    rcases step_bindInproc h.tidy hctx with ⟨-, hsame⟩ | ⟨ho, -⟩
    · refine h.of_changes (.evolves (hsame.symm ▸ .refl h.tidy)) ?_ ?_
      · exact fun b hm => hb ▸ hm
      · exact fun _ _ hm _ => hb ▸ hm
    · exact absurd ho hopen

theorem Inv.step (h : s.Inv) (ha : s.Admissible a) (hs : s.step a = .ok s') : s'.Inv := by
  obtain ⟨hctx, hb⟩ := step_eq_ok hs
  by_cases hset : ∃ o option value, a = .setsockopt o option value
  · obtain ⟨o, option, value, rfl⟩ := hset
    exact h.setsockopt hs
  by_cases hbind : ∃ o address, a = .bindInproc o address
  · obtain ⟨o, address, rfl⟩ := hbind
    exact h.bindInproc hs ha
  have hc := step_changes h.tidy (fun o option value ha => hset ⟨o, option, value, ha⟩)
    (fun o address ha => hbind ⟨o, address, ha⟩) s'.ctx hctx
  by_cases hterm : ∃ o address, a = .termEndpoint o ⟨.inproc, address⟩
  · obtain ⟨o, address, rfl⟩ := hterm
    refine h.of_changes hc (fun b hm => ?_) (fun address' q hm hf => ?_)
    · rw [hb] at hm
      exact (List.mem_filter.mp hm).1
    rw [hb]
    refine List.mem_filter.mpr ⟨hm, decide_eq_true fun heq => ?_⟩
    cases heq
    exact ha hf
  have hb : s'.bound = s.bound := by
    rw [hb]
    unfold record
    split
    · exact absurd ⟨_, _, rfl⟩ hbind
    · exact absurd ⟨_, _, rfl⟩ hterm
    · rfl
  refine h.of_changes hc ?_ ?_
  · exact fun b hm => hb ▸ hm
  · exact fun _ _ hm _ => hb ▸ hm

/-! ### Runs -/

theorem inv_new (blocky : Bool) : Inv { ctx := { blocky } } where
  tidy := new_tidy blocky
  created := nofun
  names := fun address o => by simp [findEndpoint]

/-- A bound address is bound again. -/
theorem not_refuses {q : ObjId} (hs : s.step (.bindInproc o address) = .ok s')
    (hopen : s.ctx.IsOpen o)
    (hq : s.ctx.findEndpoint address = some q) : ¬ s.Refuses (.bindInproc o address) s' := by
  intro hr
  have hsame : s' = s := hr o address q rfl hopen hq
  have hb : s'.bound = s.bound ++ [(address, o)] := (step_eq_ok hs).2.trans (if_pos hopen)
  rw [hsame] at hb
  simpa using congrArg List.length hb

/-- The name is found when it has been unbound. -/
theorem not_exact_of_termEndpoint (h : s.Inv)
    (hs : s.step (.termEndpoint o ⟨.inproc, address⟩) = .ok s')
    (hq : s.ctx.findEndpoint address = some o) : ¬ s'.Exact := by
  intro hexact
  obtain ⟨hctx, hb⟩ := step_eq_ok hs
  have hev := step_termEndpoint h.tidy o _ s'.ctx hctx
  have hfind : s'.ctx.findEndpoint address = some o := by
    rw [findEndpoint, hev.endpoints]
    exact hq
  have hmem := ((hexact address o).mp hfind).1
  rw [hb] at hmem
  have hne := (List.mem_filter.mp hmem).2
  simp at hne

/-- The names stay exact, and a bound address is refused, just if the step is admissible. -/
theorem step_exact_iff (h : s.Inv) (hs : s.step a = .ok s') :
    s'.Exact ∧ s.Refuses a s' ↔ s.Admissible a := by
  constructor
  · intro ⟨hexact, hrefuses⟩
    unfold Admissible
    split
    · rename_i o address
      intro hopen
      cases hf : s.ctx.findEndpoint address with
      | none => rfl
      | some q => exact absurd hrefuses (not_refuses hs hopen hf)
    · exact fun hf => not_exact_of_termEndpoint h hs hf hexact
    · trivial
  · intro ha
    refine ⟨(h.step ha hs).names, fun o address q heq hopen hq => ?_⟩
    subst heq
    rw [ha hopen] at hq
    cases hq

/-- In a run in which no address is bound twice or unbound, the names are exact in every context
reached; and the next step keeps them exact, and refuses an address that is bound, just if it is
of that kind. -/
theorem exact_of_admissible (blocky : Bool) {as : List CtxAction}
    (hrun : run step { ctx := { blocky } } as = .ok s)
    (hadm : CheckedRun.Along step Admissible { ctx := { blocky } } as) :
    s.Exact ∧ ∀ a s', s.step a = .ok s' → (s'.Exact ∧ s.Refuses a s' ↔ s.Admissible a) := by
  have h : s.Inv :=
    run_inv_along (fun _ _ _ h ha hs => h.step ha hs) (inv_new blocky) hadm hrun
  exact ⟨h.names, fun a s' hs => step_exact_iff h hs⟩

/-- Two sockets bind two addresses, and one of them is closed. -/
theorem exact_of_admissible_close :
    ∃ s : Named, run step {} [.createSocket .router, .createSocket .router, .bindInproc 0 "a",
        .bindInproc 1 "b", .close 0] = .ok s ∧
      s.ctx.findEndpoint "a" = none ∧ s.ctx.findEndpoint "b" = some 1 ∧ s.Exact := by
  have hreach : reaches step {} [.createSocket .router, .createSocket .router, .bindInproc 0 "a",
      .bindInproc 1 "b", .close 0] (fun s => decide
        (s.ctx.findEndpoint "a" = none ∧ s.ctx.findEndpoint "b" = some 1)) = true := by
    decide +kernel
  obtain ⟨s, hr, h⟩ := of_reaches hreach
  obtain ⟨ha, hb⟩ := of_decide_eq_true h
  exact ⟨s, hr, ha, hb, (exact_of_admissible true hr (by decide +kernel)).1⟩

/-- A second socket takes an address over from the one that has bound it; and a socket that has
unbound its address is still found. -/
theorem bind_takes_over :
    (∃ s : Named, run step {} [.createSocket .router, .createSocket .router, .bindInproc 0 "a",
        .bindInproc 1 "a"] = .ok s ∧
      ("a", 0) ∈ s.bound ∧ s.ctx.IsOpen 0 ∧ s.ctx.findEndpoint "a" = some 1 ∧ ¬ s.Exact) ∧
    ∃ s : Named, run step {} [.createSocket .router, .bindInproc 0 "a",
        .termEndpoint 0 ⟨.inproc, "a"⟩] = .ok s ∧
      ("a", 0) ∉ s.bound ∧ s.ctx.findEndpoint "a" = some 0 ∧ ¬ s.Exact := by
  have htwice : reaches step {} [.createSocket .router, .createSocket .router, .bindInproc 0 "a",
      .bindInproc 1 "a"] (fun s => decide (("a", 0) ∈ s.bound ∧ s.ctx.IsOpen 0 ∧
        s.ctx.findEndpoint "a" = some 1)) = true := by
    decide +kernel
  have hunbound : reaches step {} [.createSocket .router, .bindInproc 0 "a",
      .termEndpoint 0 ⟨.inproc, "a"⟩] (fun s => decide (("a", 0) ∉ s.bound ∧
        s.ctx.findEndpoint "a" = some 0)) = true := by
    decide +kernel
  constructor
  · obtain ⟨s, hr, h⟩ := of_reaches htwice
    obtain ⟨hb, hopen, hf⟩ := of_decide_eq_true h
    refine ⟨s, hr, hb, hopen, hf, fun hexact => ?_⟩
    have := (hexact "a" 0).mpr ⟨hb, hopen⟩
    rw [hf] at this
    cases this
  · obtain ⟨s, hr, h⟩ := of_reaches hunbound
    obtain ⟨hb, hf⟩ := of_decide_eq_true h
    exact ⟨s, hr, hb, hf, fun hexact => hb ((hexact "a" 0).mp hf).1⟩

end Named

end ServerLink

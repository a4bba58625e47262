import ServerLink.Lib.Arena

/-!
# Ownership trees

Objects that are deleted from the leaves up. A new object is announced to its owner, which takes
it over when the announcement arrives. Later the owner tells the object to stop; the object stops
its own children first, then it is deleted and acknowledges. No object is told twice, and no
acknowledgement is lost. An owner that is deleted while something is announced to it leaves a
child behind, which nobody tells anything any more.

A `Node` counts what is noted about other objects, in the memory of an object or in a message
that is on its way to it. `Inv` ties the counts of an owner to its children: a child is noted
exactly once while both live, and an acknowledgement is expected exactly while it is being stopped
or its acknowledgement is on the way. An object without an owner stops by itself.

* `Inv.alloc`, `Inv.launch` — a new object; it is given an owner;
* `Inv.tell` — children are taken over or told to stop;
* `Inv.delete`, `Inv.ack` — a stopped object is deleted; its acknowledgement is handled;
* `Inv.settled_iff` — the counts are zero exactly if no child is left.
-/

namespace Ownership

/-- What an object and the messages to it note about each object, and how often the object has
been told to stop. -/
structure Node where
  owner : Option Nat := none
  entering : Nat → Nat := fun _ => 0
  owned : Nat → Nat := fun _ => 0
  unacked : Nat → Nat := fun _ => 0
  acked : Nat → Nat := fun _ => 0
  told : Nat := 0
  stopped : Bool := false

/-- What `p` may have noted about `c`, which is deleted, a child of `p` or somebody else's. -/
def Linked (p : Nat) (x : Node) (c : Nat) : Option Node → Prop
  | none => x.entering c = 0 ∧ x.owned c = 0 ∧ x.unacked c = x.acked c
  | some y =>
    if y.owner = some p then
      x.acked c = 0 ∧ x.unacked c = y.told ∧ x.entering c + x.owned c + x.unacked c = 1
    else x.entering c = 0 ∧ x.owned c = 0 ∧ x.unacked c = 0 ∧ x.acked c = 0

variable {f f' : Arena Node} {p c : Nat} {x x' y : Node}

theorem linked_none : Linked p x c none ↔
    x.entering c = 0 ∧ x.owned c = 0 ∧ x.unacked c = x.acked c := Iff.rfl

theorem linked_child (h : y.owner = some p) : Linked p x c (some y) ↔
    x.acked c = 0 ∧ x.unacked c = y.told ∧ x.entering c + x.owned c + x.unacked c = 1 := by
  simp only [Linked, if_pos h]

theorem linked_other (h : y.owner ≠ some p) : Linked p x c (some y) ↔
    x.entering c = 0 ∧ x.owned c = 0 ∧ x.unacked c = 0 ∧ x.acked c = 0 := by
  simp only [Linked, if_neg h]

/-- Only what is noted about `c` matters, and who owns `c` and how often it was told. -/
theorem Linked.congr {y? y'? : Option Node} (h : Linked p x c y?)
    (he : x'.entering c = x.entering c) (ho : x'.owned c = x.owned c)
    (hu : x'.unacked c = x.unacked c) (ha : x'.acked c = x.acked c)
    (hy : y'?.map (fun y => (y.owner, y.told)) = y?.map fun y => (y.owner, y.told)) :
    Linked p x' c y'? := by
  cases y? <;> cases y'? <;> simp_all [Linked]

/-- The invariant of an ownership tree. -/
structure Inv (f : Arena Node) : Prop where
  older : ∀ c y p, f.cell c = some y → y.owner = some p → p < c
  told : ∀ c y, f.cell c = some y → y.told ≤ 1 ∧ (y.owner = none → y.told = y.stopped.toNat)
  created : ∀ p x, f.cell p = some x → p < f.next
  fresh : ∀ p x c, f.cell p = some x → f.next ≤ c → x.unacked c = 0
  linked : ∀ p x c, f.cell p = some x → Linked p x c (f.cell c)

theorem inv_empty : Inv {} where
  older := nofun
  told := nofun
  created := nofun
  fresh := nofun
  linked := nofun

theorem Inv.cell_of_next_le (h : Inv f) (hc : f.next ≤ c) : f.cell c = none := by
  cases hx : f.cell c with
  | none => rfl
  | some x => exact absurd (h.created c x hx) (Nat.not_lt.mpr hc)

theorem Inv.owner_ne (h : Inv f) (hx : f.cell p = some x) : x.owner ≠ some p :=
  fun ho => Nat.lt_irrefl p (h.older p x p hx ho)

/-! ### New objects -/

theorem Inv.alloc (h : Inv f) : Inv (f.alloc {}) := by
  have hold : ∀ q z, (f.alloc {}).cell q = some z → q = f.next ∧ z = {} ∨
      q ≠ f.next ∧ f.cell q = some z := by
    intro q z hz
    by_cases hq : q = f.next
    · subst hq
      exact .inl ⟨rfl, (Option.some.inj ((Arena.cell_alloc_next f _).symm.trans hz)).symm⟩
    · exact .inr ⟨hq, (Arena.cell_alloc_of_ne f _ hq).symm.trans hz⟩
  constructor
  · intro c y p hy hp
    rcases hold c y hy with ⟨-, rfl⟩ | ⟨-, hy⟩
    · cases hp
    · exact h.older c y p hy hp
  · intro c y hy
    rcases hold c y hy with ⟨-, rfl⟩ | ⟨-, hy⟩
    · exact ⟨Nat.zero_le 1, fun _ => rfl⟩
    · exact h.told c y hy
  · intro p x hx
    rcases hold p x hx with ⟨rfl, -⟩ | ⟨-, hx⟩
    · exact Nat.lt_succ_self _
    · exact Nat.lt_succ_of_lt (h.created p x hx)
  · intro p x c hx hc
    rcases hold p x hx with ⟨-, rfl⟩ | ⟨-, hx⟩
    · rfl
    · exact h.fresh p x c hx (Nat.le_of_succ_le hc)
  intro p x c hx
  rcases hold p x hx with ⟨rfl, rfl⟩ | ⟨hp, hx⟩
  · cases hy : (f.alloc {}).cell c with
    | none => exact ⟨rfl, rfl, rfl⟩
    | some y =>
      -- the new object cannot be an owner already
      refine (linked_other fun ho => ?_).mpr ⟨rfl, rfl, rfl, rfl⟩
      rcases hold c y hy with ⟨-, rfl⟩ | ⟨-, hy⟩
      · cases ho
      · exact absurd (h.created c y hy) (Nat.not_lt.mpr (Nat.le_of_lt (h.older c y _ hy ho)))
  have hl := h.linked p x c hx
  by_cases hc : c = f.next
  · subst hc
    rw [h.cell_of_next_le (Nat.le_refl _)] at hl
    obtain ⟨he, ho, hua⟩ := hl
    have hu := h.fresh p x f.next hx (Nat.le_refl _)
    rw [Arena.cell_alloc_next]
    exact (linked_other (by simp)).mpr ⟨he, ho, hu, hua ▸ hu⟩
  · rwa [Arena.cell_alloc_of_ne f _ hc]

/-- Objects change, but none is made: an owner that is new is older. -/
theorem Inv.of_cells (h : Inv f) (hnext : f'.next = f.next)
    (hold : ∀ q z', f'.cell q = some z' → ∃ z, f.cell q = some z ∧
      ∀ r, z'.owner = some r → z.owner = some r ∨ r < q)
    (htold : ∀ q z', f'.cell q = some z' →
      z'.told ≤ 1 ∧ (z'.owner = none → z'.told = z'.stopped.toNat))
    (hfresh : ∀ q z' c, f'.cell q = some z' → f.next ≤ c → z'.unacked c = 0)
    (hlinked : ∀ q z' c, f'.cell q = some z' → Linked q z' c (f'.cell c)) : Inv f' where
  older := by
    intro q z' r hz' hr
    obtain ⟨z, hz, hor⟩ := hold q z' hz'
    rcases hor r hr with hr | hlt
    · exact h.older q z r hz hr
    · exact hlt
  told := htold
  created := by
    intro q z' hz'
    obtain ⟨z, hz, -⟩ := hold q z' hz'
    exact hnext ▸ h.created q z hz
  fresh := fun q z' c hz' hc => hfresh q z' c hz' (hnext ▸ hc)
  linked := hlinked

/-- An object notes nothing about a living object it does not own. -/
theorem Inv.unnoted (h : Inv f) (hx : f.cell p = some x) (hy : f.cell c = some y)
    (hne : y.owner ≠ some p) :
    x.entering c = 0 ∧ x.owned c = 0 ∧ x.unacked c = 0 ∧ x.acked c = 0 := by
  have hl := h.linked p x c hx
  rw [hy] at hl
  exact (linked_other hne).mp hl

/-- An object without an owner is given one, which is told about it. -/
theorem Inv.launch (h : Inv f) (hx : f.cell p = some x) (hy : f.cell c = some y)
    (hroot : y.owner = none) (htold : y.told = 0) (hlt : p < c) :
    Inv ((f.set c { y with owner := some p }).set p
      { x with entering := fun d => x.entering d + if d = c then 1 else 0 }) := by
  have hpc : p ≠ c := Nat.ne_of_lt hlt
  have hcell : ∀ q, ((f.set c { y with owner := some p }).set p
      { x with entering := fun d => x.entering d + if d = c then 1 else 0 }).cell q =
      if q = p then some { x with entering := fun d => x.entering d + if d = c then 1 else 0 }
      else if q = c then some { y with owner := some p } else f.cell q := by
    intro q
    simp [Arena.set, Function.update_apply]
  refine h.of_cells rfl ?_ ?_ ?_ ?_
  · intro q z' hz'
    rw [hcell] at hz'
    split at hz'
    · rename_i hq
      cases hz'
      exact ⟨x, hq ▸ hx, fun _ => .inl⟩
    split at hz'
    · rename_i hq
      cases hz'
      refine ⟨y, hq ▸ hy, fun r hr => ?_⟩
      cases hr
      exact .inr (hq ▸ hlt)
    · exact ⟨z', hz', fun _ => .inl⟩
  · intro q z' hz'
    rw [hcell] at hz'
    split at hz'
    · cases hz'
      exact h.told p x hx
    split at hz'
    · cases hz'
      exact ⟨(h.told c y hy).1, by simp⟩
    · exact h.told q z' hz'
  · intro q z' d hz' hd
    rw [hcell] at hz'
    split at hz'
    · cases hz'
      exact h.fresh p x d hx hd
    split at hz'
    · cases hz'
      exact h.fresh c y d hy hd
    · exact h.fresh q z' d hz' hd
  intro q z' d hz'
  rw [hcell] at hz' ⊢
  -- nobody has noted `c` so far
  have hzero : ∀ r w, f.cell r = some w →
      w.entering c = 0 ∧ w.owned c = 0 ∧ w.unacked c = 0 ∧ w.acked c = 0 :=
    fun r w hw => h.unnoted hw hy (by simp [hroot])
  split at hz'
  · rename_i hq
    subst hq
    cases hz'
    have hl := h.linked q x d hx
    by_cases hdc : d = c
    · subst hdc
      obtain ⟨he, ho, hu, ha⟩ := hzero q x hx
      rw [if_neg (Ne.symm hpc), if_pos rfl]
      exact (linked_child rfl).mpr ⟨ha, hu.trans htold.symm, by simp [he, ho, hu]⟩
    refine hl.congr (by simp [hdc]) rfl rfl rfl ?_
    by_cases hdq : d = q
    · rw [hdq, if_pos rfl, hx]
      rfl
    · rw [if_neg hdq, if_neg hdc]
  rename_i hq
  have hother : ∀ w, f.cell q = some w → w.entering = z'.entering → w.owned = z'.owned →
      w.unacked = z'.unacked → w.acked = z'.acked → Linked q z' d (if d = p then
        some { x with entering := fun d => x.entering d + if d = c then 1 else 0 }
        else if d = c then some { y with owner := some p } else f.cell d) := by
    intro w hw he ho hu ha
    have hl := h.linked q w d hw
    by_cases hdc : d = c
    · subst hdc
      have := hzero q w hw
      rw [if_neg (Ne.symm hpc), if_pos rfl]
      refine (linked_other fun heq => hq (Option.some.inj heq).symm).mpr ?_
      rwa [← he, ← ho, ← hu, ← ha]
    refine hl.congr (by rw [he]) (by rw [ho]) (by rw [hu]) (by rw [ha]) ?_
    by_cases hdp : d = p
    · rw [hdp, if_pos rfl, hx]
      rfl
    · rw [if_neg hdp, if_neg hdc]
  split at hz'
  · rename_i hqc
    cases hz'
    exact hother y (hqc ▸ hy) rfl rfl rfl rfl
  · exact hother z' hz' rfl rfl rfl rfl

/-! ### Children are taken over and told to stop -/

/-- An object that is announced is not noted otherwise. -/
theorem Inv.owned_of_entering (h : Inv f) (hx : f.cell p = some x) (hc : 0 < x.entering c) :
    x.owned c = 0 := by
  have hl := h.linked p x c hx
  cases hy : f.cell c <;> grind [Linked]

/-- `p` takes over children that were announced, and tells `T c` times the child `c` to stop.
The count of an object without an owner is of no concern. -/
theorem Inv.tell (h : Inv f) (hx : f.cell p = some x) {T : Nat → Nat} (hnext : f'.next = f.next)
    (hp : f'.cell p = some x')
    (hrest : ∀ q, q ≠ p → f'.cell q = (f.cell q).map fun y => { y with told := y.told + T q })
    (howner : x'.owner = x.owner) (htold : x'.told = x.told ∨ x.owner = none)
    (hroot : x.owner = none → x'.told = x'.stopped.toNat) (hacked : ∀ c, x'.acked c = x.acked c)
    (hunacked : ∀ c, x'.unacked c = x.unacked c + T c)
    (hmoved : ∀ c, x'.entering c + x'.owned c + T c = x.entering c + x.owned c) : Inv f' := by
  have hself := h.unnoted hx hx (h.owner_ne hx)
  -- only children of `p` are told
  have hT : ∀ c, (∀ y, f.cell c = some y → y.owner ≠ some p) → T c = 0 := by
    intro c hc
    have hl := h.linked p x c hx
    have := hmoved c
    cases hy : f.cell c <;> grind [Linked]
  have hold : ∀ q z', f'.cell q = some z' → q = p ∧ z' = x' ∨
      q ≠ p ∧ ∃ z, f.cell q = some z ∧ z' = { z with told := z.told + T q } := by
    intro q z' hz'
    by_cases hq : q = p
    · exact .inl ⟨hq, (Option.some.inj (hp.symm.trans (hq ▸ hz'))).symm⟩
    · rw [hrest q hq, Option.map_eq_some_iff] at hz'
      obtain ⟨z, hz, rfl⟩ := hz'
      exact .inr ⟨hq, z, hz, rfl⟩
  refine h.of_cells hnext ?_ ?_ ?_ ?_
  · intro q z' hz'
    rcases hold q z' hz' with ⟨rfl, rfl⟩ | ⟨-, z, hz, rfl⟩
    · exact ⟨x, hx, fun r hr => .inl (howner ▸ hr)⟩
    · exact ⟨z, hz, fun _ => .inl⟩
  · intro q z' hz'
    rcases hold q z' hz' with ⟨rfl, rfl⟩ | ⟨-, z, hz, rfl⟩
    · refine ⟨?_, fun ho => hroot (howner ▸ ho)⟩
      rcases htold with htold | ho
      · exact htold ▸ (h.told q x hx).1
      · exact hroot ho ▸ Bool.toNat_le _
    -- a child is told at most once as long as its owner lives
    have := h.told q z hz
    have := hT q
    have := hmoved q
    have hl := h.linked p x q hx
    grind [Linked]
  · intro q z' c hz' hc
    rcases hold q z' hz' with ⟨rfl, rfl⟩ | ⟨-, z, hz, rfl⟩
    · rw [hunacked, h.fresh q x c hx hc, hT c]
      intro y hy
      rw [h.cell_of_next_le hc] at hy
      cases hy
    · exact h.fresh q z c hz hc
  intro q z' c hz'
  rcases hold q z' hz' with ⟨rfl, rfl⟩ | ⟨hq, z, hz, rfl⟩
  · have hl := h.linked q x c hx
    have hu := hunacked c
    have ha := hacked c
    have hm := hmoved c
    by_cases hc : c = q
    · subst hc
      rw [hp]
      refine (linked_other (howner ▸ h.owner_ne hx)).mpr ?_
      omega
    rw [hrest c hc]
    cases hy : f.cell c <;> grind [Linked]
  · have hl := h.linked q z c hz
    by_cases hc : c = p
    · subst hc
      rw [hp]
      rw [hx] at hl
      rcases htold with htold | hroot
      · exact hl.congr rfl rfl rfl rfl (by simp [howner, htold])
      · have := (linked_other (by simp [hroot])).mp hl
        exact (linked_other (by simp [howner, hroot])).mpr this
    rw [hrest c hc]
    have := hT c
    cases hy : f.cell c <;> grind [Linked]

/-! ### Objects are deleted -/

/-- An acknowledgement comes from an object that is deleted, and it is waited for. -/
theorem Inv.unacked_of_acked (h : Inv f) (hx : f.cell p = some x) (hc : 0 < x.acked c) :
    f.cell c = none ∧ x.unacked c = x.acked c := by
  have hl := h.linked p x c hx
  cases hy : f.cell c <;> grind [Linked]

theorem Inv.ack (h : Inv f) (hx : f.cell p = some x) (hc : 0 < x.acked c) :
    Inv (f.set p { x with
      unacked := fun d => x.unacked d - if d = c then 1 else 0
      acked := fun d => x.acked d - if d = c then 1 else 0 }) := by
  obtain ⟨hdead, hua⟩ := h.unacked_of_acked hx hc
  have hold : ∀ q z', (f.set p { x with
      unacked := fun d => x.unacked d - if d = c then 1 else 0
      acked := fun d => x.acked d - if d = c then 1 else 0 }).cell q = some z' →
      ∃ z, f.cell q = some z ∧ z'.owner = z.owner ∧ z'.told = z.told ∧ z'.stopped = z.stopped ∧
        ∀ d, z'.unacked d ≤ z.unacked d ∧ (Linked q z d (f.cell d) → Linked q z' d (f.cell d)) := by
    intro q z' hz'
    by_cases hq : q = p
    · subst hq
      cases (Arena.cell_set f q _).symm.trans hz'
      refine ⟨x, hx, rfl, rfl, rfl, fun d => ⟨Nat.sub_le _ _, fun hl => ?_⟩⟩
      by_cases hd : d = c
      · subst hd
        rw [hdead, linked_none] at hl ⊢
        simp [hl]
      · exact hl.congr rfl rfl (by simp [hd]) (by simp [hd]) rfl
    · exact ⟨z', (Arena.cell_set_of_ne f _ hq).symm.trans hz', rfl, rfl, rfl,
        fun d => ⟨Nat.le_refl _, id⟩⟩
  refine h.of_cells rfl ?_ ?_ ?_ ?_
  · intro q z' hz'
    obtain ⟨z, hz, ho, -⟩ := hold q z' hz'
    exact ⟨z, hz, fun r hr => .inl (ho ▸ hr)⟩
  · intro q z' hz'
    obtain ⟨z, hz, ho, ht, hs, -⟩ := hold q z' hz'
    rw [ho, ht, hs]
    exact h.told q z hz
  · intro q z' d hz' hd
    obtain ⟨z, hz, -, -, -, hl⟩ := hold q z' hz'
    exact Nat.eq_zero_of_le_zero (h.fresh q z d hz hd ▸ (hl d).1)
  intro q z' d hz'
  obtain ⟨z, hz, -, -, -, hl⟩ := hold q z' hz'
  refine ((hl d).2 (h.linked q z d hz)).congr rfl rfl rfl rfl ?_
  by_cases hd : d = p
  · rw [hd, Arena.cell_set, hx]
    rfl
  · rw [Arena.cell_set_of_ne f _ hd]

/-- The counts of an object are zero exactly if no child is left and no acknowledgement is on
the way. -/
theorem Inv.settled_iff (h : Inv f) (hx : f.cell p = some x) :
    (∀ c, x.entering c = 0 ∧ x.owned c = 0 ∧ x.unacked c = 0) ↔
      (∀ c y, f.cell c = some y → y.owner ≠ some p) ∧ ∀ c, x.acked c = 0 := by
  constructor
  · intro hzero
    have hchild : ∀ c y, f.cell c = some y → y.owner ≠ some p := by
      intro c y hy ho
      have hl := h.linked p x c hx
      rw [hy, linked_child ho] at hl
      have := hzero c
      omega
    refine ⟨hchild, fun c => Nat.eq_zero_of_not_pos fun hc => ?_⟩
    have := (h.unacked_of_acked hx hc).2
    have := hzero c
    omega
  · intro ⟨hchild, hacked⟩ c
    have hl := h.linked p x c hx
    have := hacked c
    cases hy : f.cell c <;> grind [Linked]

/-- An object that was told to stop is deleted, and its owner is sent an acknowledgement. -/
theorem Inv.delete (h : Inv f) (hx : f.cell p = some x) (htold : 0 < x.told)
    (hnext : f'.next = f.next) (hp : f'.cell p = none)
    (hrest : ∀ q, q ≠ p → f'.cell q = (f.cell q).map fun y =>
      { y with acked := fun c => y.acked c + if c = p ∧ x.owner = some q then 1 else 0 }) :
    Inv f' := by
  have hold : ∀ q z', f'.cell q = some z' → q ≠ p ∧ ∃ z, f.cell q = some z ∧
      z' = { z with acked := fun c => z.acked c + if c = p ∧ x.owner = some q then 1 else 0 } := by
    intro q z' hz'
    have hq : q ≠ p := fun hq => by rw [hq, hp] at hz'; cases hz'
    rw [hrest q hq, Option.map_eq_some_iff] at hz'
    obtain ⟨z, hz, rfl⟩ := hz'
    exact ⟨hq, z, hz, rfl⟩
  refine h.of_cells hnext ?_ ?_ ?_ ?_
  · intro q z' hz'
    obtain ⟨-, z, hz, rfl⟩ := hold q z' hz'
    exact ⟨z, hz, fun _ => .inl⟩
  · intro q z' hz'
    obtain ⟨-, z, hz, rfl⟩ := hold q z' hz'
    exact h.told q z hz
  · intro q z' c hz' hc
    obtain ⟨-, z, hz, rfl⟩ := hold q z' hz'
    exact h.fresh q z c hz hc
  intro q z' c hz'
  obtain ⟨hq, z, hz, rfl⟩ := hold q z' hz'
  have hl := h.linked q z c hz
  by_cases hc : c = p
  · subst hc
    rw [hx] at hl
    rw [hp, linked_none]
    grind [Linked]
  · rw [hrest c hc]
    refine hl.congr rfl rfl rfl (by simp [hc]) ?_
    cases f.cell c <;> rfl

end Ownership

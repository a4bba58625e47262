import ServerLink.Lib.FlushQueue

/-!
# Streams of groups

A stream of items each of which says whether its group goes on (`more`). A stretch of the
stream is `Whole` if it leads from between two groups to between two groups; it is then a
list of groups (`exists_groups`), and a whole initial part of it is an initial part of that
list (`take_of_whole`).

A `FlushQueue` that is told of every item whether its group goes on publishes whole groups
only (`Grouped`): a reader that is inside a group always finds the rest of it.
-/

namespace Groups

open List

variable {α : Type} (more : α → Bool)

/-- Is a group open after these items? -/
def midway : Bool → List α → Bool
  | b, [] => b
  | _, x :: xs => midway (more x) xs

/-- The items form groups. -/
def Whole (l : List α) : Prop := midway more false l = false

/-- A single group. -/
def IsGroup (g : List α) : Prop :=
  ∃ init last, g = init ++ [last] ∧ (∀ x ∈ init, more x = true) ∧ more last = false

/-- The items without those of a group that is still open. -/
def finished (l : List α) : List α := (l.reverse.dropWhile more).reverse

variable {more}

theorem midway_append (b : Bool) (l l' : List α) :
    midway more b (l ++ l') = midway more (midway more b l) l' := by
  induction l generalizing b with
  | nil => rfl
  | cons x l ih => exact ih (more x)

theorem midway_concat (b : Bool) (l : List α) (x : α) :
    midway more b (l ++ [x]) = more x := midway_append b l [x]

theorem whole_nil : Whole more [] := rfl

theorem Whole.append {l l' : List α} (h : Whole more l) (h' : Whole more l') :
    Whole more (l ++ l') := by
  rw [Whole, midway_append, h]
  exact h'

theorem whole_flatMap {β : Type} {f : β → List α} {bs : List β}
    (h : ∀ b ∈ bs, Whole more (f b)) : Whole more (bs.flatMap f) := by
  induction bs with
  | nil => exact whole_nil
  | cons b bs ih => exact (h b (by simp)).append (ih fun b' hb' => h b' (mem_cons_of_mem _ hb'))

/-- What comes before and after a whole stretch decides alike. -/
theorem Whole.midway_append {l : List α} (h : Whole more l) (l' : List α) :
    midway more false (l ++ l') = midway more false l' := by
  rw [Groups.midway_append, h]

theorem Whole.of_append {l l' : List α} (h : Whole more l) (h' : Whole more (l ++ l')) :
    Whole more l' := (h.midway_append l').symm.trans h'

/-- A stretch of items that all go on does not end a group. -/
theorem midway_of_all {l : List α} (hne : l ≠ []) (h : ∀ x ∈ l, more x = true) (b : Bool) :
    midway more b l = true := by
  rw [← dropLast_concat_getLast hne, midway_concat]
  exact h _ (getLast_mem hne)

theorem IsGroup.whole {g : List α} (h : IsGroup more g) : Whole more g := by
  obtain ⟨init, last, rfl, -, hlast⟩ := h
  exact (midway_concat false init last).trans hlast

/-- The items of an open group are taken away again. -/
theorem finished_append {l r : List α} (hl : Whole more l) (hr : ∀ x ∈ r, more x = true) :
    finished more (l ++ r) = l := by
  have hrev : l.reverse.dropWhile more = l.reverse := by
    rcases eq_nil_or_concat l with rfl | ⟨init, last, hcat⟩
    · rfl
    rw [concat_eq_append] at hcat
    subst hcat
    have hlast : more last = false := (midway_concat false init last).symm.trans hl
    simp [hlast]
  rw [finished, reverse_append, dropWhile_append_of_pos (by simpa using hr), hrev, reverse_reverse]

/-! ### Lists of groups -/

theorem isGroup_singleton {x : α} (h : more x = false) : IsGroup more [x] :=
  ⟨[], x, rfl, by simp, h⟩

theorem IsGroup.cons {x : α} {g : List α} (h : IsGroup more g) (hx : more x = true) :
    IsGroup more (x :: g) := by
  obtain ⟨init, last, rfl, hinit, hlast⟩ := h
  exact ⟨x :: init, last, rfl, by simpa [hx] using hinit, hlast⟩

/-- From the beginning of a group or from inside of one, to the end of one. -/
theorem groups_of_midway (l : List α) :
    (midway more false l = false →
        ∃ gs : List (List α), l = gs.flatten ∧ ∀ g ∈ gs, IsGroup more g) ∧
      (midway more true l = false →
        ∃ (g : List α) (gs : List (List α)), l = g ++ gs.flatten ∧ IsGroup more g ∧
          ∀ g ∈ gs, IsGroup more g) := by
  induction l with
  | nil => exact ⟨fun _ => ⟨[], rfl, by simp⟩, nofun⟩
  | cons x l ih =>
    -- The first group, and the others.
    have hcons : midway more (more x) l = false →
        ∃ (g : List α) (gs : List (List α)), x :: l = g ++ gs.flatten ∧ IsGroup more g ∧
          ∀ g ∈ gs, IsGroup more g := by
      intro h
      cases hx : more x with
      | false =>
        rw [hx] at h
        obtain ⟨gs, rfl, hgs⟩ := ih.1 h
        exact ⟨[x], gs, rfl, isGroup_singleton hx, hgs⟩
      | true =>
        rw [hx] at h
        obtain ⟨g, gs, rfl, hg, hgs⟩ := ih.2 h
        exact ⟨x :: g, gs, rfl, hg.cons hx, hgs⟩
    refine ⟨fun h => ?_, hcons⟩
    obtain ⟨g, gs, hl, hg, hgs⟩ := hcons h
    exact ⟨g :: gs, hl, by simpa [hg] using hgs⟩

theorem exists_groups {l : List α} (h : Whole more l) :
    ∃ gs : List (List α), l = gs.flatten ∧ ∀ g ∈ gs, IsGroup more g :=
  (groups_of_midway l).1 h

/-- A whole initial part of some groups consists of the first ones of them. -/
theorem take_of_whole {gs : List (List α)} :
    ∀ {l l' : List α}, (∀ g ∈ gs, IsGroup more g) → gs.flatten = l ++ l' → Whole more l →
      ∃ k, l = (gs.take k).flatten := by
  induction gs with
  | nil =>
    intro l l' _ hl _
    exact ⟨0, (append_eq_nil_iff.mp hl.symm).1⟩
  | cons g gs ih =>
    intro l l' hgs hl hw
    have hg : IsGroup more g := hgs g (by simp)
    rcases append_eq_append_iff.mp hl with ⟨r, rfl, hr⟩ | ⟨r, hgr, -⟩
    · obtain ⟨k, rfl⟩ := ih (fun g' hg' => hgs g' (mem_cons_of_mem _ hg')) hr
        (hg.whole.of_append hw)
      exact ⟨k + 1, by rw [take_succ_cons, flatten_cons]⟩
    -- The part ends inside of the first group, so it is empty or all of it.
    by_cases hr : r = []
    · subst hr
      exact ⟨1, by simp [hgr]⟩
    obtain ⟨init, last, rfl, hinit, -⟩ := hg
    have hsub : l <+: init := by
      rw [← dropLast_concat_getLast hr, ← append_assoc] at hgr
      exact ⟨_, (append_inj' hgr rfl).1.symm⟩
    by_cases hl0 : l = []
    · exact ⟨0, hl0⟩
    · have hopen := midway_of_all hl0 (fun x hx => hinit x (hsub.subset hx)) false
      rw [hw] at hopen
      cases hopen

end Groups

/-! ### Queues that publish in groups -/

namespace FlushQueue

open Groups

variable {α : Type} {more : α → Bool} {b : Bool} {q : FlushQueue α}

/-- What is published goes to the end of a group, from where the reader is (`b` if it is
inside of one), and only the parts of an open group are incomplete. -/
structure Grouped (more : α → Bool) (b : Bool) (q : FlushQueue α) : Prop where
  flushed : midway more b q.flushed = false
  pending : Whole more q.pending
  incomplete : ∀ x ∈ q.incomplete, more x = true

theorem grouped_empty : Grouped more false ({} : FlushQueue α) := ⟨rfl, rfl, by simp⟩

theorem Grouped.write (h : q.Grouped more b) (x : α) : (q.write x (more x)).Grouped more b := by
  unfold FlushQueue.write
  split
  · refine ⟨h.flushed, h.pending, fun y hy => ?_⟩
    rcases List.mem_append.mp hy with hy | hy
    · exact h.incomplete y hy
    · rw [List.mem_singleton.mp hy]
      assumption
  · refine ⟨h.flushed, ?_, by simp⟩
    rw [Whole, ← List.append_assoc, midway_concat]
    simpa using ‹¬more x = true›

theorem Grouped.flush (h : q.Grouped more b) : q.flush.2.Grouped more b := by
  refine ⟨?_, ?_, ?_⟩
  · rw [flush_flushed, midway_append, h.flushed]
    exact h.pending
  · rw [flush_pending]
    exact whole_nil
  · rw [flush_incomplete]
    exact h.incomplete

theorem Grouped.unwriteAll (h : q.Grouped more b) : q.unwriteAll.2.Grouped more b :=
  ⟨h.flushed, h.pending, by simp [FlushQueue.unwriteAll]⟩

theorem Grouped.pop (h : q.Grouped more b) {x : α} {rest : List α} (hf : q.flushed = x :: rest) :
    ({ q with flushed := rest } : FlushQueue α).Grouped more (more x) := by
  refine ⟨?_, h.pending, h.incomplete⟩
  have hrest := h.flushed
  rw [hf] at hrest
  exact hrest

/-- **A reader inside of a group finds the next item.** -/
theorem Grouped.exists_next (h : q.Grouped more true) : ∃ x rest, q.flushed = x :: rest := by
  cases hf : q.flushed with
  | nil =>
    have hopen := h.flushed
    rw [hf] at hopen
    cases hopen
  | cons x rest => exact ⟨x, rest, rfl⟩

/-- All complete items, after those that were read. -/
theorem Grouped.whole (h : q.Grouped more b) {l : List α} (hb : midway more false l = b) :
    Whole more (l ++ q.flushed) ∧ Whole more (l ++ q.complete) := by
  have hl : Whole more (l ++ q.flushed) := by
    rw [Whole, midway_append, hb]
    exact h.flushed
  refine ⟨hl, ?_⟩
  rw [complete, ← List.append_assoc]
  exact hl.append h.pending

end FlushQueue

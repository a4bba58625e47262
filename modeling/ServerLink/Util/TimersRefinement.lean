import ServerLink.Util.Schedule

/-!
# ServerLink.Util.TimersRefinement

Timers refine a schedule. A timer is live if its entry has no mark; the lemmas below say what
each operation on the map and the marks does to the live timers. The traversal of `execute` has
two parts: the entries that are due, to which nothing is added while the loop is at them, and the
later ones, of which those at the front that are marked are dropped.
-/

namespace ServerLink

open Multimap Function List Schedule Timers

namespace Timers

variable {H : Type} {l m : List (Nat × Timer H)} {e : Nat × Timer H} {M : Finset Int} {n : Int}
  {timerId : Int}

/-- What an entry says about its timer. -/
def slotOf (e : Nat × Timer H) : Slot H := ⟨e.1, e.2.interval, e.2.handler⟩

/-- The timers of a map that have no mark. -/
def liveIn (l : List (Nat × Timer H)) (M : Finset Int) (timerId : Int) : Option (Slot H) :=
  if timerId ∈ M then none else (l.find? fun e => e.2.timerId = timerId).map slotOf

/-- The schedule that timers stand for. -/
def schedule (s : Timers H) : Schedule H where
  lastId := s.nextTimerId
  live := liveIn s.entries s.cancelledTimers

/-- The ids of the entries. -/
def ids (l : List (Nat × Timer H)) : List Int := l.map fun e => e.2.timerId

/-- A map in order: each timer has one entry, and only timers in the map are marked. No interval is
empty. -/
structure Tidy (n : Int) (l : List (Nat × Timer H)) (M : Finset Int) : Prop where
  sorted : Sorted l
  nodup : (ids l).Nodup
  known : ∀ i ∈ ids l, i ≤ n
  marked : ∀ i ∈ M, i ∈ ids l
  periodic : ∀ e ∈ l, 1 ≤ e.2.interval

theorem mem_ids : timerId ∈ ids l ↔ ∃ e ∈ l, e.2.timerId = timerId := mem_map

theorem ids_append (l m : List (Nat × Timer H)) : ids (l ++ m) = ids l ++ ids m := map_append

theorem mem_ids_of_mem (h : e ∈ l) : e.2.timerId ∈ ids l :=
  mem_map_of_mem h

/-! ### Live timers -/

theorem liveIn_of_marked (h : timerId ∈ M) : liveIn l M timerId = none := if_pos h

theorem liveIn_of_not_mem (h : timerId ∉ ids l) : liveIn l M timerId = none := by
  unfold liveIn
  split
  · rfl
  · rw [find?_eq_none.mpr, Option.map_none]
    intro e he heq
    exact h (mem_ids.mpr ⟨e, he, of_decide_eq_true heq⟩)

theorem find?_of_mem (hn : (ids l).Nodup) (he : e ∈ l) :
    l.find? (fun a => a.2.timerId = e.2.timerId) = some e := by
  induction l with
  | nil => cases he
  | cons a l ih =>
    obtain ⟨ha, hl⟩ := nodup_cons.mp hn
    rcases mem_cons.mp he with rfl | he
    · rw [find?_cons_of_pos (by simp)]
    have hne : a.2.timerId ≠ e.2.timerId := by
      intro heq
      exact ha (mem_ids.mpr ⟨e, he, heq.symm⟩)
    rw [find?_cons_of_neg (by simpa using hne), ih hl he]

theorem liveIn_of_mem (hn : (ids l).Nodup) (he : e ∈ l)
    (hM : e.2.timerId ∉ M) : liveIn l M e.2.timerId = some (slotOf e) := by
  rw [liveIn, if_neg hM, find?_of_mem hn he, Option.map_some]

/-- A timer is live if its entry has no mark. -/
theorem liveIn_eq_some (hn : (ids l).Nodup) {slot : Slot H} : liveIn l M timerId = some slot ↔
    timerId ∉ M ∧ ∃ e ∈ l, e.2.timerId = timerId ∧ slotOf e = slot := by
  constructor
  · intro h
    unfold liveIn at h
    split at h
    · cases h
    rename_i hM
    obtain ⟨e, he, hslot⟩ := Option.map_eq_some_iff.mp h
    have hid := find?_some he
    exact ⟨hM, e, mem_of_find?_eq_some he, by simpa using hid, hslot⟩
  · intro ⟨hM, e, he, hid, hslot⟩
    subst hid
    rw [liveIn_of_mem hn he hM, hslot]

theorem slot_of_mem (hn : (ids l).Nodup) (he : e ∈ l) {slot : Slot H}
    (h : liveIn l M e.2.timerId = some slot) : slot = slotOf e := by
  obtain ⟨hM, -⟩ := (liveIn_eq_some hn).mp h
  exact Option.some.inj (h.symm.trans (liveIn_of_mem hn he hM))

theorem isSome_liveIn : (liveIn l M timerId).isSome = true ↔ timerId ∉ M ∧ timerId ∈ ids l := by
  unfold liveIn
  split
  · rename_i hM
    simp [hM]
  · rename_i hM
    simp [hM, mem_ids]

theorem liveIn_perm (hn : (ids l).Nodup) (h : m.Perm l) : liveIn m M = liveIn l M := by
  have hn' : (ids m).Nodup := ((h.map _).nodup_iff).mpr hn
  funext i
  refine Option.ext fun slot => ?_
  rw [liveIn_eq_some hn', liveIn_eq_some hn]
  simp only [h.mem_iff]

/-- An entry is added, or takes the place of another one. -/
theorem liveIn_cons (e : Nat × Timer H) (l : List (Nat × Timer H)) (hM : e.2.timerId ∉ M) :
    liveIn (e :: l) M = update (liveIn l M) e.2.timerId (some (slotOf e)) := by
  funext i
  by_cases hi : i = e.2.timerId
  · subst hi
    rw [update_self, liveIn, if_neg hM, find?_cons_of_pos (by simp), Option.map_some]
  · rw [update_of_ne hi, liveIn, liveIn, find?_cons_of_neg]
    simpa using Ne.symm hi

theorem liveIn_mark (l : List (Nat × Timer H)) (M : Finset Int) (i : Int) :
    liveIn l (insert i M) = update (liveIn l M) i none := by
  funext j
  by_cases hj : j = i
  · subst hj
    rw [update_self, liveIn_of_marked (Finset.mem_insert_self _ _)]
  · rw [update_of_ne hj, liveIn, liveIn]
    simp only [Finset.mem_insert, hj, false_or]

theorem liveIn_drop (hn : e.2.timerId ∉ ids l) (hM : e.2.timerId ∈ M) :
    liveIn l (M.erase e.2.timerId) = liveIn (e :: l) M := by
  funext i
  by_cases hi : i = e.2.timerId
  · subst hi
    rw [liveIn_of_not_mem hn, liveIn_of_marked hM]
  · simp only [liveIn, Finset.mem_erase, hi, ne_eq, not_false_eq_true, true_and]
    rw [find?_cons_of_neg]
    simpa using Ne.symm hi

/-! ### Tidy maps -/

theorem ids_perm (h : m.Perm l) : (ids m).Perm (ids l) := h.map _

theorem Tidy.add (h : Tidy n l M) (he : e.2.timerId = n + 1)
    (hint : 1 ≤ e.2.interval) : Tidy (n + 1) (Multimap.insert e l) M := by
  have hperm : (ids (Multimap.insert e l)).Perm (e.2.timerId :: ids l) :=
    ids_perm (perm_insert e l)
  have hnew : e.2.timerId ∉ ids l := by
    intro hmem
    have := h.known _ hmem
    omega
  refine ⟨sorted_insert h.sorted, ?_, fun i hi => ?_, fun i hi => ?_, fun a ha => ?_⟩
  · exact hperm.nodup_iff.mpr (nodup_cons.mpr ⟨hnew, h.nodup⟩)
  · rcases mem_cons.mp (hperm.mem_iff.mp hi) with rfl | hi
    · omega
    · have := h.known i hi
      omega
  · exact hperm.mem_iff.mpr (mem_cons_of_mem _ (h.marked i hi))
  · rcases mem_insert.mp ha with rfl | ha
    · exact hint
    · exact h.periodic a ha

theorem Tidy.liveIn_add (h : Tidy n l M) (he : e.2.timerId = n + 1)
    (hint : 1 ≤ e.2.interval) :
    liveIn (Multimap.insert e l) M = update (liveIn l M) (n + 1) (some (slotOf e)) := by
  have hM : e.2.timerId ∉ M := by
    intro hmem
    have := h.known _ (h.marked _ hmem)
    omega
  have hnodup := (h.add he hint).nodup
  rw [← he, ← liveIn_cons e l hM]
  exact (liveIn_perm hnodup (perm_insert e l).symm).symm

theorem Tidy.mark (h : Tidy n l M) {i : Int} (hi : i ∈ ids l) : Tidy n l (insert i M) := by
  refine ⟨h.sorted, h.nodup, h.known, fun j hj => ?_, h.periodic⟩
  rcases Finset.mem_insert.mp hj with rfl | hj
  · exact hi
  · exact h.marked j hj

/-- The first entry is marked and dropped. -/
theorem Tidy.drop (h : Tidy n (e :: l) M) : Tidy n l (M.erase e.2.timerId) := by
  obtain ⟨he, hl⟩ := nodup_cons.mp h.nodup
  refine ⟨(pairwise_cons.mp h.sorted).2, hl, fun i hi => h.known i (mem_cons_of_mem _ hi),
    fun i hi => ?_, fun a ha => h.periodic a (mem_cons_of_mem _ ha)⟩
  obtain ⟨hne, hi⟩ := Finset.mem_erase.mp hi
  exact (mem_cons.mp (h.marked i hi)).resolve_left hne

/-- An entry takes the place of another one of the same timer. -/
theorem Tidy.replace {k : List (Nat × Timer H)} {e b : Nat × Timer H} (h : Tidy n k M)
    (hk : k.Perm (e :: l)) (he : b.2.timerId = e.2.timerId) (hint : 1 ≤ b.2.interval)
    (hm : Sorted m) (hperm : m.Perm (b :: l)) : Tidy n m M := by
  have hids : (ids m).Perm (ids k) := by
    refine (ids_perm hperm).trans (List.Perm.trans ?_ (ids_perm hk).symm)
    rw [ids, ids, map_cons, map_cons, he]
  refine ⟨hm, hids.nodup_iff.mpr h.nodup, fun i hi => h.known i (hids.mem_iff.mp hi),
    fun i hi => hids.mem_iff.mpr (h.marked i hi), fun a ha => ?_⟩
  rcases mem_cons.mp (hperm.mem_iff.mp ha) with rfl | ha
  · exact hint
  · exact h.periodic a (hk.mem_iff.mpr (mem_cons_of_mem _ ha))

/-- The schedule arms the timer anew, unless it is marked. -/
theorem Tidy.schedule_replace {k : List (Nat × Timer H)} {e b : Nat × Timer H} (h : Tidy n k M)
    (hk : k.Perm (e :: l)) (he : b.2.timerId = e.2.timerId) (hint : 1 ≤ b.2.interval)
    (hhandler : b.2.handler = e.2.handler) (hm : Sorted m) (hperm : m.Perm (b :: l)) :
    Schedule.rearm ⟨n, liveIn k M⟩ e.2.timerId b.1 b.2.interval = ⟨n, liveIn m M⟩ := by
  have hnodup := (h.replace hk he hint hm hperm).nodup
  have hslot : ({ slotOf e with due := b.1, interval := b.2.interval } : Slot H) = slotOf b := by
    rw [slotOf, slotOf, hhandler]
  refine congrArg (Schedule.mk n) ?_
  rw [liveIn_perm ((ids_perm hperm).nodup_iff.mp hnodup) hperm,
    liveIn_perm ((ids_perm hk).nodup_iff.mp h.nodup) hk]
  by_cases hM : e.2.timerId ∈ M
  · simp only [liveIn_of_marked hM, Option.map_none]
    funext i
    by_cases hi : i = e.2.timerId
    · subst hi
      rw [update_self, liveIn_of_marked hM]
    · have hi' : i ≠ b.2.timerId := he ▸ hi
      rw [update_of_ne hi, liveIn, liveIn, find?_cons_of_neg (by simpa using Ne.symm hi),
        find?_cons_of_neg (by simpa using hi'.symm)]
  · simp only [liveIn_cons b l (he ▸ hM), liveIn_cons e l hM, update_self,
      Option.map_some, he, update_idem, hslot]

/-! ### Marked timers at the front -/

theorem dropCancelled_spec (h : Tidy n l M) :
    Tidy n (dropCancelled l M).1 (dropCancelled l M).2 ∧
      liveIn (dropCancelled l M).1 (dropCancelled l M).2 = liveIn l M ∧
      ∀ e m, (dropCancelled l M).1 = e :: m → e.2.timerId ∉ (dropCancelled l M).2 := by
  induction l generalizing M with
  | nil => exact ⟨h, rfl, nofun⟩
  | cons a l ih =>
    unfold dropCancelled
    split
    · rename_i hM
      obtain ⟨htidy, hlive, hhead⟩ := ih h.drop
      exact ⟨htidy, hlive.trans (liveIn_drop (nodup_cons.mp h.nodup).1 hM), hhead⟩
    rename_i hM
    refine ⟨h, rfl, fun e m heq => ?_⟩
    obtain ⟨rfl, -⟩ := cons.inj heq
    exact hM

theorem dropCancelled_sublist (l : List (Nat × Timer H)) (M : Finset Int) :
    (dropCancelled l M).1.Sublist l := by
  induction l generalizing M with
  | nil => exact List.Sublist.refl _
  | cons a l ih =>
    unfold dropCancelled
    split
    · exact (ih _).cons a
    · exact List.Sublist.refl _

/-- The first entry that is not marked is live, and no live one is due before it. -/
theorem Tidy.earliest (h : Tidy n (e :: l) M) (hM : e.2.timerId ∉ M)
    (lastId : Int) : Earliest ⟨lastId, liveIn (e :: l) M⟩ (slotOf e) := by
  refine ⟨⟨e.2.timerId, liveIn_of_mem h.nodup mem_cons_self hM⟩, fun i slot hslot => ?_⟩
  obtain ⟨-, a, ha, -, rfl⟩ := (liveIn_eq_some h.nodup).mp hslot
  rcases mem_cons.mp ha with rfl | ha
  · exact Nat.le_refl _
  · exact (pairwise_cons.mp h.sorted).1 a ha

/-! ### The calls of a handler -/

/-- The timers that the calls cancel. -/
def cancels (calls : List (HandlerCall H)) : List Int :=
  calls.filterMap fun call =>
    match call with
    | .add _ _ _ => none
    | .cancel timerId => some timerId

/-- A timer that is added is due after `now`. -/
def AddsAfter (now : Nat) : HandlerCall H → Prop
  | .add t interval _ => now ≤ t ∧ 1 ≤ interval ∧ t + interval < 2 ^ 64
  | .cancel _ => True

instance (now : Nat) (call : HandlerCall H) : Decidable (AddsAfter now call) := by
  cases call <;> unfold AddsAfter <;> infer_instance

/-- The loop of `execute` has visited some entries; others are due, and others are later. `R` is
what the handlers will cancel from now on: no timer that is due is cancelled twice, and none that
was dropped is cancelled again. -/
structure Pass (now : Nat) (n : Int) (visited due later : List (Nat × Timer H)) (M : Finset Int)
    (R : List Int) : Prop where
  tidy : Tidy n (due ++ later) M
  le_now : ∀ e ∈ due, e.1 ≤ now
  now_lt : ∀ e ∈ later, now < e.1
  visited_le : ∀ v ∈ visited, ∀ e ∈ due, v.1 ≤ e.1
  once : ∀ e ∈ due, (if e.2.timerId ∈ M then 1 else 0) + R.count e.2.timerId ≤ 1
  dropped : ∀ v ∈ visited, v.2.timerId ∈ ids (due ++ later) ∨ v.2.timerId ∉ R

variable {now : Nat} {visited due later : List (Nat × Timer H)} {R : List Int}

/-- Timers in the middle of the loop. -/
abbrev during (n : Int) (visited rest : List (Nat × Timer H)) (M : Finset Int) : Timers H :=
  { nextTimerId := n, timers := { visited, rest }, cancelledTimers := M }

/-- An entry that is later is inserted behind those that are due. -/
theorem Pass.insert (h : Pass now n visited (e :: due) later M R) {a : Nat × Timer H}
    (ha : now < a.1) :
    (⟨[], visited, (e :: due) ++ later⟩ : Cursor (Timer H)).insert a =
      ⟨[], visited, (e :: due) ++ Multimap.insert a later⟩ := by
  have he : e.1 ≤ now := h.le_now e mem_cons_self
  have hv : ∀ v ∈ visited, v.1 ≤ e.1 := fun v hv => h.visited_le v hv e mem_cons_self
  rw [cons_append, Cursor.insert_of_le hv (by omega), insert_append_of_le]
  · rfl
  · intro b hb
    have := h.le_now b (mem_cons_of_mem _ hb)
    omega

theorem Pass.insert_perm (h : Pass now n visited due later M R) {a : Nat × Timer H}
    (ha : now < a.1) : due ++ Multimap.insert a later = Multimap.insert a (due ++ later) := by
  refine (insert_append_of_le (fun b hb => ?_) later).symm
  have := h.le_now b hb
  omega

theorem Pass.add (h : Pass now n visited due later M R) {a : Nat × Timer H} (ha : now < a.1)
    (hid : a.2.timerId = n + 1) (hint : 1 ≤ a.2.interval) :
    Pass now (n + 1) visited due (Multimap.insert a later) M R where
  tidy := h.insert_perm ha ▸ h.tidy.add hid hint
  le_now := h.le_now
  now_lt := by
    intro b hb
    rcases mem_insert.mp hb with rfl | hb
    · exact ha
    · exact h.now_lt b hb
  visited_le := h.visited_le
  once := h.once
  dropped := by
    intro v hv
    refine (h.dropped v hv).imp (fun hmem => ?_) id
    rw [h.insert_perm ha]
    exact (ids_perm (perm_insert a _)).mem_iff.mpr (mem_cons_of_mem _ hmem)

/-- A handler cancels a timer that is in the map. -/
theorem Pass.mark {i : Int} (h : Pass now n visited due later M (i :: R))
    (hi : i ∈ ids (due ++ later)) : Pass now n visited due later (Insert.insert i M) R where
  tidy := h.tidy.mark hi
  le_now := h.le_now
  now_lt := h.now_lt
  visited_le := h.visited_le
  once := by
    intro e he
    have hle := h.once e he
    by_cases heq : e.2.timerId = i
    · simp only [heq, count_cons_self, Finset.mem_insert_self, if_true] at hle ⊢
      omega
    have hmem : e.2.timerId ∈ Insert.insert i M ↔ e.2.timerId ∈ M := by simp [heq]
    rw [count_cons_of_ne (Ne.symm heq)] at hle
    simpa only [hmem] using hle
  dropped := fun v hv => (h.dropped v hv).imp id fun hR hmem => hR (mem_cons_of_mem _ hmem)

theorem Pass.weaken {i : Int} (h : Pass now n visited due later M (i :: R)) :
    Pass now n visited due later M R where
  tidy := h.tidy
  le_now := h.le_now
  now_lt := h.now_lt
  visited_le := h.visited_le
  once := by
    intro e he
    have hle := h.once e he
    have : R.count e.2.timerId ≤ (i :: R).count e.2.timerId := count_le_count_cons
    omega
  dropped := fun v hv => (h.dropped v hv).imp id fun hR hmem => hR (mem_cons_of_mem _ hmem)

/-- A timer that a handler cancels is not among those that were dropped. -/
theorem Pass.findById {i : Int} (h : Pass now n visited due later M (i :: R)) :
    ((during n visited (due ++ later) M).findById i).isSome = true ↔ i ∈ ids (due ++ later) := by
  rw [Timers.findById, find?_isSome]
  constructor
  · intro ⟨a, ha, hid⟩
    have hid : a.2.timerId = i := by simpa using hid
    rcases mem_append.mp ha with ha | ha
    · refine (h.dropped a ha).resolve_right ?_ |> fun hmem => hid ▸ hmem
      rw [hid]
      exact fun hR => hR mem_cons_self
    · exact mem_ids.mpr ⟨a, ha, hid⟩
  · intro hi
    obtain ⟨a, ha, hid⟩ := mem_ids.mp hi
    exact ⟨a, mem_append_right _ ha, by simpa using hid⟩

/-- A call of a handler. -/
def serve (s : Timers H) : HandlerCall H → Timers H × Except Errno Int
  | .add now interval handler => s.add now interval handler
  | .cancel timerId => s.cancel timerId

theorem handle_cons (call : HandlerCall H) (calls : List (HandlerCall H)) (s : Timers H) :
    handle (call :: calls) s = ((handle calls (s.serve call).1).1,
      .returned call (s.serve call).2 :: (handle calls (s.serve call).1).2) := by
  cases call <;> rfl

/-- One call of the handler of the timer that the loop is at. -/
theorem Pass.serve {call : HandlerCall H}
    (h : Pass now n visited (e :: due) later M (cancels [call] ++ R)) (ha : AddsAfter now call) :
    ∃ n' later' M' rc, (during n visited (e :: due ++ later) M).serve call =
        (during n' visited (e :: due ++ later') M', rc) ∧
      Pass now n' visited (e :: due) later' M' R ∧ M ⊆ M' ∧
      handlerCall ⟨n, liveIn (e :: due ++ later) M⟩ call =
        (⟨n', liveIn (e :: due ++ later') M'⟩, rc) := by
  cases call with
  | add t interval handler =>
    cases handler with
    | none => exact ⟨n, later, M, _, rfl, h, Finset.Subset.refl _, rfl⟩
    | some handler =>
      obtain ⟨hnow, hint, hlt⟩ := ha
      have hmod : (t + interval) % 2 ^ 64 = t + interval := Nat.mod_eq_of_lt hlt
      have hkey : now < t + interval := by omega
      refine ⟨n + 1, Multimap.insert (t + interval, ⟨n + 1, interval, handler⟩) later, M,
        .ok (n + 1), ?_, h.add hkey rfl hint, Finset.Subset.refl _, ?_⟩
      · have hins := h.insert (a := (t + interval, ⟨n + 1, interval, handler⟩)) hkey
        simp only [Timers.serve, Timers.add, hmod, hins]
      · simp only [handlerCall]
        rw [h.insert_perm hkey, h.tidy.liveIn_add rfl hint]
        rfl
  | cancel i =>
    by_cases hi : i ∈ ids (e :: due ++ later)
    · obtain ⟨a, ha⟩ := Option.isSome_iff_exists.mp (h.findById.mpr hi)
      by_cases hM : i ∈ M
      · have hlive : (liveIn (e :: due ++ later) M i).isSome = false := by
          rw [liveIn_of_marked hM, Option.isSome_none]
        refine ⟨n, later, M, .error .einval, ?_, h.weaken, Finset.Subset.refl _, ?_⟩
        · simp only [Timers.serve, Timers.cancel, ha, hM, if_true]
        · simp only [handlerCall, hlive, Bool.false_eq_true, if_false]
      · have hlive := isSome_liveIn.mpr ⟨hM, hi⟩
        refine ⟨n, later, Insert.insert i M, .ok 0, ?_, h.mark hi, Finset.subset_insert _ _, ?_⟩
        · simp only [Timers.serve, Timers.cancel, ha, hM, if_false]
        · simp only [handlerCall, hlive, if_true, remove, liveIn_mark]
    · have hnone : (during n visited (e :: due ++ later) M).findById i = none := by
        rw [← Option.not_isSome_iff_eq_none]
        exact fun hsome => hi (h.findById.mp hsome)
      have hlive : (liveIn (e :: due ++ later) M i).isSome = false := by
        rw [liveIn_of_not_mem hi, Option.isSome_none]
      refine ⟨n, later, M, .error .einval, ?_, h.weaken, Finset.Subset.refl _, ?_⟩
      · simp only [Timers.serve, Timers.cancel, hnone]
      · simp only [handlerCall, hlive, Bool.false_eq_true, if_false]

/-- All calls of the handler. -/
theorem Pass.handle {calls : List (HandlerCall H)}
    (h : Pass now n visited (e :: due) later M (cancels calls ++ R))
    (ha : ∀ call ∈ calls, AddsAfter now call) :
    ∃ n' later' M' log, handle calls (during n visited (e :: due ++ later) M) =
        (during n' visited (e :: due ++ later') M', log) ∧
      Pass now n' visited (e :: due) later' M' R ∧ M ⊆ M' ∧
      Schedule.handle calls ⟨n, liveIn (e :: due ++ later) M⟩ =
        (⟨n', liveIn (e :: due ++ later') M'⟩, log) := by
  induction calls generalizing n later M with
  | nil => exact ⟨n, later, M, [], rfl, h, Finset.Subset.refl _, rfl⟩
  | cons call calls ih =>
    have h : Pass now n visited (e :: due) later M (cancels [call] ++ (cancels calls ++ R)) := by
      rw [← append_assoc, cancels, cancels, ← filterMap_append]
      exact h
    obtain ⟨n1, later1, M1, rc, hs, hpass, hsub, ha1⟩ := h.serve (ha call mem_cons_self)
    obtain ⟨n2, later2, M2, log, hs2, hpass2, hsub2, ha2⟩ :=
      ih hpass fun c hc => ha c (mem_cons_of_mem _ hc)
    refine ⟨n2, later2, M2, .returned call rc :: log, ?_, hpass2, hsub.trans hsub2, ?_⟩
    · rw [handle_cons, hs, hs2]
    · simp only [Schedule.handle, ha1, ha2]

/-! ### The loop of execute -/

/-- The new entry of the timer that the loop is at goes behind those that are due. -/
theorem Pass.rearmed (h : Pass now n visited (e :: due) later M R) {t : Nat} (ht : now < t) :
    Sorted (due ++ Multimap.insert (t, e.2) later) ∧
      (due ++ Multimap.insert (t, e.2) later).Perm ((t, e.2) :: (due ++ later)) := by
  have heq : due ++ Multimap.insert (t, e.2) later = Multimap.insert (t, e.2) (due ++ later) := by
    refine (insert_append_of_le (fun b hb => ?_) later).symm
    have := h.le_now b (mem_cons_of_mem _ hb)
    exact Nat.le_of_lt (Nat.lt_of_le_of_lt this ht)
  rw [heq]
  exact ⟨sorted_insert (pairwise_cons.mp h.tidy.sorted).2, perm_insert _ _⟩

/-- The timer that the loop is at is armed anew. -/
theorem Pass.rearm (h : Pass now n visited (e :: due) later M R) {t : Nat} (ht : now < t) :
    Pass now n (visited ++ [e]) due (Multimap.insert (t, e.2) later) M R := by
  obtain ⟨hsorted, hperm⟩ := h.rearmed ht
  have hid : (t, e.2).2.timerId = e.2.timerId := rfl
  have hids : (ids (due ++ Multimap.insert (t, e.2) later)).Perm (ids (e :: due ++ later)) := by
    have := ids_perm hperm
    exact this
  refine ⟨?_, fun b hb => h.le_now b (mem_cons_of_mem _ hb), fun b hb => ?_,
    fun v hv b hb => ?_, fun b hb => h.once b (mem_cons_of_mem _ hb), fun v hv => ?_⟩
  · exact h.tidy.replace (.refl _) hid (h.tidy.periodic e mem_cons_self) hsorted hperm
  · rcases mem_insert.mp hb with rfl | hb
    · exact ht
    · exact h.now_lt b hb
  · rcases mem_append.mp hv with hv | hv
    · exact h.visited_le v hv b (mem_cons_of_mem _ hb)
    · obtain rfl := mem_singleton.mp hv
      exact (pairwise_cons.mp h.tidy.sorted).1 b (mem_append_left _ hb)
  · rcases mem_append.mp hv with hv | hv
    · exact (h.dropped v hv).imp hids.mem_iff.mpr id
    · obtain rfl := mem_singleton.mp hv
      exact .inl (hids.mem_iff.mpr (mem_ids_of_mem mem_cons_self))

theorem Pass.schedule_rearm (h : Pass now n visited (e :: due) later M R) {t : Nat}
    (ht : now < t) : Schedule.rearm ⟨n, liveIn (e :: due ++ later) M⟩ e.2.timerId t e.2.interval =
      ⟨n, liveIn (due ++ Multimap.insert (t, e.2) later) M⟩ := by
  obtain ⟨hsorted, hperm⟩ := h.rearmed ht
  have hid : (t, e.2).2.timerId = e.2.timerId := rfl
  exact h.tidy.schedule_replace (.refl _) hid (h.tidy.periodic e mem_cons_self) rfl hsorted hperm

theorem Pass.head_not_mem (h : Pass now n visited (e :: due) later M R) :
    e.2.timerId ∉ ids (due ++ later) := (nodup_cons.mp h.tidy.nodup).1

/-- The timer that the loop is at is marked, and dropped. -/
theorem Pass.drop (h : Pass now n visited (e :: due) later M R) (hM : e.2.timerId ∈ M) :
    Pass now n (visited ++ [e]) due later (M.erase e.2.timerId) R := by
  have hR : e.2.timerId ∉ R := by
    have hle := h.once e mem_cons_self
    rw [if_pos hM] at hle
    exact count_eq_zero.mp (by omega)
  refine ⟨h.tidy.drop, fun b hb => h.le_now b (mem_cons_of_mem _ hb), h.now_lt,
    fun v hv b hb => ?_, fun b hb => ?_, fun v hv => ?_⟩
  · rcases mem_append.mp hv with hv | hv
    · exact h.visited_le v hv b (mem_cons_of_mem _ hb)
    · obtain rfl := mem_singleton.mp hv
      exact (pairwise_cons.mp h.tidy.sorted).1 b (mem_append_left _ hb)
  · have hle := h.once b (mem_cons_of_mem _ hb)
    have hne : b.2.timerId ≠ e.2.timerId := by
      intro heq
      exact h.head_not_mem (mem_ids.mpr ⟨b, mem_append_left _ hb, heq⟩)
    simpa only [Finset.mem_erase, hne, ne_eq, not_false_eq_true, true_and] using hle
  rcases mem_append.mp hv with hv | hv
  · rcases h.dropped v hv with hmem | hmem
    · rcases mem_cons.mp hmem with heq | hmem
      · exact .inr (heq ▸ hR)
      · exact .inl hmem
    · exact .inr hmem
  · obtain rfl := mem_singleton.mp hv
    exact .inr hR

/-- Behind the timers that are due, the loop only drops marked ones. -/
theorem executeLoop_later (hlt : ∀ b ∈ later, now < b.1) (n : Int)
    (before visited : List (Nat × Timer H)) (M : Finset Int)
    (script : List (List (HandlerCall H))) :
    executeLoop now (later.length + 1) script ⟨n, ⟨before, visited, later⟩, M⟩ =
      some (during n [] (before ++ (dropCancelled later M).1) (dropCancelled later M).2, []) := by
  induction later generalizing visited M with
  | nil => rfl
  | cons b later ih =>
    by_cases hM : b.2.timerId ∈ M
    · have hadv : (⟨before, visited, b :: later⟩ : Cursor (Timer H)).advance =
          ⟨before, visited ++ [b], later⟩ := rfl
      simp only [executeLoop, length_cons, hM, if_true, hadv, dropCancelled]
      exact ih (fun c hc => hlt c (mem_cons_of_mem _ hc)) _ _
    · simp only [executeLoop, length_cons, hM, if_false, hlt b mem_cons_self, if_true,
        dropCancelled]
      rfl

theorem cancels_flatten (script : List (List (HandlerCall H))) :
    cancels script.flatten = cancels (script.headD []) ++ cancels script.tail.flatten := by
  cases script with
  | nil => rfl
  | cons calls script => simp only [flatten_cons, cancels, filterMap_append, headD_cons, tail_cons]

theorem runAll_filter_of_none {a : Schedule H} {i : Int} (h : a.live i = none) (p : Int → Bool)
    (script : List (List (HandlerCall H))) (js : List Int) :
    runAll now script ((i :: js).filter p) a =
      runAll now script (js.filter p) a := by
  by_cases hp : p i = true
  · rw [filter_cons_of_pos hp]
    simp only [runAll, h]
  · rw [filter_cons_of_neg hp]

/-- The whole loop does what the schedule does: the timers that are due are run one after the
other. `p` holds for the timers that had no mark when the loop began. -/
theorem Pass.executeLoop {script : List (List (HandlerCall H))}
    (h : Pass now n visited due later M (cancels script.flatten))
    (ha : ∀ calls ∈ script, ∀ call ∈ calls, AddsAfter now call)
    (hlt : ∀ b ∈ due, now + b.2.interval < 2 ^ 64) (p : Int → Bool)
    (hp : ∀ i ∈ ids due, i ∉ M → p i = true) :
    ∃ fuel n' l' M' log, executeLoop now fuel script (during n visited (due ++ later) M) =
        some (during n' [] l' M', log) ∧ Tidy n' l' M' ∧
      Schedule.runAll now script ((ids due).filter p) ⟨n, liveIn (due ++ later) M⟩ =
        (⟨n', liveIn l' M'⟩, log) := by
  -- On the entries that are due: none is added to them, and each step takes the first one away.
  induction due generalizing n visited later M script with
  | nil =>
    obtain ⟨htidy, hlive, -⟩ := dropCancelled_spec h.tidy
    rw [nil_append] at htidy hlive ⊢
    refine ⟨later.length + 1, n, _, _, [], executeLoop_later h.now_lt n [] visited M script, htidy,
      ?_⟩
    rw [nil_append, hlive]
    rfl
  | cons e due ih =>
    have hlt' : ∀ b ∈ due, now + b.2.interval < 2 ^ 64 :=
      fun b hb => hlt b (mem_cons_of_mem _ hb)
    by_cases hM : e.2.timerId ∈ M
    · have hp' : ∀ i ∈ ids due, i ∉ M.erase e.2.timerId → p i = true := by
        intro i hi hiM
        refine hp i (mem_cons_of_mem _ hi) fun hmem => hiM (Finset.mem_erase.mpr ⟨?_, hmem⟩)
        rintro rfl
        refine h.head_not_mem ?_
        rw [ids_append]
        exact mem_append_left _ hi
      obtain ⟨fuel, n', l', M', log, hs, htidy, habs⟩ := ih (h.drop hM) ha hlt' hp'
      refine ⟨fuel + 1, n', l', M', log, ?_, htidy, ?_⟩
      · simp only [executeLoop, cons_append, hM, if_true]
        exact hs
      · rw [liveIn_drop h.head_not_mem hM] at habs
        exact (runAll_filter_of_none (liveIn_of_marked hM) p script (ids due)).trans habs
    rw [cancels_flatten] at h
    have hhead : ∀ call ∈ script.headD [], AddsAfter now call := by
      cases script with
      | nil => exact nofun
      | cons calls script => exact ha calls mem_cons_self
    obtain ⟨n1, later1, M1, log1, hs1, hpass1, hsub, ha1⟩ := h.handle hhead
    have hmod : (now + e.2.interval) % 2 ^ 64 = now + e.2.interval :=
      Nat.mod_eq_of_lt (hlt e mem_cons_self)
    have hkey : now < now + e.2.interval := by
      have := h.tidy.periodic e mem_cons_self
      omega
    have hp' : ∀ i ∈ ids due, i ∉ M1 → p i = true :=
      fun i hi hiM => hp i (mem_cons_of_mem _ hi) fun hmem => hiM (hsub hmem)
    obtain ⟨fuel, n', l', M', log, hs, htidy, habs⟩ :=
      ih (hpass1.rearm hkey) (fun calls hc => ha calls (mem_of_mem_tail hc)) hlt' hp'
    have hins := hpass1.insert (a := (now + e.2.interval, e.2)) hkey
    have hlive : liveIn (e :: due ++ later) M e.2.timerId = some (slotOf e) :=
      liveIn_of_mem h.tidy.nodup mem_cons_self hM
    refine ⟨fuel + 1, n', l', M', .ran e.2.timerId e.2.handler :: log1 ++ log, ?_, htidy, ?_⟩
    · have hle : ¬ now < e.1 := Nat.not_lt.mpr (h.le_now e mem_cons_self)
      have hadv : (⟨[], visited, e :: due ++ Multimap.insert (now + e.2.interval, e.2) later1⟩ :
          Cursor (Timer H)).advance =
            ⟨[], visited ++ [e], due ++ Multimap.insert (now + e.2.interval, e.2) later1⟩ := rfl
      rw [executeLoop]
      simp only [cons_append, hM, if_false, hle] at hs1 hins hadv ⊢
      simp only [hs1, hmod, hins, hadv, hs, Option.map_some]
    rw [ids, map_cons, filter_cons_of_pos (hp _ mem_cons_self hM)]
    simp only [Schedule.runAll, hlive, ha1]
    have harm : Schedule.rearm ⟨n1, liveIn (e :: due ++ later1) M1⟩ e.2.timerId
        (now + (slotOf e).interval) (slotOf e).interval =
          ⟨n1, liveIn (due ++ Multimap.insert (now + e.2.interval, e.2) later1) M1⟩ :=
      hpass1.schedule_rearm hkey
    rw [harm]
    simp only [ids] at habs
    rw [habs]
    rfl

end Timers

end ServerLink

import ServerLink.Util.TimersRefinement

/-!
# ServerLink.Util.TimersRuns

Runs of timers. `Assumed` says how the calls are made: no interval is empty, no due time overflows,
and a handler reads the clock after `execute` has. `Sound` is the condition under which timers do
what a schedule does. It excludes two cases in which they do not:

* a timer that is due is cancelled twice, the second time by a handler. `execute` removes the mark
  of a cancelled timer when it skips the timer, but the timer stays in the map until the loop ends:
  a handler that is run in between can cancel it once more, and `cancel` succeeds;
* `timeout` when the earliest timer is due in 2^63 ms or more: the difference is converted to a
  `long`, where it is negative.
-/

namespace ServerLink

open Multimap List Schedule

namespace Timers

variable {H : Type} {s s' : Timers H} {l : List (Nat × Timer H)} {M : Finset Int} {n : Int}
variable {now fuel : Nat} {timerId : Int}

/-- What is assumed of a call. -/
def Assumed (s : Timers H) : TimersCall H → Prop
  | .add now interval _ => 1 ≤ interval ∧ now + interval < 2 ^ 64
  | .cancel _ => True
  | .setInterval now _ interval => 1 ≤ interval ∧ now + interval < 2 ^ 64
  | .reset now timerId => ∀ e ∈ s.entries, e.2.timerId = timerId → now + e.2.interval < 2 ^ 64
  | .timeout _ => True
  | .execute now script =>
    (∀ e ∈ s.entries, e.1 ≤ now → now + e.2.interval < 2 ^ 64) ∧
      ∀ calls ∈ script, ∀ call ∈ calls, AddsAfter now call

/-- The call does what it does on a schedule. -/
def Sound (s : Timers H) : TimersCall H → Prop
  | .timeout now => ∀ slot, s.schedule.Earliest slot →
    slot.due < now + 2 ^ 63 ∧ now ≤ slot.due + 2 ^ 63
  | .execute now script => ∀ e ∈ s.entries, e.1 ≤ now →
    (if e.2.timerId ∈ s.cancelledTimers then 1 else 0) +
      (cancels script.flatten).count e.2.timerId ≤ 1
  | _ => True

/-! ### More fuel -/

theorem executeLoop_succ {script : List (List (HandlerCall H))}
    {r : Timers H × List (TimersEvent H)} (h : executeLoop now fuel script s = some r) :
    executeLoop now (fuel + 1) script s = some r := by
  induction fuel generalizing script s r with
  | zero => cases h
  | succ fuel ih =>
    unfold executeLoop at h ⊢
    cases hrest : s.timers.rest with
    | nil =>
      simp only [hrest] at h ⊢
      exact h
    | cons e rest =>
      simp only [hrest] at h ⊢
      split at h
      · rename_i hM
        rw [if_pos hM]
        exact ih h
      rename_i hM
      rw [if_neg hM]
      split at h
      · rename_i hlt
        rw [if_pos hlt]
        exact h
      rename_i hlt
      rw [if_neg hlt]
      obtain ⟨r', hr', rfl⟩ := Option.map_eq_some_iff.mp h
      exact Option.map_eq_some_iff.mpr ⟨r', ih hr', rfl⟩

theorem executeLoop_mono {fuel' : Nat} {script : List (List (HandlerCall H))}
    {r : Timers H × List (TimersEvent H)} (hle : fuel ≤ fuel')
    (h : executeLoop now fuel script s = some r) : executeLoop now fuel' script s = some r := by
  induction hle with
  | refl => exact h
  | step _ ih => exact executeLoop_succ ih

theorem call_mono {fuel' : Nat} {a : TimersCall H} {r : Timers H × TimersResult H}
    (hle : fuel ≤ fuel') (h : s.call fuel a = some r) : s.call fuel' a = some r := by
  cases a with
  | execute now script =>
    obtain ⟨r', hr', rfl⟩ := Option.map_eq_some_iff.mp h
    exact Option.map_eq_some_iff.mpr ⟨r', executeLoop_mono hle hr', rfl⟩
  | _ => exact h

theorem Returns.unique {a : TimersCall H} {r r' : TimersResult H} {s1 s2 : Timers H}
    (h : s.Returns a r s1) (h' : s.Returns a r' s2) : r = r' ∧ s1 = s2 := by
  obtain ⟨fuel, h⟩ := h
  obtain ⟨fuel', h'⟩ := h'
  have heq := (call_mono (Nat.le_max_left fuel fuel') h).symm.trans
    (call_mono (Nat.le_max_right fuel fuel') h')
  cases heq
  exact ⟨rfl, rfl⟩

/-! ### One call -/

/-- Timers between two calls. -/
def Ready (s : Timers H) : Prop := ∃ n l M, s = during n [] l M ∧ Tidy n l M

/-- The call comes back, and does what it does on a schedule. -/
def Meets (s : Timers H) (a : TimersCall H) : Prop :=
  ∃ r s', s.Returns a r s' ∧ s'.Ready ∧ s.schedule.Spec a r s'.schedule

theorem Meets.intro {a : TimersCall H} {r : TimersResult H} {n' : Int} {l' : List (Nat × Timer H)}
    {M' : Finset Int} (hcall : (during n [] l M).call fuel a = some (during n' [] l' M', r))
    (htidy : Tidy n' l' M')
    (hspec : Spec ⟨n, liveIn l M⟩ a r ⟨n', liveIn l' M'⟩) : (during n [] l M).Meets a :=
  ⟨r, _, ⟨fuel, hcall⟩, ⟨n', l', M', rfl, htidy⟩, hspec⟩

theorem call_add (fuel now interval : Nat) (handler : H) :
    (during n [] l M).call fuel (.add now interval (some handler)) =
      some (during (n + 1) [] (Multimap.insert ((now + interval) % 2 ^ 64,
        ⟨n + 1, interval, handler⟩) l) M, { rc := .ok (n + 1) }) := by
  have hins := Cursor.entries_insert_reset ⟨[], [], l⟩
    ((now + interval) % 2 ^ 64, (⟨n + 1, interval, handler⟩ : Timer H))
  exact congrArg (fun rest => some (during (n + 1) [] rest M, _)) hins

theorem meets_add (h : Tidy n l M) {interval : Nat} (handler : Option H) (hint : 1 ≤ interval)
    (hlt : now + interval < 2 ^ 64) :
    (during n [] l M).Meets (.add now interval handler) := by
  cases handler with
  | none =>
    have hcall : (during n [] l M).call 0 (.add now interval none) =
        some (during n [] l M, { rc := .error .efault }) := rfl
    exact .intro hcall h rfl
  | some handler =>
    have hcall := call_add (n := n) (l := l) (M := M) 0 now interval handler
    rw [Nat.mod_eq_of_lt hlt] at hcall
    refine .intro hcall (h.add rfl hint) (Prod.ext ?_ rfl)
    exact congrArg (Schedule.mk (n + 1)) (h.liveIn_add rfl hint)

theorem findById_of_mem (h : Tidy n l M) {e : Nat × Timer H} (he : e ∈ l) :
    (during n [] l M).findById e.2.timerId = some e := find?_of_mem h.nodup he

theorem findById_of_not_mem (hi : timerId ∉ ids l) : (during n [] l M).findById timerId = none :=
  find?_eq_none.mpr fun e he heq => hi (mem_ids.mpr ⟨e, he, of_decide_eq_true heq⟩)

/-- A timer that is not live is not cancelled. -/
theorem meets_cancel_of_not_live (h : Tidy n l M) (hlive : liveIn l M timerId = none)
    (hcancel : (during n [] l M).cancel timerId = (during n [] l M, .error .einval)) :
    (during n [] l M).Meets (.cancel timerId) := by
  have hcall : (during n [] l M).call 0 (.cancel timerId) =
      some (during n [] l M, { rc := .error .einval }) := by
    simp only [call, hcancel]
  refine .intro hcall h ?_
  simp only [Spec, handlerCall, hlive, Option.isSome_none, Bool.false_eq_true,
    if_false]

theorem meets_cancel (h : Tidy n l M) (timerId : Int) :
    (during n [] l M).Meets (.cancel timerId) := by
  by_cases hi : timerId ∈ ids l
  · obtain ⟨e, he, rfl⟩ := mem_ids.mp hi
    have hfind := findById_of_mem h he
    by_cases hM : e.2.timerId ∈ M
    · refine meets_cancel_of_not_live h (liveIn_of_marked hM) ?_
      simp only [cancel, hfind, hM, if_true]
    have hcall : (during n [] l M).call 0 (.cancel e.2.timerId) =
        some (during n [] l (Insert.insert e.2.timerId M), { rc := .ok 0 }) := by
      simp only [call, cancel, hfind, hM, if_false]
    refine .intro hcall (h.mark hi) ?_
    have hlive := isSome_liveIn.mpr ⟨hM, hi⟩
    simp only [Schedule.Spec, Schedule.handlerCall, hlive, if_true]
    exact Prod.ext (congrArg (Schedule.mk n) (liveIn_mark l M e.2.timerId)) rfl
  · refine meets_cancel_of_not_live h (liveIn_of_not_mem hi) ?_
    simp only [cancel, findById_of_not_mem hi]

/-! ### Timers that are armed anew -/

/-- Only the entry of the timer is erased. -/
theorem perm_eraseP (h : (ids l).Nodup) {e : Nat × Timer H} (he : e ∈ l) :
    l.Perm (e :: l.eraseP fun a => a.2.timerId = e.2.timerId) := by
  have hself : decide (e.2.timerId = e.2.timerId) = true := decide_eq_true rfl
  obtain ⟨a, l1, l2, -, hid, hl, herase⟩ :=
    exists_of_eraseP (p := fun a : Nat × Timer H => a.2.timerId = e.2.timerId) he hself
  have ha : a ∈ l := hl ▸ mem_append_right _ mem_cons_self
  have hfind := find?_of_mem h ha
  rw [of_decide_eq_true hid, find?_of_mem h he] at hfind
  cases hfind
  rw [herase, hl]
  exact perm_middle

/-- A timer that is in the map gets another entry. -/
theorem rearm_eq (h : (ids l).Nodup) {e : Nat × Timer H} (he : e ∈ l) (now : Nat)
    (change : Timer H → Timer H) :
    ∃ s1, (during n [] l M).rearm now e.2.timerId change = (s1, .ok 0) ∧
      s1.rewind = during n [] (Multimap.insert ((now + (change e.2).interval) % 2 ^ 64, change e.2)
          (l.eraseP fun a => a.2.timerId = e.2.timerId)) M := by
  have hfind : (during n [] l M).findById e.2.timerId = some e := find?_of_mem h he
  have hins := Cursor.entries_insert_reset ⟨[], [], l.eraseP fun a => a.2.timerId = e.2.timerId⟩
    ((now + (change e.2).interval) % 2 ^ 64, change e.2)
  have hrearm : (during n [] l M).rearm now e.2.timerId change = ({ during n [] l M with
      timers := Cursor.insert { rest := l.eraseP fun a => a.2.timerId = e.2.timerId }
        ((now + (change e.2).interval) % 2 ^ 64, change e.2) }, .ok 0) := by
    simp only [rearm, hfind]
    rfl
  exact ⟨_, hrearm, congrArg (fun rest => during n [] rest M) hins⟩

theorem rearm_of_mem (h : Tidy n l M) {e : Nat × Timer H} (he : e ∈ l) (change : Timer H → Timer H)
    (hid : (change e.2).timerId = e.2.timerId) (hint : 1 ≤ (change e.2).interval)
    (hhandler : (change e.2).handler = e.2.handler) (hlt : now + (change e.2).interval < 2 ^ 64) :
    ∃ s1 l', (during n [] l M).rearm now e.2.timerId change = (s1, .ok 0) ∧
      s1.rewind = during n [] l' M ∧ Tidy n l' M ∧
      Schedule.rearm ⟨n, liveIn l M⟩ e.2.timerId (now + (change e.2).interval)
        (change e.2).interval = ⟨n, liveIn l' M⟩ := by
  obtain ⟨s1, hrearm, hready⟩ := rearm_eq (n := n) (M := M) h.nodup he now change
  rw [Nat.mod_eq_of_lt hlt] at hready
  have hsorted : Sorted (l.eraseP fun a => a.2.timerId = e.2.timerId) :=
    h.sorted.sublist eraseP_sublist
  have hsorted' := sorted_insert (e := (now + (change e.2).interval, change e.2)) hsorted
  refine ⟨s1, _, hrearm, hready, ?_, ?_⟩
  · exact h.replace (perm_eraseP h.nodup he) hid hint hsorted' (perm_insert _ _)
  · exact h.schedule_replace (b := (now + (change e.2).interval, change e.2))
      (perm_eraseP h.nodup he) hid hint hhandler hsorted' (perm_insert _ _)

theorem rearm_of_not_mem (hi : timerId ∉ ids l) (now : Nat) (change : Timer H → Timer H) :
    (during n [] l M).rearm now timerId change = (during n [] l M, .error .einval) := by
  simp only [rearm, findById_of_not_mem hi]

/-- Nothing is armed if the timer is not live. -/
theorem schedule_rearm_of_none {a : Schedule H} (h : a.live timerId = none)
    (due interval : Nat) : a.rearm timerId due interval = a := by
  refine congrArg (Schedule.mk a.lastId) ?_
  simp only [h, Option.map_none]
  rw [← h, Function.update_eq_self]

theorem meets_setInterval (h : Tidy n l M) {interval : Nat} (timerId : Int) (hint : 1 ≤ interval)
    (hlt : now + interval < 2 ^ 64) :
    (during n [] l M).Meets (.setInterval now timerId interval) := by
  by_cases hi : timerId ∈ ids l
  · obtain ⟨e, he, rfl⟩ := mem_ids.mp hi
    obtain ⟨s1, l', hrearm, hready, htidy, habs⟩ := rearm_of_mem h he
      (fun timer => { timer with interval }) rfl hint rfl hlt
    have hcall : (during n [] l M).call 0 (.setInterval now e.2.timerId interval) =
        some (during n [] l' M, { rc := .ok 0 }) := by
      simp only [call, setInterval, hrearm, hready]
    exact .intro hcall htidy ⟨fun _ => rfl, habs.symm⟩
  have hlive : liveIn l M timerId = none := liveIn_of_not_mem hi
  have hcall : (during n [] l M).call 0 (.setInterval now timerId interval) =
      some (during n [] l M, { rc := .error .einval }) := by
    simp only [call, setInterval, rearm_of_not_mem hi]
    rfl
  refine .intro hcall h ⟨fun hsome => ?_, (schedule_rearm_of_none hlive _ _).symm⟩
  have hsome : (liveIn l M timerId).isSome = true := hsome
  rw [hlive] at hsome
  cases hsome

theorem meets_reset (h : Tidy n l M) (timerId : Int)
    (hlt : ∀ e ∈ l, e.2.timerId = timerId → now + e.2.interval < 2 ^ 64) :
    (during n [] l M).Meets (.reset now timerId) := by
  by_cases hi : timerId ∈ ids l
  · obtain ⟨e, he, rfl⟩ := mem_ids.mp hi
    obtain ⟨s1, l', hrearm, hready, htidy, habs⟩ :=
      rearm_of_mem h he id rfl (h.periodic e he) rfl (hlt e he rfl)
    have hcall : (during n [] l M).call 0 (.reset now e.2.timerId) =
        some (during n [] l' M, { rc := .ok 0 }) := by
      simp only [call, reset, hrearm, hready]
    refine .intro hcall htidy ⟨fun _ => rfl, ?_⟩
    rw [← habs]
    by_cases hM : e.2.timerId ∈ M
    · have hlive : liveIn l M e.2.timerId = none := liveIn_of_marked hM
      simp only [hlive]
      exact schedule_rearm_of_none hlive _ _
    · simp only [liveIn_of_mem h.nodup he hM]
      rfl
  · have hlive : liveIn l M timerId = none := liveIn_of_not_mem hi
    have hcall : (during n [] l M).call 0 (.reset now timerId) =
        some (during n [] l M, { rc := .error .einval }) := by
      simp only [call, reset, rearm_of_not_mem hi]
      rfl
    refine .intro hcall h ⟨fun hsome => ?_, ?_⟩
    · have hsome : (liveIn l M timerId).isSome = true := hsome
      rw [hlive] at hsome
      cases hsome
    · simp only [hlive]

/-! ### timeout -/

theorem toLong_eq {due : Nat} (h : due < now + 2 ^ 63) (h' : now ≤ due + 2 ^ 63) :
    toLong due now = (due : Int) - now := by
  refine Int.bmod_eq_of_le_mul_two ?_ ?_ <;> omega

theorem meets_timeout (h : Tidy n l M) (hsound : (during n [] l M).Sound (.timeout now)) :
    (during n [] l M).Meets (.timeout now) := by
  obtain ⟨htidy, hlive, hhead⟩ := dropCancelled_spec h
  cases hrest : (dropCancelled l M).1 with
  | nil =>
    have hcall : (during n [] l M).call 0 (.timeout now) =
        some (during n [] [] (dropCancelled l M).2, { rc := .ok (-1) }) := by
      simp only [call, timeout, entries, Cursor.entries, nil_append, hrest]
    rw [hrest] at hlive htidy
    refine .intro hcall htidy ⟨congrArg (Schedule.mk n) hlive, fun _ => rfl, fun slot hslot => ?_⟩
    obtain ⟨⟨i, hi⟩, -⟩ := hslot
    have hi : liveIn l M i = some slot := hi
    rw [← hlive, liveIn_of_not_mem not_mem_nil] at hi
    cases hi
  | cons e m =>
    have hcall : (during n [] l M).call 0 (.timeout now) =
        some (during n [] (e :: m) (dropCancelled l M).2,
          { rc := .ok (max (toLong e.1 now) 0) }) := by
      simp only [call, timeout, entries, Cursor.entries, nil_append, hrest]
    have hM := hhead e m hrest
    rw [hrest] at hlive htidy
    have hearliest := htidy.earliest hM n
    rw [hlive] at hearliest
    obtain ⟨⟨i, hi⟩, hmin⟩ := hearliest
    refine .intro hcall htidy
      ⟨congrArg (Schedule.mk n) hlive, fun hnone => ?_, fun slot hslot => ?_⟩
    · have := (hnone i).symm.trans hi
      cases this
    obtain ⟨⟨j, hj⟩, hmin'⟩ := hslot
    have hdue : slot.due = e.1 := Nat.le_antisymm (hmin' i _ hi) (hmin j slot hj)
    obtain ⟨hlt, hle⟩ := hsound slot ⟨⟨j, hj⟩, hmin'⟩
    rw [hdue] at hlt hle ⊢
    rw [toLong_eq hlt hle]

/-! ### execute -/

/-- The timers that `execute` runs, in their order. -/
theorem ids_due (h : Tidy n l M) {due later : List (Nat × Timer H)} (hl : l = due ++ later)
    (hdue : ∀ e ∈ due, e.1 ≤ now) (hlater : ∀ e ∈ later, now < e.1) :
    ((ids due).filter fun i => decide (i ∉ M)).Nodup ∧
      (∀ i, i ∈ ((ids due).filter fun i => decide (i ∉ M)) ↔ Due ⟨n, liveIn l M⟩ now i) ∧
      Ordered ⟨n, liveIn l M⟩ ((ids due).filter fun i => decide (i ∉ M)) := by
  have hsub : due.Sublist l := hl ▸ sublist_append_left _ _
  refine ⟨(h.nodup.sublist (hsub.map _)).filter _, fun i => ?_, ?_⟩
  · rw [mem_filter, decide_eq_true_eq, mem_ids]
    constructor
    · rintro ⟨⟨e, he, rfl⟩, hM⟩
      exact ⟨slotOf e, liveIn_of_mem h.nodup (hsub.subset he) hM, hdue e he⟩
    rintro ⟨slot, hslot, hle⟩
    obtain ⟨hM, e, he, hid, rfl⟩ := (liveIn_eq_some h.nodup).mp hslot
    refine ⟨⟨e, ?_, hid⟩, hM⟩
    rw [hl] at he
    refine (mem_append.mp he).resolve_right fun he => ?_
    exact absurd hle (Nat.not_le.mpr (hlater e he))
  · refine List.Pairwise.filter _ (pairwise_map.mpr ?_)
    refine (h.sorted.sublist hsub).imp_of_mem fun {a b} ha hb hle slot slot' hslot hslot' => ?_
    obtain rfl := slot_of_mem h.nodup (hsub.subset ha) hslot
    obtain rfl := slot_of_mem h.nodup (hsub.subset hb) hslot'
    exact hle

theorem meets_execute (h : Tidy n l M) {script : List (List (HandlerCall H))}
    (hassumed : (during n [] l M).Assumed (.execute now script))
    (hsound : (during n [] l M).Sound (.execute now script)) :
    (during n [] l M).Meets (.execute now script) := by
  obtain ⟨due, later, hl, hdue, hlater⟩ := h.sorted.split now
  have hsub : ∀ e ∈ due, e ∈ l := fun e he => hl ▸ mem_append_left _ he
  have hpass : Pass now n [] due later M (cancels script.flatten) := by
    refine ⟨hl ▸ h, hdue, hlater, fun v hv => absurd hv not_mem_nil, fun e he => ?_,
      fun v hv => absurd hv not_mem_nil⟩
    exact hsound e (hsub e he) (hdue e he)
  obtain ⟨fuel, n', l', M', log, hs, htidy, habs⟩ := hpass.executeLoop hassumed.2
    (fun e he => hassumed.1 e (hsub e he) (hdue e he)) (fun i => decide (i ∉ M))
    (fun i _ hi => decide_eq_true hi)
  have hcall : (during n [] l M).call fuel (.execute now script) =
      some (during n' [] l' M', { rc := .ok 0, log }) := by
    rw [← hl] at hs
    exact Option.map_eq_some_iff.mpr ⟨_, hs, rfl⟩
  obtain ⟨hnodup, hmem, hordered⟩ := ids_due h hl hdue hlater
  rw [← hl] at habs
  exact .intro hcall htidy ⟨rfl, _, hnodup, hmem, hordered, habs.symm⟩

/-- Every call does what it does on a schedule. -/
theorem Ready.meets (h : s.Ready) {a : TimersCall H} (hassumed : s.Assumed a)
    (hsound : s.Sound a) : s.Meets a := by
  obtain ⟨n, l, M, rfl, htidy⟩ := h
  cases a with
  | add now interval handler => exact meets_add htidy handler hassumed.1 hassumed.2
  | cancel timerId => exact meets_cancel htidy timerId
  | setInterval now timerId interval => exact meets_setInterval htidy timerId hassumed.1 hassumed.2
  | reset now timerId => exact meets_reset htidy timerId hassumed
  | timeout now => exact meets_timeout htidy hsound
  | execute now script => exact meets_execute htidy hassumed hsound

/-! ### Runs -/

/-- A run, with the calls and what they returned. -/
inductive Runs : List (TimersCall H × TimersResult H) → Timers H → Prop
  | start : Runs [] {}
  | call {history : List (TimersCall H × TimersResult H)} {s t : Timers H} {a : TimersCall H}
      {r : TimersResult H} :
    Runs history s → s.Assumed a → s.Sound a → s.Returns a r t → Runs (history ++ [(a, r)]) t

/-- The events of a run. -/
def events (history : List (TimersCall H × TimersResult H)) : List (TimersEvent H) :=
  history.flatMap fun (a, r) =>
    match a with
    | .add now interval handler => [.returned (.add now interval handler) r.rc]
    | .cancel timerId => [.returned (.cancel timerId) r.rc]
    | .execute _ _ => r.log
    | _ => []

theorem trace_spec {a a' : Schedule H} {call : TimersCall H} {r : TimersResult H}
    (h : a.Spec call r a') : Trace a (events [(call, r)]) a' := by
  cases call with
  | add now interval handler => exact .returned h.symm .nil
  | cancel timerId => exact .returned h.symm .nil
  | setInterval now timerId interval =>
    obtain ⟨-, rfl⟩ := h
    exact .rearm .nil
  | reset now timerId =>
    obtain ⟨-, h⟩ := h
    split at h
    · subst h
      exact .nil
    · subst h
      exact .rearm .nil
  | timeout now =>
    obtain ⟨rfl, -⟩ := h
    exact .nil
  | execute now script =>
    obtain ⟨-, ids, -, -, -, heq⟩ := h
    obtain ⟨rfl, hlog⟩ := Prod.mk.inj heq
    have hevents : events [(.execute now script, r)] = r.log := append_nil _
    rw [hevents, hlog]
    exact trace_runAll now script ids a

variable {history : List (TimersCall H × TimersResult H)}

theorem Runs.ready (h : Runs history s) :
    s.Ready := by
  induction h with
  | start =>
    refine ⟨0, [], ∅, rfl, List.Pairwise.nil, List.Pairwise.nil, ?_, ?_, ?_⟩
    · exact fun i hi => absurd hi not_mem_nil
    · exact fun i hi => absurd hi (Finset.notMem_empty i)
    · exact fun e he => absurd he not_mem_nil
  | call _ hassumed hsound hret ih =>
    obtain ⟨r', s2, hret', hready, -⟩ := ih.meets hassumed hsound
    obtain ⟨-, rfl⟩ := hret.unique hret'
    exact hready

/-- A run of timers is a run of the schedule. -/
theorem Runs.trace (h : Runs history s) :
    Trace {} (events history) s.schedule := by
  induction h with
  | start => exact .nil
  | call hruns hassumed hsound hret ih =>
    obtain ⟨r', s2, hret', -, hspec⟩ := hruns.ready.meets hassumed hsound
    obtain ⟨rfl, rfl⟩ := hret.unique hret'
    rw [events, flatMap_append]
    exact ih.append (trace_spec hspec)

/-- In a run in which every call is sound, timers are a set of periodic timers: ids are distinct,
a cancelled timer is never run, and every call comes back and does what it does on a schedule. -/
theorem runs_schedule (h : Runs history s) :
    (addedIds (events history)).Nodup ∧
      (∀ pre post timerId v handler,
        events history = pre ++ .returned (.cancel timerId) (.ok v) :: post →
          .ran timerId handler ∉ post) ∧
      ∀ a, s.Assumed a → s.Sound a → (∃ r s', s.Returns a r s') ∧
        ∀ r s', s.Returns a r s' → s.schedule.Spec a r s'.schedule := by
  refine ⟨?_, fun pre post timerId v handler hevents => ?_, fun a hassumed hsound => ?_⟩
  · exact h.trace.addedIds.2.2.imp fun hlt => Int.ne_of_lt hlt
  · have hknown : (({} : Schedule H)).Known := nofun
    exact h.trace.not_ran_of_cancelled hknown hevents handler
  · obtain ⟨r, s', hret, -, hspec⟩ := h.ready.meets hassumed hsound
    refine ⟨⟨r, s', hret⟩, fun r' s'' hret' => ?_⟩
    obtain ⟨rfl, rfl⟩ := hret.unique hret'
    exact hspec

/-- A timer cancels itself in a run in which another one was cancelled; then a timer is added. -/
theorem runs_schedule_cancel : ∃ (history : List (TimersCall Unit × TimersResult Unit))
    (s : Timers Unit), history.length = 4 ∧ Runs history s ∧
      (addedIds (events history)).Nodup ∧
      ((∃ r s', s.Returns (.add 9 1 (some ())) r s') ∧ ∀ r s', s.Returns (.add 9 1 (some ())) r s' →
          s.schedule.Spec (.add 9 1 (some ())) r s'.schedule) := by
  have h1 : Runs [(.add 0 1 (some ()), { rc := .ok 1 })] (during 1 [] [(1, ⟨1, 1, ()⟩)] ∅) :=
    Runs.start.call (by exact ⟨by decide, by decide⟩) trivial ⟨0, by decide⟩
  have h2 := h1.call (a := .add 0 2 (some ())) (r := { rc := .ok 2 })
    (t := during 2 [] [(1, ⟨1, 1, ()⟩), (2, ⟨2, 2, ()⟩)] ∅)
    ⟨by decide, by decide⟩ trivial ⟨0, by decide⟩
  have h3 := h2.call (a := .cancel 1) (r := { rc := .ok 0 })
    (t := during 2 [] [(1, ⟨1, 1, ()⟩), (2, ⟨2, 2, ()⟩)] {1}) trivial trivial ⟨0, by decide⟩
  have h4 := h3.call (a := .execute 5 [[.cancel 2]])
    (r := { rc := .ok 0, log := [.ran 2 (), .returned (.cancel 2) (.ok 0)] })
    (t := during 2 [] [] ∅) ⟨by decide, by decide⟩
    (by simp only [Sound]; decide) ⟨5, by decide⟩
  obtain ⟨hnodup, -, hmeets⟩ := runs_schedule h4
  exact ⟨_, _, rfl, h4, hnodup, hmeets (.add 9 1 (some ())) ⟨by decide, by decide⟩ trivial⟩

/-- The handler of the second timer cancels the first one, which is cancelled already and which the
loop has skipped: the call succeeds. And a timer that is due in 2^63 ms is reported as due now. -/
theorem cancel_succeeds_twice :
    (∃ s1 s2 s3 s4 : Timers Unit,
      ({} : Timers Unit).Returns (.add 0 1 (some ())) { rc := .ok 1 } s1 ∧
      s1.Returns (.add 0 2 (some ())) { rc := .ok 2 } s2 ∧
      s2.Returns (.cancel 1) { rc := .ok 0 } s3 ∧
      s3.Assumed (.execute 5 [[.cancel 1]]) ∧
      s3.Returns (.execute 5 [[.cancel 1]])
        { rc := .ok 0, log := [.ran 2 (), .returned (.cancel 1) (.ok 0)] } s4) ∧
    ∃ s1 s2 : Timers Unit,
      ({} : Timers Unit).Returns (.add 0 (2 ^ 63) (some ())) { rc := .ok 1 } s1 ∧
      s1.Returns (.timeout 0) { rc := .ok 0 } s2 := by
  refine ⟨⟨during 1 [] [(1, ⟨1, 1, ()⟩)] ∅, during 2 [] [(1, ⟨1, 1, ()⟩), (2, ⟨2, 2, ()⟩)] ∅,
    during 2 [] [(1, ⟨1, 1, ()⟩), (2, ⟨2, 2, ()⟩)] {1}, during 2 [] [(7, ⟨2, 2, ()⟩)] {1},
    ⟨0, by decide⟩, ⟨0, by decide⟩, ⟨0, by decide⟩, ⟨by decide, by decide⟩, ⟨5, by decide⟩⟩, ?_⟩
  exact ⟨during 1 [] [(2 ^ 63, ⟨1, 2 ^ 63, ()⟩)] ∅, during 1 [] [(2 ^ 63, ⟨1, 2 ^ 63, ()⟩)] ∅,
    ⟨0, by decide⟩, ⟨0, by decide⟩⟩

end Timers

end ServerLink

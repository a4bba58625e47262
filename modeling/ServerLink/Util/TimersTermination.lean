import ServerLink.Util.TimersRuns

/-!
# ServerLink.Util.TimersTermination

When `execute` comes to an end. The loop arms each timer it runs anew, at `now + interval`, in the
map it traverses. It comes to the new entry if that is not before the old one, and runs it if it is
not later than `now`. It then arms the timer at the same time again, and so on for ever. With
intervals of at least one that takes an overflow of the clock; an interval of zero is enough.
-/

namespace ServerLink

open Multimap List Cursor

namespace Timers

variable {H : Type} {s s' : Timers H} {l due later : List (Nat × Timer H)} {M : Finset Int}
  {n : Int} {now : Nat}

/-! ### Maps are in order -/

/-- The map is in order, and each timer that is kept has one entry. -/
structure Orderly (s : Timers H) : Prop where
  sorted : Sorted s.entries
  nodup : (ids s.timers.kept).Nodup
  known : ∀ i ∈ ids s.timers.kept, i ≤ s.nextTimerId

/-- No loop is running. -/
def Idle (s : Timers H) : Prop := s.timers = { rest := s.entries }

theorem sorted_insert_of_rest (hs : Sorted s.entries) {a : Nat × Timer H}
    {rest : List (Nat × Timer H)} (h : s.timers.rest = a :: rest) (e : Nat × Timer H) :
    Sorted (s.timers.insert e).entries := by
  obtain ⟨n, ⟨before, visited, _⟩, M⟩ := s
  subst h
  rw [entries_insert hs]
  exact Multimap.sorted_insert hs

theorem Orderly.add (h : s.Orderly) {e : Nat × Timer H} (he : e.2.timerId = s.nextTimerId + 1)
    (hs : Sorted (s.timers.insert e).entries) :
    Orderly { s with nextTimerId := s.nextTimerId + 1, timers := s.timers.insert e } := by
  have hnew : e.2.timerId ∉ ids s.timers.kept := by
    intro hmem
    have := h.known _ hmem
    omega
  rcases s.timers.kept_insert e with hkept | hkept
  · have hids := ids_perm hkept
    refine ⟨hs, hids.nodup_iff.mpr (nodup_cons.mpr ⟨hnew, h.nodup⟩), fun i hi => ?_⟩
    rcases mem_cons.mp (hids.mem_iff.mp hi) with rfl | hi
    · exact Int.le_of_eq he
    · exact Int.le_add_one (h.known i hi)
  refine ⟨hs, ?_, fun i hi => ?_⟩
  · rw [hkept]
    exact h.nodup
  · rw [hkept] at hi
    exact Int.le_add_one (h.known i hi)

theorem Orderly.mark (h : s.Orderly) (M : Finset Int) :
    Orderly { s with cancelledTimers := M } := ⟨h.sorted, h.nodup, h.known⟩

theorem cancel_fst (s : Timers H) (i : Int) :
    ∃ M, (s.cancel i).1 = { s with cancelledTimers := M } := by
  unfold cancel
  split
  · exact ⟨_, rfl⟩
  · split
    · exact ⟨_, rfl⟩
    · exact ⟨_, rfl⟩

theorem Orderly.of_sublist (h : s.Orderly) {l : List (Nat × Timer H)}
    (hl : l.Sublist s.timers.kept) (M : Finset Int) : Orderly (during s.nextTimerId [] l M) := by
  have hsub : s.timers.kept.Sublist s.entries :=
    (sublist_append_left _ _).append (List.Sublist.refl _)
  exact ⟨h.sorted.sublist (hl.trans hsub), h.nodup.sublist (hl.map _),
    fun i hi => h.known i ((hl.map _).subset hi)⟩

theorem Orderly.erase (h : s.Orderly) (M : Finset Int) :
    Orderly { s with timers := s.timers.eraseVisited, cancelledTimers := M } :=
  h.of_sublist (List.Sublist.refl _) M

theorem Orderly.advance (h : s.Orderly) (M : Finset Int) :
    Orderly { s with timers := s.timers.advance, cancelledTimers := M } := by
  have hsub : s.timers.advance.kept.Sublist s.timers.kept :=
    (List.Sublist.refl _).append (tail_sublist _)
  refine ⟨?_, h.nodup.sublist (hsub.map _), fun i hi => h.known i ((hsub.map _).subset hi)⟩
  rw [entries, entries_advance]
  exact h.sorted

theorem Orderly.rearm (h : s.Orderly) {a : Nat × Timer H} {rest : List (Nat × Timer H)}
    (hrest : s.timers.rest = a :: rest) (t : Nat) :
    Orderly { s with timers := (s.timers.insert (t, a.2)).advance } := by
  obtain ⟨rest', hrest'⟩ := Cursor.insert_head hrest (t, a.2)
  have hkept : (a :: (s.timers.insert (t, a.2)).advance.kept).Perm
      (s.timers.insert (t, a.2)).kept := by
    simp only [Cursor.kept, Cursor.advance, hrest', tail_cons]
    exact perm_middle.symm
  -- The new entry is kept in the place of the old one, or it is not kept at all.
  have hsub : (ids (s.timers.insert (t, a.2)).advance.kept).Subperm (ids s.timers.kept) := by
    rcases s.timers.kept_insert (t, a.2) with hins | hins
    · have hids : (a.2.timerId :: ids (s.timers.insert (t, a.2)).advance.kept).Perm
          (a.2.timerId :: ids s.timers.kept) := (ids_perm hkept).trans (ids_perm hins)
      exact hids.cons_inv.subperm
    · rw [hins] at hkept
      exact (sublist_cons_self _ _).subperm.trans (ids_perm hkept).subperm
  refine ⟨?_, ?_, fun i hi => h.known i (hsub.subset hi)⟩
  · rw [entries, Cursor.entries_advance]
    exact sorted_insert_of_rest h.sorted hrest _
  · obtain ⟨k, hperm, hk⟩ := hsub
    exact hperm.nodup_iff.mp (h.nodup.sublist hk)

/-- A handler leaves the map in order, and the loop at the entry it is at. -/
theorem Orderly.handle (h : s.Orderly) {a : Nat × Timer H} {rest : List (Nat × Timer H)}
    (hrest : s.timers.rest = a :: rest) (calls : List (HandlerCall H)) :
    (Timers.handle calls s).1.Orderly ∧
      ∃ rest', (Timers.handle calls s).1.timers.rest = a :: rest' := by
  induction calls generalizing s rest with
  | nil => exact ⟨h, rest, hrest⟩
  | cons call calls ih =>
    rw [handle_cons]
    cases call with
    | add t interval handler =>
      cases handler with
      | none => exact ih h hrest
      | some handler =>
        obtain ⟨rest', hrest'⟩ := insert_head hrest
          ((t + interval) % 2 ^ 64, ⟨s.nextTimerId + 1, interval, handler⟩)
        exact ih (h.add rfl (sorted_insert_of_rest h.sorted hrest _)) hrest'
    | cancel i =>
      obtain ⟨M, hM⟩ := s.cancel_fst i
      have hserve : (s.serve (.cancel i)).1 = { s with cancelledTimers := M } := hM
      rw [hserve]
      exact ih (h.mark M) hrest

theorem Orderly.executeLoop {fuel : Nat} {script : List (List (HandlerCall H))}
    {r : Timers H × List (TimersEvent H)} (h : s.Orderly)
    (hr : Timers.executeLoop now fuel script s = some r) : r.1.Orderly ∧ r.1.Idle := by
  induction fuel generalizing s script r with
  | zero => cases hr
  | succ fuel ih =>
    unfold Timers.executeLoop at hr
    cases hrest : s.timers.rest with
    | nil =>
      simp only [hrest] at hr
      cases hr
      exact ⟨h.erase _, rfl⟩
    | cons a rest =>
      simp only [hrest] at hr
      split at hr
      · exact ih (h.advance _) hr
      split at hr
      · cases hr
        exact ⟨h.erase _, rfl⟩
      obtain ⟨r', hr', rfl⟩ := Option.map_eq_some_iff.mp hr
      obtain ⟨hhandle, rest', hrest'⟩ := h.handle hrest (script.headD [])
      have hih := ih (hhandle.rearm hrest' _) hr'
      exact hih

/-! ### Reachable timers -/

/-- Timers after any calls that came back: with any intervals, any clock readings, and handlers that
make any calls. -/
inductive Reachable : Timers H → Prop
  | start : Reachable {}
  | call {s t : Timers H} {a : TimersCall H} {r : TimersResult H} :
    Reachable s → s.Returns a r t → Reachable t

theorem Idle.eq (h : s.Idle) : s = during s.nextTimerId [] s.entries s.cancelledTimers := by
  obtain ⟨n, c, M⟩ := s
  exact congrArg (fun c => Timers.mk n c M) h

theorem Orderly.insert (h : Orderly (during n [] l M)) {e : Nat × Timer H}
    (he : e.2.timerId = n + 1) : Orderly (during (n + 1) [] (Multimap.insert e l) M) := by
  have hids := ids_perm (perm_insert e l)
  refine ⟨sorted_insert h.sorted, hids.nodup_iff.mpr (nodup_cons.mpr ⟨fun hmem => ?_, h.nodup⟩),
    fun i hi => ?_⟩
  · have := h.known _ hmem
    simp only at this
    omega
  · rcases mem_cons.mp (hids.mem_iff.mp hi) with rfl | hi
    · exact Int.le_of_eq he
    · exact Int.le_add_one (h.known i hi)

theorem Orderly.rearm_fst (h : Orderly (during n [] l M)) (timerId : Int)
    (change : Timer H → Timer H) (hid : ∀ timer, (change timer).timerId = timer.timerId) :
    ((during n [] l M).rearm now timerId change).1.rewind.Orderly := by
  by_cases hi : timerId ∈ ids l
  · obtain ⟨e, he, rfl⟩ := mem_ids.mp hi
    have hnodup : (ids l).Nodup := h.nodup
    obtain ⟨s1, hrearm, hready⟩ := rearm_eq (n := n) (M := M) hnodup he now change
    rw [hrearm, hready]
    have hids : (ids (Multimap.insert ((now + (change e.2).interval) % 2 ^ 64, change e.2)
        (l.eraseP fun a => a.2.timerId = e.2.timerId))).Perm (ids l) := by
      refine (ids_perm (perm_insert _ _)).trans (List.Perm.trans ?_
        (ids_perm (perm_eraseP hnodup he)).symm)
      rw [ids, ids, map_cons, map_cons, hid]
    refine ⟨?_, hids.nodup_iff.mpr hnodup, fun i hi => h.known i (hids.mem_iff.mp hi)⟩
    exact sorted_insert (h.sorted.sublist eraseP_sublist)
  · rw [rearm_of_not_mem hi]
    exact h

theorem Reachable.orderly (h : Reachable s) : s.Orderly ∧ s.Idle := by
  induction h with
  | start =>
    refine ⟨⟨List.Pairwise.nil, List.Pairwise.nil, fun i hi => ?_⟩, rfl⟩
    exact absurd hi not_mem_nil
  | @call s t a r _ hret ih =>
    obtain ⟨horderly, hidle⟩ := ih
    obtain ⟨fuel, hret⟩ := hret
    rw [hidle.eq] at hret horderly
    cases a with
    | add now interval handler =>
      cases handler with
      | none =>
        cases hret
        exact ⟨horderly, rfl⟩
      | some handler =>
        rw [call_add] at hret
        cases hret
        exact ⟨horderly.insert rfl, rfl⟩
    | cancel timerId =>
      obtain ⟨M, hM⟩ := (during s.nextTimerId [] s.entries s.cancelledTimers).cancel_fst timerId
      have ht : ((during s.nextTimerId [] s.entries s.cancelledTimers).cancel timerId).1 = t :=
        congrArg Prod.fst (Option.some.inj hret)
      rw [← ht, hM]
      exact ⟨horderly.mark M, rfl⟩
    | setInterval now timerId interval =>
      cases hret
      exact ⟨horderly.rearm_fst timerId (fun timer => { timer with interval }) fun _ => rfl, rfl⟩
    | reset now timerId =>
      cases hret
      exact ⟨horderly.rearm_fst timerId id fun _ => rfl, rfl⟩
    | timeout now =>
      cases hret
      exact ⟨horderly.of_sublist (dropCancelled_sublist _ _) _, rfl⟩
    | execute now script =>
      obtain ⟨r', hr', hret⟩ := Option.map_eq_some_iff.mp hret
      cases hret
      exact horderly.executeLoop hr'

/-! ### The loop with handlers that do nothing -/

/-- The entry is due, and so is the next entry of the same timer, which is not before it. -/
def Recurs (now : Nat) (e : Nat × Timer H) : Prop :=
  e.1 ≤ (now + e.2.interval) % 2 ^ 64 ∧ (now + e.2.interval) % 2 ^ 64 ≤ now

/-- An entry that recurs is run again and again. -/
theorem executeLoop_forever (hs : Sorted s.entries) {e : Nat × Timer H} (he : e ∈ s.timers.rest)
    (hM : e.2.timerId ∉ s.cancelledTimers) (hrec : Recurs now e) (fuel : Nat) :
    executeLoop now fuel [] s = none := by
  induction fuel generalizing s e with
  | zero => rfl
  | succ fuel ih =>
    obtain ⟨n, ⟨before, visited, rest⟩, M⟩ := s
    cases rest with
    | nil => exact absurd he not_mem_nil
    | cons a rest =>
      have hadv : Sorted (⟨before, visited, a :: rest⟩ : Cursor (Timer H)).advance.entries := by
        rw [entries_advance]
        exact hs
      unfold executeLoop
      by_cases haM : a.2.timerId ∈ M
      · simp only [haM, if_true]
        refine ih hadv ?_ (fun hmem => hM (Finset.mem_of_mem_erase hmem)) hrec
        refine (mem_cons.mp he).resolve_left ?_
        rintro rfl
        exact hM haM
      obtain ⟨-, htail, hcut⟩ := pairwise_append.mp hs
      have hle : a.1 ≤ e.1 := by
        rcases mem_cons.mp he with rfl | he
        · exact Nat.le_refl _
        · exact (pairwise_cons.mp htail).1 e he
      have hnow : ¬ now < a.1 := Nat.not_lt.mpr (hle.trans (hrec.1.trans hrec.2))
      simp only [haM, if_false, hnow, headD_nil, handle, tail_nil]
      rw [Option.map_eq_none_iff]
      have hsorted : Sorted ((⟨before, visited, a :: rest⟩ : Cursor (Timer H)).insert
          ((now + a.2.interval) % 2 ^ 64, a.2)).advance.entries := by
        rw [entries_advance, entries_insert hs]
        exact sorted_insert hs
      -- The entry itself, or its successor, is in what is left.
      by_cases heq : e = a
      · subst heq
        have hvisited : ∀ b ∈ visited, b.1 ≤ e.1 :=
          fun b hb => hcut b (mem_append_right _ hb) e mem_cons_self
        refine ih (e := ((now + e.2.interval) % 2 ^ 64, e.2)) hsorted ?_ hM ⟨Nat.le_refl _, hrec.2⟩
        rw [insert_of_le hvisited hrec.1]
        exact mem_insert.mpr (.inl rfl)
      refine ih hsorted ?_ hM hrec
      obtain ⟨rest', hrest'⟩ := insert_head (c := ⟨before, visited, a :: rest⟩) rfl
        ((now + a.2.interval) % 2 ^ 64, a.2)
      have hmem := mem_rest_insert (c := ⟨before, visited, a :: rest⟩) he
        ((now + a.2.interval) % 2 ^ 64, a.2)
      simp only [advance, hrest', tail_cons] at hmem ⊢
      exact (mem_cons.mp hmem).resolve_left heq

/-- If no entry recurs, each timer that is due and not marked is run once. -/
theorem executeLoop_ends (before visited : List (Nat × Timer H))
    (hs : Sorted (before ++ visited ++ (due ++ later))) (hdue : ∀ e ∈ due, e.1 ≤ now)
    (hlater : ∀ e ∈ later, now < e.1) (hn : (ids due).Nodup)
    (hrec : ∀ e ∈ due, e.2.timerId ∉ M → ¬ Recurs now e) :
    ∃ fuel s', executeLoop now fuel [] ⟨n, ⟨before, visited, due ++ later⟩, M⟩ =
      some (s', (due.filter fun e => e.2.timerId ∉ M).map fun e =>
        .ran e.2.timerId e.2.handler) := by
  induction due generalizing before visited later M with
  | nil => exact ⟨later.length + 1, _, executeLoop_later hlater n before visited M []⟩
  | cons a due ih =>
    obtain ⟨ha, hn⟩ := nodup_cons.mp hn
    have hdue' : ∀ e ∈ due, e.1 ≤ now := fun e he => hdue e (mem_cons_of_mem _ he)
    have hadv : Sorted (before ++ (visited ++ [a]) ++ (due ++ later)) := by
      simpa only [append_assoc, cons_append, nil_append] using hs
    by_cases haM : a.2.timerId ∈ M
    · have hiff : ∀ e ∈ due, e.2.timerId ∈ M.erase a.2.timerId ↔ e.2.timerId ∈ M := by
        intro e he
        rw [Finset.mem_erase]
        refine ⟨And.right, fun hmem => ⟨fun heq => ha (mem_ids.mpr ⟨e, he, heq⟩), hmem⟩⟩
      obtain ⟨fuel, s', hloop⟩ := ih before _ hadv hdue' hlater hn fun e he hM =>
        hrec e (mem_cons_of_mem _ he) fun hmem => hM ((hiff e he).mpr hmem)
      refine ⟨fuel + 1, s', ?_⟩
      simp only [executeLoop, cons_append, haM, if_true]
      refine hloop.trans ?_
      rw [filter_cons_of_neg (by simpa using haM)]
      have hfilter : (due.filter fun e => decide (e.2.timerId ∉ M.erase a.2.timerId)) =
          due.filter fun e => decide (e.2.timerId ∉ M) :=
        filter_congr fun e he => by simp only [hiff e he]
      rw [hfilter]
    have hnow : ¬ now < a.1 := Nat.not_lt.mpr (hdue a mem_cons_self)
    have hrec' : ∀ e ∈ due, e.2.timerId ∉ M → ¬ Recurs now e :=
      fun e he => hrec e (mem_cons_of_mem _ he)
    -- The new entry is behind the loop, or it is later than `now`.
    have hins : ∃ before' visited' later',
        (⟨before, visited, a :: due ++ later⟩ : Cursor (Timer H)).insert
          ((now + a.2.interval) % 2 ^ 64, a.2) = ⟨before', visited', a :: due ++ later'⟩ ∧
        ∀ e ∈ later', now < e.1 := by
      by_cases hlt : (now + a.2.interval) % 2 ^ 64 < a.1
      · obtain ⟨before', visited', hins⟩ := Cursor.insert_of_lt
          (e := ((now + a.2.interval) % 2 ^ 64, a.2)) hlt before visited (due ++ later)
        exact ⟨before', visited', later, hins, hlater⟩
      have hgt : now < (now + a.2.interval) % 2 ^ 64 :=
        Nat.not_le.mp fun hle => hrec a mem_cons_self haM ⟨Nat.not_lt.mp hlt, hle⟩
      have hvisited : ∀ b ∈ visited, b.1 ≤ a.1 := fun b hb =>
        (pairwise_append.mp hs).2.2 b (mem_append_right _ hb) a mem_cons_self
      refine ⟨before, visited, Multimap.insert ((now + a.2.interval) % 2 ^ 64, a.2) later, ?_, ?_⟩
      · rw [cons_append, Cursor.insert_of_le hvisited (Nat.not_lt.mp hlt),
          insert_append_of_le fun b hb => (hdue' b hb).trans (Nat.le_of_lt hgt)]
        rfl
      intro b hb
      rcases mem_insert.mp hb with rfl | hb
      · exact hgt
      · exact hlater b hb
    obtain ⟨before', visited', later', hins, hlater'⟩ := hins
    have hsorted : Sorted (before' ++ (visited' ++ [a]) ++ (due ++ later')) := by
      have hentries :
          Sorted (⟨before', visited', a :: due ++ later'⟩ : Cursor (Timer H)).entries := by
        have hs : Sorted (before ++ visited ++ a :: (due ++ later)) := hs
        rw [← hins, cons_append, Cursor.entries_insert hs]
        exact sorted_insert hs
      simpa only [Cursor.entries, append_assoc, cons_append, nil_append] using hentries
    obtain ⟨fuel, s', hloop⟩ := ih _ _ hsorted hdue' hlater' hn hrec'
    refine ⟨fuel + 1, s', ?_⟩
    have hadv' : (⟨before', visited', a :: due ++ later'⟩ : Cursor (Timer H)).advance =
        ⟨before', visited' ++ [a], due ++ later'⟩ := rfl
    rw [executeLoop]
    simp only [cons_append, haM, if_false, hnow, headD_nil, handle, tail_nil] at hins hadv' ⊢
    rw [hins, hadv', hloop, filter_cons_of_pos (by simpa using haM)]
    rfl

/-- The timers that were run. -/
def ranIds (log : List (TimersEvent H)) : List Int :=
  log.filterMap fun event =>
    match event with
    | .ran timerId _ => some timerId
    | .returned _ _ => none

theorem ranIds_map (l : List (Nat × Timer H)) :
    ranIds (l.map fun e => TimersEvent.ran e.2.timerId e.2.handler) = ids l := by
  induction l with
  | nil => rfl
  | cons e l ih => exact congrArg (e.2.timerId :: ·) ih

/-- With handlers that do nothing, `execute` comes to an end, and runs each timer at most once, if
and only if no entry of a live timer recurs. -/
theorem execute_ends_iff (h : Reachable s) (now : Nat) :
    (∃ fuel s' log, s.execute fuel now [] = some (s', log) ∧ (ranIds log).Nodup) ↔
      ∀ e ∈ s.entries, e.2.timerId ∉ s.cancelledTimers → ¬ Recurs now e := by
  obtain ⟨horderly, hidle⟩ := h.orderly
  constructor
  · intro ⟨fuel, s', log, hexec, _⟩ e he hM hrec
    have hnone := executeLoop_forever (s := s.rewind) horderly.sorted he hM hrec fuel
    rw [execute, hnone] at hexec
    cases hexec
  intro hrec
  obtain ⟨due, later, hl, hdue, hlater⟩ := horderly.sorted.split now
  have hsub : due.Sublist s.entries := hl ▸ sublist_append_left _ _
  have hnodup : (ids s.entries).Nodup := by
    have := horderly.nodup
    rw [hidle] at this
    exact this
  have hn : (ids due).Nodup := hnodup.sublist (hsub.map _)
  obtain ⟨fuel, s', hloop⟩ := executeLoop_ends (n := s.nextTimerId) [] []
    (hl ▸ horderly.sorted) hdue hlater hn fun e he => hrec e (hsub.subset he)
  rw [← hl] at hloop
  refine ⟨fuel, s', _, hloop, ?_⟩
  rw [ranIds_map]
  exact hn.sublist (filter_sublist.map _)

/-- A timer with an interval of one ms. -/
theorem execute_ends_iff_periodic : ∃ s : Timers Unit, Reachable s ∧ s.entries ≠ [] ∧
    ∃ fuel s' log, s.execute fuel 5 [] = some (s', log) ∧ (ranIds log).Nodup := by
  have hreach : Reachable (during 1 [] [(1, ⟨1, 1, ()⟩)] ∅) :=
    Reachable.start.call (a := .add 0 1 (some ())) (r := { rc := .ok 1 }) ⟨0, by decide⟩
  refine ⟨_, hreach, cons_ne_nil _ _, (execute_ends_iff hreach 5).mpr fun e he _ hrec => ?_⟩
  obtain rfl := mem_singleton.mp he
  exact absurd hrec.2 (by decide)

/-- A timer that is added with an interval of zero is run for ever, and so is one whose due time
overflows. -/
theorem execute_loops :
    (∃ s : Timers Unit, ({} : Timers Unit).Returns (.add 0 0 (some ())) { rc := .ok 1 } s ∧
      ∀ fuel, s.execute fuel 0 [] = none) ∧
    ∃ s : Timers Unit,
      ({} : Timers Unit).Returns (.add 5 (2 ^ 64 - 1) (some ())) { rc := .ok 1 } s ∧
      ∀ fuel, s.execute fuel 5 [] = none := by
  refine ⟨⟨during 1 [] [(0, ⟨1, 0, ()⟩)] ∅, ⟨0, by decide⟩, fun fuel => ?_⟩,
    ⟨during 1 [] [(4, ⟨1, 2 ^ 64 - 1, ()⟩)] ∅, ⟨0, by decide⟩, fun fuel => ?_⟩⟩
  · exact executeLoop_forever (s := during 1 [] [(0, ⟨1, 0, ()⟩)] ∅) (pairwise_singleton _ _)
      mem_cons_self (Finset.notMem_empty _) ⟨by decide, by decide⟩ fuel
  · exact executeLoop_forever (s := during 1 [] [(4, ⟨1, 2 ^ 64 - 1, ()⟩)] ∅)
      (pairwise_singleton _ _) mem_cons_self (Finset.notMem_empty _)
      ⟨by decide, by decide⟩ fuel

end Timers

end ServerLink

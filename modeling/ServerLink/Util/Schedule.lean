import Mathlib.Logic.Function.Basic
import ServerLink.Util.Timers

/-!
# ServerLink.Util.Schedule

What timers are for: a set of periodic timers, each with the time it is due next. `Spec` says
what every call returns and does to the set. There are no marks and no loops here; only the order
in which `execute` runs timers that are due at the same time is left open.

`Trace` follows the ids through what can be observed: a new id is greater than all before it, and
an id that is no longer live is never run again.
-/

namespace ServerLink

open Function

/-- A timer that has not been cancelled. -/
structure Slot (H : Type) where
  due : Nat
  interval : Nat
  handler : H

/-- The timers that have not been cancelled, by id. -/
structure Schedule (H : Type) where
  lastId : Int := 0
  live : Int → Option (Slot H) := fun _ => none

namespace Schedule

variable {H : Type}

def add (a : Schedule H) (now interval : Nat) (handler : H) : Schedule H where
  lastId := a.lastId + 1
  live := update a.live (a.lastId + 1) (some ⟨now + interval, interval, handler⟩)

def remove (a : Schedule H) (timerId : Int) : Schedule H :=
  { a with live := update a.live timerId none }

/-- A timer is due at another time; a cancelled one is not armed again. -/
def rearm (a : Schedule H) (timerId : Int) (due interval : Nat) : Schedule H :=
  let slot := (a.live timerId).map fun slot => { slot with due, interval }
  { a with live := update a.live timerId slot }

/-- A call that a handler may make. -/
def handlerCall (a : Schedule H) : HandlerCall H → Schedule H × Except Errno Int
  | .add _ _ none => (a, .error .efault)
  | .add now interval (some handler) => (a.add now interval handler, .ok (a.lastId + 1))
  | .cancel timerId =>
    if (a.live timerId).isSome then (a.remove timerId, .ok 0) else (a, .error .einval)

def handle : List (HandlerCall H) → Schedule H → Schedule H × List (TimersEvent H)
  | [], a => (a, [])
  | call :: calls, a =>
    let r := a.handlerCall call
    let r' := handle calls r.1
    (r'.1, .returned call r.2 :: r'.2)

/-- Run timers one after the other, and arm each of them anew. A timer that an earlier handler
has cancelled is not run. -/
def runAll (now : Nat) : List (List (HandlerCall H)) → List Int → Schedule H →
    Schedule H × List (TimersEvent H)
  | _, [], a => (a, [])
  | script, timerId :: ids, a =>
    match a.live timerId with
    | none => runAll now script ids a
    | some slot =>
      let r := handle (script.headD []) a
      let r' := runAll now script.tail ids (r.1.rearm timerId (now + slot.interval) slot.interval)
      (r'.1, .ran timerId slot.handler :: r.2 ++ r'.2)

/-- The timer is due. -/
def Due (a : Schedule H) (now : Nat) (timerId : Int) : Prop :=
  ∃ slot, a.live timerId = some slot ∧ slot.due ≤ now

/-- No timer is due before this one. -/
def Earliest (a : Schedule H) (slot : Slot H) : Prop :=
  (∃ timerId, a.live timerId = some slot) ∧
    ∀ timerId slot', a.live timerId = some slot' → slot.due ≤ slot'.due

/-- The timers of the list are due in this order. -/
def Ordered (a : Schedule H) (ids : List Int) : Prop :=
  ids.Pairwise fun i j => ∀ slot slot', a.live i = some slot → a.live j = some slot' →
    slot.due ≤ slot'.due

/-- What a call returns, and what it does to the timers. -/
def Spec (a : Schedule H) : TimersCall H → TimersResult H → Schedule H → Prop
  | .add now interval handler, r, a' => (a', r.rc) = a.handlerCall (.add now interval handler)
  | .cancel timerId, r, a' => (a', r.rc) = a.handlerCall (.cancel timerId)
  | .setInterval now timerId interval, r, a' =>
    ((a.live timerId).isSome → r.rc = .ok 0) ∧ a' = a.rearm timerId (now + interval) interval
  | .reset now timerId, r, a' =>
    ((a.live timerId).isSome → r.rc = .ok 0) ∧
      a' = match a.live timerId with
        | none => a
        | some slot => a.rearm timerId (now + slot.interval) slot.interval
  | .timeout now, r, a' =>
    a' = a ∧ ((∀ timerId, a.live timerId = none) → r.rc = .ok (-1)) ∧
      ∀ slot, a.Earliest slot → r.rc = .ok (max ((slot.due : Int) - now) 0)
  | .execute now script, r, a' =>
    r.rc = .ok 0 ∧ ∃ ids : List Int, ids.Nodup ∧ (∀ timerId, timerId ∈ ids ↔ a.Due now timerId) ∧
      a.Ordered ids ∧ (a', r.log) = runAll now script ids a

/-! ### Events -/

/-- Only timers that were added are live. -/
def Known (a : Schedule H) : Prop := ∀ timerId, (a.live timerId).isSome → timerId ≤ a.lastId

/-- What can be observed while a schedule changes. In between, timers may be armed anew. -/
inductive Trace : Schedule H → List (TimersEvent H) → Schedule H → Prop
  | nil {a : Schedule H} : Trace a [] a
  | ran {a a' : Schedule H} {timerId : Int} {handler : H} {log : List (TimersEvent H)} :
    (a.live timerId).isSome → Trace a log a' → Trace a (.ran timerId handler :: log) a'
  | returned {a a1 a' : Schedule H} {call : HandlerCall H} {rc : Except Errno Int}
      {log : List (TimersEvent H)} :
    a.handlerCall call = (a1, rc) → Trace a1 log a' → Trace a (.returned call rc :: log) a'
  | rearm {a a' : Schedule H} {timerId : Int} {due interval : Nat} {log : List (TimersEvent H)} :
    Trace (a.rearm timerId due interval) log a' → Trace a log a'

variable {a a1 a2 : Schedule H} {log log1 log2 : List (TimersEvent H)} {timerId : Int}

theorem Trace.append (h : Trace a log1 a1) (h' : Trace a1 log2 a2) : Trace a (log1 ++ log2) a2 := by
  induction h with
  | nil => exact h'
  | ran hlive _ ih => exact .ran hlive (ih h')
  | returned hcall _ ih => exact .returned hcall (ih h')
  | rearm _ ih => exact .rearm (ih h')

theorem trace_handle (calls : List (HandlerCall H)) (a : Schedule H) :
    Trace a (handle calls a).2 (handle calls a).1 := by
  induction calls generalizing a with
  | nil => exact .nil
  | cons call calls ih => exact .returned rfl (ih _)

theorem trace_runAll (now : Nat) (script : List (List (HandlerCall H))) (ids : List Int)
    (a : Schedule H) : Trace a (runAll now script ids a).2 (runAll now script ids a).1 := by
  induction ids generalizing script a with
  | nil => exact .nil
  | cons i ids ih =>
    unfold runAll
    split
    · exact ih script a
    · rename_i slot hslot
      refine .ran (by rw [hslot]; rfl) ?_
      exact (trace_handle (script.headD []) a).append (.rearm (ih _ _))

theorem isSome_rearm (a : Schedule H) (i : Int) (due interval : Nat) (j : Int) :
    ((a.rearm i due interval).live j).isSome = (a.live j).isSome := by
  by_cases hj : j = i
  · subst hj
    simp only [rearm, update_self, Option.isSome_map]
  · simp only [rearm, update_of_ne hj]

/-- The cases of a call: a new id, a timer that is no longer live, or nothing. -/
theorem handlerCall_cases {call : HandlerCall H} {rc : Except Errno Int}
    (h : a.handlerCall call = (a1, rc)) :
    (∃ now interval handler, call = .add now interval (some handler) ∧ rc = .ok (a.lastId + 1) ∧
        a1 = a.add now interval handler) ∨
      (∃ i, call = .cancel i ∧ rc = .ok 0 ∧ (a.live i).isSome ∧ a1 = a.remove i) ∨
      ((∃ e, rc = .error e) ∧ a1 = a) := by
  cases call with
  | add now interval handler =>
    cases handler with
    | none =>
      cases h
      exact .inr (.inr ⟨⟨_, rfl⟩, rfl⟩)
    | some handler =>
      cases h
      exact .inl ⟨now, interval, handler, rfl, rfl, rfl⟩
  | cancel i =>
    by_cases hlive : (a.live i).isSome = true
    · rw [handlerCall, if_pos hlive] at h
      cases h
      exact .inr (.inl ⟨i, rfl, rfl, hlive, rfl⟩)
    · rw [handlerCall, if_neg hlive] at h
      cases h
      exact .inr (.inr ⟨⟨_, rfl⟩, rfl⟩)

theorem isSome_add (a : Schedule H) (now interval : Nat) (handler : H) {i : Int}
    (hi : i ≤ a.lastId) : ((a.add now interval handler).live i).isSome = (a.live i).isSome := by
  have hne : i ≠ a.lastId + 1 := by omega
  simp only [add, update_of_ne hne]

theorem isSome_remove (a : Schedule H) (i j : Int) :
    ((a.remove i).live j).isSome = true ↔ j ≠ i ∧ (a.live j).isSome = true := by
  by_cases hj : j = i
  · subst hj
    simp only [remove, update_self, Option.isSome_none, Bool.false_eq_true, ne_eq,
      not_true_eq_false, false_and]
  · simp only [remove, update_of_ne hj, ne_eq, hj, not_false_eq_true, true_and]

/-- A timer that was made and is not live any more. -/
def Gone (a : Schedule H) (timerId : Int) : Prop :=
  timerId ≤ a.lastId ∧ (a.live timerId).isSome = false

theorem Gone.handlerCall {call : HandlerCall H} {rc : Except Errno Int} (h : a.Gone timerId)
    (hcall : a.handlerCall call = (a1, rc)) : a1.Gone timerId := by
  rcases handlerCall_cases hcall with ⟨now, interval, handler, rfl, rfl, rfl⟩ | h' | ⟨-, rfl⟩
  · refine ⟨?_, by rw [isSome_add _ _ _ _ h.1, h.2]⟩
    have : timerId ≤ a.lastId := h.1
    simp only [add]
    omega
  · obtain ⟨i, rfl, rfl, hlive, rfl⟩ := h'
    refine ⟨h.1, ?_⟩
    rw [← Bool.not_eq_true, isSome_remove, h.2]
    exact fun hsome => Bool.false_ne_true hsome.2
  · exact h

theorem Trace.not_ran (h : Trace a log a1) (hgone : a.Gone timerId) (handler : H) :
    .ran timerId handler ∉ log := by
  induction h with
  | nil => exact nofun
  | ran hlive _ ih =>
    intro hmem
    rcases List.mem_cons.mp hmem with heq | hmem
    · obtain ⟨rfl, -⟩ := TimersEvent.ran.inj heq
      exact absurd hlive (by simp [hgone.2])
    · exact ih hgone hmem
  | returned hcall _ ih =>
    intro hmem
    rcases List.mem_cons.mp hmem with heq | hmem
    · cases heq
    · exact ih (hgone.handlerCall hcall) hmem
  | rearm _ ih => exact ih ⟨hgone.1, by rw [isSome_rearm, hgone.2]⟩

theorem Known.handlerCall {call : HandlerCall H} {rc : Except Errno Int} (h : a.Known)
    (hcall : a.handlerCall call = (a1, rc)) : a1.Known := by
  rcases handlerCall_cases hcall with ⟨now, interval, handler, rfl, rfl, rfl⟩ | h' | ⟨-, rfl⟩
  · intro i hi
    by_cases hle : i ≤ a.lastId
    · simp only [add]
      omega
    by_cases heq : i = a.lastId + 1
    · exact Int.le_of_eq heq
    · refine absurd (h i ?_) hle
      simpa only [add, update_of_ne heq] using hi
  · obtain ⟨i, rfl, rfl, hlive, rfl⟩ := h'
    exact fun j hj => h j ((isSome_remove a i j).mp hj).2
  · exact h

theorem Known.rearm (h : a.Known) (i : Int) (due interval : Nat) :
    (a.rearm i due interval).Known := by
  intro j hj
  rw [isSome_rearm] at hj
  exact h j hj

/-- After a timer was cancelled it is not run. -/
theorem Trace.not_ran_of_cancelled (h : Trace a log a1) (ha : a.Known) {v : Int}
    {pre post : List (TimersEvent H)}
    (hlog : log = pre ++ .returned (.cancel timerId) (.ok v) :: post) (handler : H) :
    .ran timerId handler ∉ post := by
  induction h generalizing pre with
  | nil => cases pre <;> cases hlog
  | ran _ _ ih =>
    cases pre with
    | nil => cases hlog
    | cons event pre => exact ih ha (List.cons.inj hlog).2
  | returned hcall htrace ih =>
    cases pre with
    | nil =>
      obtain ⟨heq, rfl⟩ := List.cons.inj hlog
      obtain ⟨rfl, rfl⟩ := TimersEvent.returned.inj heq
      rcases handlerCall_cases hcall with
        ⟨_, _, _, h', -, -⟩ | ⟨i, h', -, hlive, rfl⟩ | ⟨⟨_, h'⟩, -⟩
      · cases h'
      · obtain rfl := HandlerCall.cancel.inj h'
        refine htrace.not_ran ⟨ha _ hlive, ?_⟩ handler
        rw [← Bool.not_eq_true, isSome_remove]
        exact fun hne => hne.1 rfl
      · cases h'
    | cons event pre => exact ih (ha.handlerCall hcall) (List.cons.inj hlog).2
  | rearm _ ih => exact ih (ha.rearm _ _ _) hlog

/-- The ids of the timers that were added. -/
def addedIds (log : List (TimersEvent H)) : List Int :=
  log.filterMap fun event =>
    match event with
    | .returned (.add _ _ _) (.ok timerId) => some timerId
    | _ => none

theorem Trace.addedIds (h : Trace a log a1) : a.lastId ≤ a1.lastId ∧
    (∀ i ∈ Schedule.addedIds log, a.lastId < i ∧ i ≤ a1.lastId) ∧
      (Schedule.addedIds log).Pairwise (· < ·) := by
  induction h with
  | nil => exact ⟨Int.le_refl _, fun i hi => absurd hi List.not_mem_nil, List.Pairwise.nil⟩
  | ran _ _ ih => exact ih
  | @returned a a1 a' call rc log hcall _ ih =>
    obtain ⟨hle, hmem, hsorted⟩ := ih
    rcases handlerCall_cases hcall with
      ⟨_, _, _, rfl, rfl, rfl⟩ | ⟨_, rfl, rfl, -, rfl⟩ | ⟨⟨err, rfl⟩, rfl⟩
    · simp only [add] at hle hmem
      refine ⟨by omega, fun i hi => ?_, List.pairwise_cons.mpr ⟨fun i hi => ?_, hsorted⟩⟩
      · rcases List.mem_cons.mp hi with rfl | hi
        · omega
        · have := hmem i hi
          omega
      · exact (hmem i hi).1
    · exact ⟨hle, hmem, hsorted⟩
    · have hnone : Schedule.addedIds (.returned call (.error err) :: log) =
          Schedule.addedIds log := by
        cases call <;> rfl
      rw [hnone]
      exact ⟨hle, hmem, hsorted⟩
  | rearm _ ih => exact ih

end Schedule

end ServerLink

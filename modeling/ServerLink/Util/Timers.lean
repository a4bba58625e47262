import Mathlib.Data.Finset.Basic
import ServerLink.Lib.Multimap
import ServerLink.Util.Err

/-!
# ServerLink.Util.Timers

Timers (`timers.cpp`). The timers are in a multimap, in the order of the times they are due.
Cancelling a timer only puts a mark on it: `timeout` and `execute` remove marked timers when they
come across them.

`execute` runs the handlers of the timers that are due, and arms each of them anew, in the map it
traverses. A handler may use the timers itself. What the handlers do comes from outside: a script
says which calls the first handler makes that is run, which the second, and so on. The loop does
not always come to an end, so it is given fuel.

A clock reading is part of the call that takes it. Ids are of type `int` in the source; at most
2^31 - 1 timers are made.
-/

namespace ServerLink

open Multimap

/-- `timer_t`. The handler stands for a function and its argument. -/
structure Timer (H : Type) where
  timerId : Int
  interval : Nat
  handler : H
  deriving DecidableEq

/-- `timers_t`. -/
structure Timers (H : Type) where
  nextTimerId : Int := 0
  timers : Cursor (Timer H) := {}
  cancelledTimers : Finset Int := ∅
  deriving DecidableEq

/-- What a handler may do. -/
inductive HandlerCall (H : Type)
  | add (now interval : Nat) (handler : Option H)
  | cancel (timerId : Int)
  deriving DecidableEq

/-- What can be observed of `execute`: a handler is run, and a call it makes returns. -/
inductive TimersEvent (H : Type)
  | ran (timerId : Int) (handler : H)
  | returned (call : HandlerCall H) (rc : Except Errno Int)
  deriving DecidableEq

/-- The calls of the user. -/
inductive TimersCall (H : Type)
  | add (now interval : Nat) (handler : Option H)
  | cancel (timerId : Int)
  | setInterval (now : Nat) (timerId : Int) (interval : Nat)
  | reset (now : Nat) (timerId : Int)
  | timeout (now : Nat)
  | execute (now : Nat) (script : List (List (HandlerCall H)))
  deriving DecidableEq

/-- What a call returns, and what happens during it. -/
structure TimersResult (H : Type) where
  rc : Except Errno Int
  log : List (TimersEvent H) := []
  deriving DecidableEq

namespace Timers

variable {H : Type}

/-- The multimap. -/
def entries (s : Timers H) : List (Nat × Timer H) := s.timers.entries

/-- No loop is running. -/
def rewind (s : Timers H) : Timers H := { s with timers := s.timers.reset }

def add (s : Timers H) (now interval : Nat) (handler : Option H) : Timers H × Except Errno Int :=
  match handler with
  | none => (s, .error .efault)
  | some handler =>
    let id := s.nextTimerId + 1
    ({ s with
      nextTimerId := id
      timers := s.timers.insert ((now + interval) % 2 ^ 64, ⟨id, interval, handler⟩) }, .ok id)

/-- `find_if` with `match_by_id`. -/
def findById (s : Timers H) (timerId : Int) : Option (Nat × Timer H) :=
  s.entries.find? fun e => e.2.timerId = timerId

def cancel (s : Timers H) (timerId : Int) : Timers H × Except Errno Int :=
  match s.findById timerId with
  | none => (s, .error .einval)
  | some _ =>
    if timerId ∈ s.cancelledTimers then (s, .error .einval)
    else ({ s with cancelledTimers := insert timerId s.cancelledTimers }, .ok 0)

/-- A timer is erased and armed anew. -/
def rearm (s : Timers H) (now : Nat) (timerId : Int) (change : Timer H → Timer H) :
    Timers H × Except Errno Int :=
  match s.findById timerId with
  | none => (s, .error .einval)
  | some e =>
    let timer := change e.2
    let rest := s.entries.eraseP fun e => e.2.timerId = timerId
    ({ s with timers := Cursor.insert { rest } ((now + timer.interval) % 2 ^ 64, timer) }, .ok 0)

def setInterval (s : Timers H) (now : Nat) (timerId : Int) (interval : Nat) :
    Timers H × Except Errno Int :=
  s.rearm now timerId fun timer => { timer with interval }

def reset (s : Timers H) (now : Nat) (timerId : Int) : Timers H × Except Errno Int :=
  s.rearm now timerId id

/-- The loop of `timeout`: marked timers are dropped up to the first one that is not. -/
def dropCancelled : List (Nat × Timer H) → Finset Int → List (Nat × Timer H) × Finset Int
  | [], cancelled => ([], cancelled)
  | e :: l, cancelled =>
    if e.2.timerId ∈ cancelled then dropCancelled l (cancelled.erase e.2.timerId)
    else (e :: l, cancelled)

/-- The difference of two clock readings as a `long`. -/
def toLong (due now : Nat) : Int := Int.bmod (due - now) (2 ^ 64)

def timeout (s : Timers H) (now : Nat) : Timers H × Int :=
  let (rest, cancelledTimers) := dropCancelled s.entries s.cancelledTimers
  let res := match rest with
    | [] => -1
    | e :: _ => max (toLong e.1 now) 0
  ({ s with timers := { rest }, cancelledTimers }, res)

/-- The calls of one handler. -/
def handle : List (HandlerCall H) → Timers H → Timers H × List (TimersEvent H)
  | [], s => (s, [])
  | call :: calls, s =>
    let (s1, rc) := match call with
      | .add now interval handler => s.add now interval handler
      | .cancel timerId => s.cancel timerId
    let (s2, log) := handle calls s1
    (s2, .returned call rc :: log)

/-- The loop of `execute`; `none` if the fuel is used up. -/
def executeLoop (now : Nat) : Nat → List (List (HandlerCall H)) → Timers H →
    Option (Timers H × List (TimersEvent H))
  | 0, _, _ => none
  | fuel + 1, script, s =>
    match s.timers.rest with
    | [] => some ({ s with timers := s.timers.eraseVisited }, [])
    | (due, timer) :: _ =>
      if timer.timerId ∈ s.cancelledTimers then
        executeLoop now fuel script { s with
          timers := s.timers.advance
          cancelledTimers := s.cancelledTimers.erase timer.timerId }
      else if now < due then some ({ s with timers := s.timers.eraseVisited }, [])
      else
        let (s1, log) := handle (script.headD []) s
        let s2 := { s1 with
          timers := (s1.timers.insert ((now + timer.interval) % 2 ^ 64, timer)).advance }
        (executeLoop now fuel script.tail s2).map fun r =>
          (r.1, .ran timer.timerId timer.handler :: log ++ r.2)

def execute (fuel : Nat) (s : Timers H) (now : Nat) (script : List (List (HandlerCall H))) :
    Option (Timers H × List (TimersEvent H)) :=
  executeLoop now fuel script s.rewind

/-- A call of the user. -/
def call (fuel : Nat) (s : Timers H) : TimersCall H → Option (Timers H × TimersResult H)
  | .add now interval handler =>
    let (s', rc) := s.add now interval handler
    some (s'.rewind, { rc })
  | .cancel timerId =>
    let (s', rc) := s.cancel timerId
    some (s', { rc })
  | .setInterval now timerId interval =>
    let (s', rc) := s.setInterval now timerId interval
    some (s'.rewind, { rc })
  | .reset now timerId =>
    let (s', rc) := s.reset now timerId
    some (s'.rewind, { rc })
  | .timeout now =>
    let (s', res) := s.timeout now
    some (s', { rc := .ok res })
  | .execute now script =>
    (s.execute fuel now script).map fun r => (r.1, { rc := .ok 0, log := r.2 })

/-- The call comes back. -/
def Returns (s : Timers H) (a : TimersCall H) (r : TimersResult H) (s' : Timers H) : Prop :=
  ∃ fuel, s.call fuel a = some (s', r)

end Timers

end ServerLink

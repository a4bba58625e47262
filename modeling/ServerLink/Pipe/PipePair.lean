import ServerLink.Lib.Run
import ServerLink.Pipe.Pipe

/-!
# ServerLink.Pipe.PipePair

Two pipe ends at work (`pipepair`): each has its pipe object and the queue of commands
sent to it, which arrive in the order sent. A step is a call of one end's owner or the
delivery of one command; the owners and the deliveries interleave freely.
-/

namespace ServerLink

/-- What the owner of a pipe writes to it: a valid message that is not a delimiter.
Only `terminate` makes delimiters. -/
structure OwnerMsg where
  msg : Msg
  valid : msg.check = true
  notDelimiter : msg.isDelimiter = false

/-- What can happen at one end of a pipe. `hiccupTerminate` is the one way the program
uses `hiccup`: `reconnect` calls `terminate (false)` right after it. -/
inductive PipeAction
  | write (m : OwnerMsg)
  | rollback
  | flush
  | checkWrite
  | checkRead
  | read
  | setNodelay
  | terminate (delay : Bool)
  | hiccupTerminate
  | deliver

/-- The action asks for termination. -/
def PipeAction.Asks : PipeAction → Prop
  | .terminate _ | .hiccupTerminate => True
  | _ => False

/-- The action has nothing to do with termination, and does not write a credential. (The
program writes one only when the mechanism knows a user id, and none ever does.) -/
def PipeAction.Plain : PipeAction → Prop
  | .write m => m.msg.isCredential = false
  | .terminate _ | .hiccupTerminate => False
  | _ => True

/-- One end: the pipe and the commands on their way to it. -/
structure PipeEnd where
  pipe : Pipe
  inbox : List Command := []

structure PipePair where
  first : PipeEnd
  second : PipeEnd
  heap : Arena Queue

inductive PipeSide
  | first
  | second
  deriving Repr, DecidableEq

def PipeSide.other : PipeSide → PipeSide
  | .first => .second
  | .second => .first

namespace PipePair

/-- `pipepair`: two queues, and two ends that use them in opposite directions. -/
def new (hwm0 hwm1 : Int) : PipePair where
  first := { pipe := Pipe.new 0 1 hwm1 hwm0 }
  second := { pipe := Pipe.new 1 0 hwm0 hwm1 }
  heap := (({} : Arena Queue).alloc {}).alloc {}

/-- The same pair seen from the other end. -/
def swap (s : PipePair) : PipePair := { s with first := s.second, second := s.first }

/-- Run a method of the first end. The commands it sends queue up for the second; a pipe
that deleted itself cannot be sent any. -/
def call (s : PipePair) (method : PipeCall → Except Fault PipeCall) : Except Fault PipePair :=
  match method { pipe := s.first.pipe, heap := s.heap } with
  | .error e => .error e
  | .ok c =>
    if s.second.pipe.deleted && !c.sent.isEmpty then .error .pipeDeleted
    else .ok
      { first := { s.first with pipe := c.pipe }
        second := { s.second with inbox := s.second.inbox ++ c.sent }
        heap := c.heap }

/-- The method an action calls. -/
def method : PipeAction → PipeCall → Except Fault PipeCall
  | .write m, c => (c.write m.msg).map Prod.snd
  | .rollback, c => c.rollback
  | .flush, c => c.flush
  | .checkWrite, c => .ok c.checkWrite.2
  | .checkRead, c => c.checkRead.map Prod.snd
  | .read, c => c.read.map Prod.snd
  | .setNodelay, c => .ok c.setNodelay
  | .terminate delay, c => c.terminate delay
  | .hiccupTerminate, c => c.hiccup.terminate false
  | .deliver, c => .ok c

/-- A step of the first end. The owner of a deleted pipe has dropped its reference to
it and calls nothing any more. -/
def stepFirst (s : PipePair) : PipeAction → Except Fault PipePair
  | .deliver =>
    match s.first.inbox with
    | [] => .ok s
    | cmd :: rest =>
      if s.first.pipe.deleted then .error .pipeDeleted
      else { s with first := { s.first with inbox := rest } }.call (·.processCommand cmd)
  | a => if s.first.pipe.deleted then .ok s else s.call (method a)

/-- A step of either end. -/
def step (s : PipePair) : PipeSide × PipeAction → Except Fault PipePair
  | (.first, a) => s.stepFirst a
  | (.second, a) => (s.swap.stepFirst a).map swap

theorem stepFirst_eq {a : PipeAction} (ha : a ≠ .deliver) (s : PipePair) :
    s.stepFirst a = if s.first.pipe.deleted then .ok s else s.call (method a) := by
  cases a <;> first | rfl | exact absurd rfl ha

/-- The end on a side. -/
def side (s : PipePair) : PipeSide → PipeEnd
  | .first => s.first
  | .second => s.second

end PipePair

end ServerLink

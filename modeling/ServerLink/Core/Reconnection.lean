import ServerLink.Lib.Groups
import ServerLink.Pipe.Exchange

/-!
# ServerLink.Core.Reconnection

An active session that keeps its pipe over connection losses (`session_base.cpp`, without
`immediate`): engines come and go, each pulls what the socket writes and pushes what it
decodes, and `clean_pipes` tidies up after the engine that failed. Here both directions of
the pipe are modelled; the termination of the session is not.

A part is written with the `more` flag of the message, so that the queues publish whole
messages only; that is what makes the rest of a half-pulled message readable. The state
also records what happened (`Round`, `written`, `received`), which no function reads.
-/

namespace ServerLink

open Groups

/-- A message of the socket or of an engine. Neither writes delimiters or credentials. -/
structure PlainMsg extends OwnerMsg where
  notCredential : msg.isCredential = false

/-- What happened while one engine was there: the parts that it pulled, those that
`clean_pipes` removed after it, and the parts that it pushed and that were not taken back. -/
structure Round where
  pulled : List Msg := []
  discarded : List Msg := []
  pushed : List Msg := []

/-- All parts that left the pipe. -/
def Round.taken (r : Round) : List Msg := r.pulled ++ r.discarded

/-- The session and its pipe, of which the session has the first end and the socket the
second. -/
structure PipedSession where
  pair : PipePair
  incompleteIn : Bool := false
  /-- `_engine` is set. -/
  engine : Bool := false
  /-- The engines that are gone, and the one that is there. -/
  rounds : List Round := []
  current : Round := {}
  /-- What the socket has written and has not taken back. -/
  written : List Msg := []
  /-- What the socket has read. -/
  received : List Msg := []

inductive SessionEvent
  | socketWrite (m : PlainMsg)
  | socketFlush
  | socketRollback
  | socketRead
  | socketCheckRead
  | socketCheckWrite
  /-- The socket processes a command of its pipe. -/
  | socketDeliver
  /-- A connection has been made. -/
  | attach
  | pull
  | push (m : PlainMsg)
  | flush
  /-- The connection is lost. The engine may send a disconnect notification. -/
  | lose (notify : Bool)
  /-- The session processes a command of its pipe. -/
  | deliver

namespace PipedSession

/-- A pipe without messages. -/
def new (hwm0 hwm1 : Int) : PipedSession := { pair := .new hwm0 hwm1 }

/-! ### The session -/

def pullMsg (s : PipedSession) : Except Fault (Option Msg × PipedSession) :=
  match s.pair.ask PipeCall.read with
  | .error e => .error e
  | .ok (none, pair) => .ok (none, { s with pair })
  | .ok (some m, pair) => .ok (some m, { s with pair, incompleteIn := m.more })

/-- A command that is not for the socket. -/
def ignored (m : Msg) : Bool := m.command && !m.isSubscribe && !m.isCancel

def pushMsg (s : PipedSession) (m : Msg) : Except Fault (Bool × PipedSession) :=
  if ignored m then .ok (true, s)
  else
    match s.pair.ask (·.write m) with
    | .error e => .error e
    | .ok (false, pair) => .ok (false, { s with pair })
    | .ok (true, pair) => .ok (true, { s with pair, current.pushed := s.current.pushed ++ [m] })

def flush (s : PipedSession) : Except Fault PipedSession :=
  (s.pair.call PipeCall.flush).map fun pair => { s with pair }

def rollback (s : PipedSession) : Except Fault PipedSession :=
  (s.pair.call PipeCall.rollback).map fun pair =>
    { s with pair, current.pushed := finished Msg.more s.current.pushed }

def checkRead (s : PipedSession) : Except Fault PipedSession :=
  (s.pair.call (PipePair.method .checkRead)).map fun pair => { s with pair }

/-- The loop of `clean_pipes`, for as many messages as there are to read. -/
def drain : Nat → PipedSession → Except Fault PipedSession
  | 0, s => if s.incompleteIn then .error .sessionPull else .ok s
  | fuel + 1, s =>
    if s.incompleteIn then
      match s.pullMsg with
      | .error e => .error e
      | .ok (none, _) => .error .sessionPull
      | .ok (some m, s) =>
        match m.close with
        | none => .error .msgClose
        | some _ => drain fuel { s with current.discarded := s.current.discarded ++ [m] }
    else .ok s

/-- How many messages the session can read. -/
def readable (s : PipedSession) : Nat :=
  match s.pair.heap.cell s.pair.first.pipe.inPipe with
  | none => 0
  | some queue => queue.flushed.length

def cleanPipes (s : PipedSession) : Except Fault PipedSession := do
  let s ← s.rollback
  let s ← s.flush
  drain s.readable s

/-- `engine_error`, for the reasons for which an active session reconnects. Without
`immediate`, `reconnect` leaves the pipe alone. -/
def engineError (s : PipedSession) : Except Fault PipedSession := do
  let s ← { s with engine := false }.cleanPipes
  s.checkRead

/-- The disconnect notification of an engine. -/
def notifyError (s : PipedSession) (notify : Bool) : Except Fault PipedSession :=
  if notify then do
    let s ← s.rollback
    let (_, s) ← s.pushMsg .init
    return s
  else .ok s

/-- `error` of the engine. -/
def error (s : PipedSession) (notify : Bool) : Except Fault PipedSession := do
  let s ← s.notifyError notify
  let s ← s.engineError
  return { s with rounds := s.rounds ++ [s.current], current := {} }

/-- A command for the pipe of the session. A pipe that is woken while there is no engine is
looked at, for a delimiter; an engine would be told to go on. -/
def processCommand (s : PipedSession) : Except Fault PipedSession :=
  match s.pair.stepFirst .deliver with
  | .error e => .error e
  | .ok pair =>
    if !s.engine && !s.pair.first.pipe.inActive && pair.first.pipe.inActive then
      { s with pair }.checkRead
    else .ok { s with pair }

/-! ### The socket -/

/-- Something happens at the end of the socket. -/
def onSocket (s : PipedSession) (f : PipePair → Except Fault PipePair) :
    Except Fault PipedSession :=
  (f s.pair.swap).map fun pair => { s with pair := pair.swap }

def socketWrite (s : PipedSession) (m : Msg) : Except Fault PipedSession :=
  match s.pair.swap.ask (·.write m) with
  | .error e => .error e
  | .ok (false, pair) => .ok { s with pair := pair.swap }
  | .ok (true, pair) => .ok { s with pair := pair.swap, written := s.written ++ [m] }

def socketRead (s : PipedSession) : Except Fault PipedSession :=
  match s.pair.swap.ask PipeCall.read with
  | .error e => .error e
  | .ok (none, pair) => .ok { s with pair := pair.swap }
  | .ok (some m, pair) => .ok { s with pair := pair.swap, received := s.received ++ [m] }

/-! ### Steps -/

/-- One step. Without an engine nothing is pulled or pushed, and a second one does not come. -/
def step (s : PipedSession) : SessionEvent → Except Fault PipedSession
  | .socketWrite m => s.socketWrite m.msg
  | .socketFlush => s.onSocket (·.call PipeCall.flush)
  | .socketRollback =>
    (s.onSocket (·.call PipeCall.rollback)).map fun s =>
      { s with written := finished Msg.more s.written }
  | .socketRead => s.socketRead
  | .socketCheckRead => s.onSocket (·.call (PipePair.method .checkRead))
  | .socketCheckWrite => s.onSocket (·.call (PipePair.method .checkWrite))
  | .socketDeliver => s.onSocket (·.stepFirst .deliver)
  | .attach => .ok { s with engine := true }
  | .pull =>
    if s.engine then
      match s.pullMsg with
      | .error e => .error e
      | .ok (none, s) => .ok s
      | .ok (some m, s) => .ok { s with current.pulled := s.current.pulled ++ [m] }
    else .ok s
  | .push m => if s.engine then (s.pushMsg m.msg).map Prod.snd else .ok s
  | .flush => if s.engine then s.flush else .ok s
  | .lose notify => if s.engine then s.error notify else .ok s
  | .deliver => s.processCommand

end PipedSession

end ServerLink

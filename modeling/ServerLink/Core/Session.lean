import ServerLink.Core.Disconnect
import ServerLink.Core.RouterSend

/-!
# ServerLink.Core.Session

One outgoing endpoint of a ROUTER: the session of the endpoint (`session_base.cpp`, an active
session), the engines that it gets one after the other (`stream_engine_base.cpp` and
`zmtp_engine.cpp`, as far as they write to the pipe), and the socket.

The session writes to its end of a pipe, and the socket reads at the other end. What the session
flushes is published at the socket's end. Without `immediate` the pipe is made when the user
connects and outlives the connections; with it, every connection that becomes ready gets a pipe of
its own, and pipes of earlier connections may still be around.

The queue from the socket to the session matters only through its delimiter, so the hiccup that
renews it is left out, and so is `clean_pipes` of the message that is half read from it.
-/

namespace ServerLink

/-- How far an engine has got. -/
inductive EngineStage
  /-- The greeting of the peer is not complete: `_handshaking`. -/
  | handshaking
  /-- READY has not come yet. -/
  | negotiating
  /-- READY has come with the identity, but the session has refused a message:
  `mechanism_ready` has returned early. -/
  | stalled (id : Blob)
  | ready
  deriving Repr, DecidableEq

/-- A pipe between the session and the socket. -/
structure Link where
  /-- The end of the session. -/
  out : PipeCall
  /-- The socket has attached its end. -/
  bound : Bool := false
  /-- The Identity of the READY command that was first passed on to the pipe. -/
  identity : Option Blob := none
  /-- The id under which the socket has entered the pipe in its routing table. -/
  entered : Option Blob := none

/-- The session, with the options it was created with, its pipes, and the socket. -/
structure Session where
  router : Router
  links : PipeId → Option Link := fun _ => none
  /-- The user has connected the endpoint. -/
  connected : Bool := false
  pipe : Option PipeId := none
  terminatingPipes : Finset PipeId := ∅
  engine : Option EngineStage := none
  /-- `_pending`. -/
  pending : Bool := false
  /-- `is_terminating ()`. -/
  terminating : Bool := false
  notifyConnect : Bool
  notifyDisconnect : Bool
  immediate : Bool
  sndhwm : Int
  rcvhwm : Int

/-- `peer_routing_id`. -/
def Msg.peerRoutingId (id : Blob) : Msg := (initBuffer id).setFlags routingIdFlag

/-- What else happens at the pipe end of the session: the session reads, and the socket sends
commands and messages. -/
inductive PipeUse
  | read
  | checkRead
  | processActivateRead
  | processActivateWrite (msgsRead : Int)
  | processPipeTerm
  | publish (msgs : List Msg)

def PipeUse.method : PipeUse → PipeCall → Except Fault PipeCall
  | .read, c => c.read.map Prod.snd
  | .checkRead, c => c.checkRead.map Prod.snd
  | .processActivateRead, c => .ok c.processActivateRead
  | .processActivateWrite msgsRead, c => .ok (c.processActivateWrite msgsRead)
  | .processPipeTerm, c => c.processPipeTerm
  | .publish msgs, c => .ok (c.publish msgs)

namespace Session

/-! ### The session -/

def setLink (s : Session) (p : PipeId) (l : Link) : Session :=
  { s with links := Function.update s.links p (some l) }

/-- The pipe is used: what is flushed from now on is published at the end of the socket. -/
def setOut (s : Session) (p : PipeId) (l : Link) (c : PipeCall) : Session :=
  let flushed := c.flushedOut.drop l.out.flushedOut.length
  { s.setLink p { l with out := c } with
    router := { s.router with queue := s.router.queue.modify p (·.publish flushed) } }

/-- Follow the pointer to a pipe. -/
def link (s : Session) (p : PipeId) : Except Fault Link :=
  match s.links p with
  | none => .error .pipeDestroyed
  | some l => if l.out.pipe.deleted then .error .pipeDestroyed else .ok l

def call (s : Session) (p : PipeId) (method : PipeCall → Except Fault PipeCall) :
    Except Fault Session := do
  let l ← s.link p
  let c ← method l.out
  return s.setOut p l c

/-- Call a method of `_pipe`, if there is one. -/
def onPipe (s : Session) (method : PipeCall → Except Fault PipeCall) : Except Fault Session :=
  match s.pipe with
  | none => .ok s
  | some p => s.call p method

/-- Write to a pipe, with the result of `write`. -/
def write (s : Session) (p : PipeId) (msg : Msg) : Except Fault (Bool × Session) := do
  let l ← s.link p
  let (written, c) ← l.out.write msg
  return (written, s.setOut p l c)

def pushMsg (s : Session) (msg : Msg) : Except Fault (Bool × Session) :=
  if msg.command && !msg.isSubscribe && !msg.isCancel then .ok (true, s)
  else
    match s.pipe with
    | none => .ok (false, s)
    | some p => s.write p msg

def flush (s : Session) : Except Fault Session := s.onPipe PipeCall.flush

def rollback (s : Session) : Except Fault Session := s.onPipe PipeCall.rollback

def cleanPipes (s : Session) : Except Fault Session := do
  let s ← s.rollback
  s.flush

/-- A new pipe, of which the session has one end. -/
def newLink (s : Session) : Link where
  out := .opened [] [] s.sndhwm s.rcvhwm

/-- A new pipe with the number `p`. -/
def newPipe (s : Session) (p : PipeId) : Session :=
  { s.setLink p s.newLink with
    pipe := some p
    router := { s.router with queue := s.router.queue.modify p fun _ => {} } }

def engineReady (s : Session) (p : PipeId) : Session :=
  if s.pipe.isNone && !s.terminating then s.newPipe p else s

def reconnect (s : Session) : Except Fault Session :=
  match s.pipe with
  | none => .ok s
  | some p =>
    if s.immediate then do
      let s ← s.call p (·.terminate false)
      return { s with pipe := none, terminatingPipes := insert p s.terminatingPipes }
    else .ok s

/-- What `engine_error` does for the reason. `terminate` asks the socket for termination. -/
def handleError (s : Session) : ErrorReason → Except Fault Session
  | .timeoutError | .connectionError => s.reconnect
  | .protocolError => if s.pending then s.onPipe (·.terminate false) else .ok s

def engineError (s : Session) (reason : ErrorReason) : Except Fault Session := do
  let s ← { s with engine := none }.cleanPipes
  let s ← s.handleError reason
  s.onPipe PipeUse.checkRead.method

/-- `process_term`. The session itself goes when it has no pipes any more. -/
def processTerm (s : Session) (linger : Int) : Except Fault Session :=
  if s.pipe = none ∧ s.terminatingPipes = ∅ then .ok { s with terminating := true }
  else do
    let s ← { s with pending := true }.onPipe (·.terminate (linger ≠ 0))
    if s.engine = none then s.onPipe PipeUse.checkRead.method else return s

/-- `_pending && !_pipe && _terminating_pipes.empty ()`. -/
def proceed (s : Session) : Session :=
  if s.pending ∧ s.pipe = none ∧ s.terminatingPipes = ∅ then
    { s with pending := false, terminating := true }
  else s

/-- `pipe_terminated`. -/
def pipeTerminated (s : Session) (p : PipeId) : Session :=
  if s.pipe = some p then { s with pipe := none }.proceed
  else { s with terminatingPipes := s.terminatingPipes.erase p }.proceed

/-! ### The engine -/

/-- The routing id that was pushed is the first of the pipe, or one that the socket skips. -/
def named (s : Session) (id : Blob) : Session :=
  match s.pipe with
  | none => s
  | some p =>
    match s.links p with
    | none => s
    | some l => s.setLink p { l with identity := l.identity.or (some id) }

/-- The end of `mechanism_ready`. -/
def settle (s : Session) : Except Fault Session := do
  let s ← s.flush
  return { s with engine := some .ready }

/-- The connect notification. -/
def notifyReady (s : Session) (id : Blob) : Except Fault Session :=
  if s.notifyConnect then do
    let (pushed, s) ← s.pushMsg .init
    if pushed then s.settle else return { s with engine := some (.stalled id) }
  else s.settle

/-- `mechanism_ready`, after `engine_ready`. -/
def mechanismReady (s : Session) (id : Blob) : Except Fault Session := do
  let (pushed, s) ← s.pushMsg (.peerRoutingId id)
  if pushed then (s.named id).notifyReady id
  else return { s with engine := some (.stalled id) }

/-- The disconnect notification, which is sent once the greeting has been received. -/
def notifyError (s : Session) : Except Fault Session :=
  if s.notifyDisconnect ∧ s.engine ≠ some .handshaking then do
    let s ← s.rollback
    let (_, s) ← s.pushMsg .init
    return s
  else .ok s

/-- `error` of the engine. -/
def error (s : Session) (reason : ErrorReason) : Except Fault Session := do
  let s ← s.notifyError
  s.engineError reason

/-! ### The socket -/

/-- The socket has identified the peer, unless the pipe is anonymous. -/
def setRouter (s : Session) (p : PipeId) (l : Link) (router : Router) : Session :=
  let entered := if p ∈ router.anonymousPipes then none else some (router.table.routingId p)
  { s.setLink p { l with bound := true, entered } with router }

/-- `attach_pipe` of the socket. -/
def attach (s : Session) (p : PipeId) (l : Link) (locallyInitiated : Bool) :
    Except Fault Session := do
  let router ← s.router.xattachPipe p locallyInitiated
  return s.setRouter p l router

/-- The socket is told that there is something to read. -/
def activateRead (s : Session) (p : PipeId) (l : Link) : Except Fault Session := do
  let router ← s.router.activateRead p
  if p ∈ s.router.anonymousPipes then return s.setRouter p l router else return { s with router }

/-- Something happens at the socket's end of a pipe. -/
def modify (s : Session) (p : PipeId) (f : Inlet → Inlet) : Session :=
  { s with router := { s.router with queue := s.router.queue.modify p f } }

end Session

end ServerLink

import ServerLink.Core.Own
import ServerLink.Lib.Run

/-!
# ServerLink.Core.Context

Sockets, listeners, sessions and connecters at work (`socket_base.cpp`, `session_base.cpp`,
`stream_listener_base.cpp`, `stream_connecter_base.cpp`, `ctx.cpp`). A step is a call of the
user, the handling of one command, or an event of the network or of a pipe: a connection is
accepted or made, an engine is ready or fails, a pipe has terminated.

`bind`, `connect` and `term_endpoint` process all commands first. In a run these are steps
before the call; for the same reason the command `term_endpoint` does nothing when it is handled,
and the call it leads to is a step of its own. Calls that return an error without an effect are
left out.
-/

namespace ServerLink

inductive CtxAction
  | createSocket (type : SocketType)
  | setsockopt (socket : ObjId) (option : OptionName) (value : Int)
  | bindTcp (socket : ObjId) (address : String)
  | bindInproc (socket : ObjId) (address : String)
  | connectTcp (socket : ObjId) (address : String)
  | connectInproc (socket : ObjId) (address : String)
  | termEndpoint (socket : ObjId) (endpoint : EndpointUri)
  | close (socket : ObjId)
  | deliver (object : ObjId) (i : Nat)
  | accept (listener : ObjId)
  | connected (connecter : ObjId)
  | engineReady (session : ObjId)
  | engineError (session : ObjId) (reason : ErrorReason)
  | pipeTerminated (object : ObjId) (pipe : PipeId)
  deriving Repr, DecidableEq

namespace Ctx

def setBody (s : Ctx) (o : ObjId) (body : Body) : Except Fault Ctx :=
  s.modify o fun x => { x with body }

/-- A new object. Its address is the next one. -/
def newObject (s : Ctx) (options : Options) (body : Body) : Ctx :=
  { s with objects := s.objects.alloc { own := { options }, body } }

/-- `pipepair`. The two ends get the next two numbers. -/
def pipepair (s : Ctx) : Ctx := { s with nextPipe := s.nextPipe + 2 }

/-! ### The names of a context -/

/-- `ctx_t::register_endpoint`. -/
def registerEndpoint (s : Ctx) (address : String) (socket : ObjId) : Ctx :=
  { s with endpoints := Function.update s.endpoints address (some socket) }

/-- `ctx_t::unregister_endpoints`. -/
def unregisterEndpoints (s : Ctx) (socket : ObjId) : Ctx :=
  { s with
    endpoints := fun address =>
      if s.endpoints address = some socket then none else s.endpoints address }

/-- `ctx_t::find_endpoint`. -/
def findEndpoint (s : Ctx) (address : String) : Option ObjId := s.endpoints address

/-! ### Sockets -/

/-- `socket_base_t::attach_pipe`. A pipe that comes during termination is terminated. -/
def attachPipe (s : Ctx) (o : ObjId) (pipe : PipeId) : Except Fault Ctx := do
  let x ← s.get o
  match x.body with
  | .socket b =>
    let s ← s.setBody o (.socket { b with pipes := b.pipes ++ [pipe] })
    if x.own.terminating then s.registerTermAcks o 1 else return s
  | _ => .error .objectCommand

/-- The `linger` of a new socket. The constructor of `xsub_t`, from which `sub_t` inherits, sets it
to 0. -/
def defaultLinger (s : Ctx) : SocketType → Int
  | .sub | .xsub => 0
  | _ => if s.blocky then -1 else 0

/-- `socket_base_t::create`. There is no socket of type DEALER. -/
def createSocket (s : Ctx) (type : SocketType) : Ctx :=
  if type = .dealer then s
  else s.newObject {} (.socket { options := { linger := s.defaultLinger type } })

/-- `socket_base_t::add_endpoint`. -/
def addEndpoint (s : Ctx) (o : ObjId) (r : EndpointRecord) : Except Fault Ctx := do
  let s ← (match r.child with
    | none => .ok s
    | some child => s.launchChild o child)
  s.modify o fun x =>
    match x.body with
    | .socket b => { x with body := .socket { b with endpoints := b.endpoints ++ [r] } }
    | _ => x

/-- `socket_base_t::process_term`. -/
def socketProcessTerm (s : Ctx) (o : ObjId) (linger : Int) : Except Fault Ctx := do
  let x ← s.get o
  let s := s.unregisterEndpoints o
  let s ← s.registerTermAcks o x.body.pipes.length
  s.ownProcessTerm o linger

def bindTcp (s : Ctx) (o : ObjId) (b : SocketBase) (address : String) : Except Fault Ctx :=
  (s.newObject b.options (.listener o)).addEndpoint o ⟨⟨.tcp, address⟩, some s.objects.next, none⟩

/-- `connect_pending` finds nothing, since no connection can wait for the address. -/
def bindInproc (s : Ctx) (o : ObjId) (address : String) : Except Fault Ctx :=
  (s.registerEndpoint address o).addEndpoint o ⟨⟨.inproc, address⟩, none, none⟩

/-- The session of a connection that is made by this side. -/
def activeSession (o : ObjId) (address : String) (pipe : Option PipeId) : SessionBase :=
  { active := true, socket := o, endpoint := some ⟨.tcp, address⟩, pipe }

/-- With `immediate` the pipe is made when the connection is. -/
def connectTcp (s : Ctx) (o : ObjId) (b : SocketBase) (address : String) : Except Fault Ctx := do
  if b.options.immediate = 1 then
    (s.newObject b.options (.session (activeSession o address none))).addEndpoint o
      ⟨⟨.tcp, address⟩, some s.objects.next, none⟩
  else
    let pipe := s.nextPipe
    let session := s.objects.next
    let s := s.pipepair.newObject b.options (.session (activeSession o address (some (pipe + 1))))
    let s ← s.attachPipe o pipe
    s.addEndpoint o ⟨⟨.tcp, address⟩, some session, some pipe⟩

/-- While nobody has bound the address, `pipepair` is called with a null pointer for the parent of
the other end. -/
def connectInproc (s : Ctx) (o : ObjId) (address : String) : Except Fault Ctx := do
  let pipe := s.nextPipe
  let s := s.pipepair
  match s.findEndpoint address with
  | none => .error .objectParent
  | some peerSocket =>
    let s ← s.sendBind peerSocket (pipe + 1) false
    let s ← s.attachPipe o pipe
    s.addEndpoint o ⟨⟨.inproc, address⟩, none, some pipe⟩

/-- `term_endpoint`. It starts the termination of the endpoint's pipes too, whose end is an event of
its own. -/
def termEndpoint (s : Ctx) (o : ObjId) (b : SocketBase) (endpoint : EndpointUri) :
    Except Fault Ctx := do
  let s ← (b.endpoints.filter (·.endpoint = endpoint)).foldlM
    (fun s r => match r.child with
      | none => .ok s
      | some child => s.processTermReq o child) s
  s.modify o fun x =>
    match x.body with
    | .socket b =>
      { x with body := .socket { b with endpoints := b.endpoints.filter (·.endpoint ≠ endpoint) } }
    | _ => x

/-! ### Sessions -/

/-- `session_base_t::process_term`. A session with pipes waits for them. -/
def sessionProcessTerm (s : Ctx) (o : ObjId) (b : SessionBase) : Except Fault Ctx :=
  if b.pending then .error .sessionPending
  else if b.pipe = none ∧ b.terminatingPipes = [] then s.ownProcessTerm o 0
  else s.setBody o (.session { b with pending := true })

def startConnecting (s : Ctx) (o : ObjId) (options : Options) : Except Fault Ctx :=
  (s.newObject options (.connecter o false)).launchChild o s.objects.next

/-- `own_t::terminate` of an object that has an owner. -/
def terminate (s : Ctx) (o : ObjId) : Except Fault Ctx := do
  let x ← s.get o
  if x.own.terminating then return s
  else
    match x.own.owner with
    | none => return s
    | some owner => s.sendCommand owner (.termReq o)

/-- With `immediate` the pipe is given up until the connection is made again. -/
def detachPipe (options : Options) (b : SessionBase) : SessionBase :=
  match b.pipe with
  | some pipe =>
    if options.immediate = 1 then
      { b with pipe := none, terminatingPipes := b.terminatingPipes ++ [pipe] }
    else b
  | none => b

/-- `session_base_t::reconnect`. -/
def reconnect (s : Ctx) (o : ObjId) (x : Obj) (b : SessionBase) : Except Fault Ctx := do
  let s ← s.setBody o (.session (detachPipe x.own.options b))
  if 0 < x.own.options.reconnectIvl then s.startConnecting o x.own.options
  else
    match b.endpoint with
    | none => return s
    | some endpoint => s.sendCommand b.socket (.termEndpoint endpoint)

def engineError (s : Ctx) (o : ObjId) (x : Obj) (b : SessionBase) (reason : ErrorReason) :
    Except Fault Ctx := do
  let b := { b with engine := false }
  let s ← s.setBody o (.session b)
  if reason ≠ .protocolError ∧ b.active then s.reconnect o x b
  else if b.pending then return s
  else s.terminate o

/-- `engine_ready`: the pipe is made if there is none yet. -/
def engineReady (s : Ctx) (o : ObjId) (x : Obj) (b : SessionBase) : Except Fault Ctx := do
  if b.pipe = none ∧ x.own.terminating = false then
    let pipe := s.nextPipe
    let s ← s.pipepair.setBody o (.session { b with pipe := some pipe })
    s.sendBind b.socket (pipe + 1) true
  else return s

/-- A session drops its reference to a pipe. -/
def dropPipe (b : SessionBase) (pipe : PipeId) : Except Fault SessionBase :=
  if b.pipe = some pipe then .ok { b with pipe := none }
  else if pipe ∈ b.terminatingPipes then
    .ok { b with terminatingPipes := b.terminatingPipes.erase pipe }
  else .error .sessionPipe

/-- `pipe_terminated` of a session. -/
def sessionPipeTerminated (s : Ctx) (o : ObjId) (b : SessionBase) (pipe : PipeId) :
    Except Fault Ctx := do
  let b ← dropPipe b pipe
  if b.pending ∧ b.pipe = none ∧ b.terminatingPipes = [] then
    let s ← s.setBody o (.session { b with pending := false })
    s.ownProcessTerm o 0
  else s.setBody o (.session b)

/-- `pipe_terminated` of a socket. -/
def socketPipeTerminated (s : Ctx) (o : ObjId) (x : Obj) (b : SocketBase) (pipe : PipeId) :
    Except Fault Ctx := do
  let s ← s.setBody o (.socket { b with pipes := b.pipes.erase pipe })
  if x.own.terminating then s.unregisterTermAck o else return s

/-! ### Listeners and connecters -/

/-- `stream_listener_base_t::create_engine`. -/
def accept (s : Ctx) (o : ObjId) (x : Obj) (socket : ObjId) : Except Fault Ctx := do
  let session := s.objects.next
  let s := s.newObject x.own.options (.session { active := false, socket })
  let s ← s.incSeqnum session
  let s ← s.launchChild o session
  s.sendAttach session false

/-- `stream_connecter_base_t::create_engine`. -/
def connected (s : Ctx) (o session : ObjId) : Except Fault Ctx := do
  let s ← s.setBody o (.connecter session true)
  let s ← s.sendAttach session true
  s.terminate o

/-! ### Commands -/

/-- The handlers of the commands, except for the counters. -/
def processCommand (s : Ctx) (o : ObjId) (x : Obj) : OwnCommand → Except Fault Ctx
  | .plug =>
    match x.body with
    | .session b => if b.active then s.startConnecting o x.own.options else .ok s
    | .listener _ | .connecter _ _ => .ok s
    | .socket _ => .error .objectCommand
  | .own object => s.processOwn o object
  | .attach =>
    match x.body with
    | .session b =>
      if b.engine then .error .sessionEngine
      else s.setBody o (.session { b with engine := true })
    | _ => .error .objectCommand
  | .bind pipe => s.attachPipe o pipe
  | .termReq object => s.processTermReq o object
  | .term linger =>
    match x.body with
    | .session b => s.sessionProcessTerm o b
    | .socket _ => s.socketProcessTerm o linger
    | _ => s.ownProcessTerm o linger
  | .termAck object => s.processTermAck o object
  | .termEndpoint _ =>
    match x.body with
    | .socket _ => .ok s
    | _ => .error .objectCommand

/-- An object takes a command out of its inbox and handles it. -/
def deliver (s : Ctx) (o : ObjId) (i : Nat) : Except Fault Ctx := do
  let x ← s.get o
  match x.inbox[i]? with
  | none => return s
  | some cmd =>
    let s := s.set o { x with inbox := x.inbox.eraseIdx i }
    let s ← s.processCommand o x cmd
    if cmd.counted then s.processSeqnum o else return s

/-! ### Runs -/

/-- A call of the user, who does not use a socket that was closed. -/
def user (s : Ctx) (o : ObjId) (f : Obj → SocketBase → Except Fault Ctx) : Except Fault Ctx :=
  match s.objects.cell o with
  | some x =>
    match x.body with
    | .socket b => if x.own.terminating then .ok s else f x b
    | _ => .ok s
  | none => .ok s

/-- An event of a session, a listener or a connecter. -/
def event (s : Ctx) (o : ObjId) (f : Obj → Body → Except Fault Ctx) : Except Fault Ctx :=
  match s.objects.cell o with
  | some x => f x x.body
  | none => .ok s

/-- Events that cannot happen to an object change nothing. -/
def step (s : Ctx) : CtxAction → Except Fault Ctx
  | .createSocket type => .ok (s.createSocket type)
  | .setsockopt o option value => s.user o fun _ b =>
    match b.options.setsockopt option value with
    | none => .ok s
    | some options => s.setBody o (.socket { b with options })
  | .bindTcp o address => s.user o fun _ b => s.bindTcp o b address
  | .bindInproc o address => s.user o fun _ _ => s.bindInproc o address
  | .connectTcp o address => s.user o fun _ b => s.connectTcp o b address
  | .connectInproc o address => s.user o fun _ _ => s.connectInproc o address
  | .termEndpoint o endpoint => s.event o fun _ body =>
    match body with
    | .socket b => s.termEndpoint o b endpoint
    | _ => .ok s
  | .close o => s.user o fun x _ => s.socketProcessTerm o x.own.options.linger
  | .deliver o i => s.event o fun _ _ => s.deliver o i
  | .accept o => s.event o fun x body =>
    match body with
    | .listener socket => s.accept o x socket
    | _ => .ok s
  | .connected o => s.event o fun _ body =>
    match body with
    | .connecter session done => if done then .ok s else s.connected o session
    | _ => .ok s
  | .engineReady o => s.event o fun x body =>
    match body with
    | .session b => if b.engine then s.engineReady o x b else .ok s
    | _ => .ok s
  | .engineError o reason => s.event o fun x body =>
    match body with
    | .session b => if b.engine then s.engineError o x b reason else .ok s
    | _ => .ok s
  | .pipeTerminated o pipe => s.event o fun x body =>
    match body with
    | .socket b => if pipe ∈ b.pipes then s.socketPipeTerminated o x b pipe else .ok s
    | .session b => s.sessionPipeTerminated o b pipe
    | _ => .ok s

end Ctx

end ServerLink

import ServerLink.Lib.Arena
import ServerLink.Pipe.MTrie
import ServerLink.Util.Constants

/-!
# ServerLink.Core.Own

The objects of a context that own each other (`own.cpp`, `object.cpp`): sockets, listeners,
sessions and connecters. Each has an inbox of commands. A command that must not be lost when its
receiver shuts down is counted by the sender (`inc_seqnum`) and by the receiver
(`process_seqnum`); an object is deleted when it is terminating, has processed every counted
command, and everything it waits for has acknowledged (`check_term_acks`).

A method of the source becomes a function on the context, which holds the objects. What a method
does to pipes and engines is left to their own models: here pipes are numbers, and an engine is
there or not.

An inbox is a list because a mailbox is, but any of its commands can come next: the threads
interleave between the sends of one method, so that the order of commands from different methods
is open.
-/

namespace ServerLink

/-- The address of an object. -/
abbrev ObjId := Nat

inductive Protocol
  | tcp
  | inproc
  deriving Repr, DecidableEq

/-- An endpoint URI. -/
structure EndpointUri where
  protocol : Protocol
  address : String
  deriving Repr, DecidableEq

/-- `options_t`, as far as it is read here. -/
structure Options where
  linger : Int := -1
  immediate : Int := 0
  reconnectIvl : Int := 100
  deriving Repr, DecidableEq

inductive OptionName
  | linger
  | immediate
  | reconnectIvl
  deriving Repr, DecidableEq

/-- `options_t::setsockopt`: `none` if the value is refused. -/
def Options.setsockopt (s : Options) : OptionName → Int → Option Options
  | .linger, value => if -1 ≤ value then some { s with linger := value } else none
  | .immediate, value =>
    if value = 0 ∨ value = 1 then some { s with immediate := value } else none
  | .reconnectIvl, value => if -1 ≤ value then some { s with reconnectIvl := value } else none

/-- The commands objects send each other. (The source does not say who acknowledges.) -/
inductive OwnCommand
  | plug
  | own (object : ObjId)
  | attach
  | bind (pipe : PipeId)
  | termReq (object : ObjId)
  | term (linger : Int)
  | termAck (object : ObjId)
  | termEndpoint (endpoint : EndpointUri)
  deriving Repr, DecidableEq

/-- `process_command` calls `process_seqnum` for these commands. -/
def OwnCommand.counted : OwnCommand → Bool
  | .plug | .own _ | .attach | .bind _ => true
  | _ => false

/-- `own_t`. `unacked` is not in the source: the children that were sent `term` and have not
acknowledged it. -/
structure Own where
  options : Options := {}
  terminating : Bool := false
  sentSeqnum : Nat := 0
  processedSeqnum : Nat := 0
  owner : Option ObjId := none
  owned : List ObjId := []
  termAcks : Int := 0
  unacked : List ObjId := []

/-- `inc_seqnum`. The counter is an `atomic_counter_t`. -/
def Own.incSeqnum (own : Own) : Own := { own with sentSeqnum := (own.sentSeqnum + 1) % 2 ^ 32 }

/-- An element of the endpoint map of a socket. -/
structure EndpointRecord where
  endpoint : EndpointUri
  child : Option ObjId
  pipe : Option PipeId

/-- `socket_base_t`. Its options are not those of the `own_t` it inherits from. -/
structure SocketBase where
  options : Options := {}
  pipes : List PipeId := []
  endpoints : List EndpointRecord := []

/-- `session_base_t`. -/
structure SessionBase where
  active : Bool
  socket : ObjId
  endpoint : Option EndpointUri := none
  pipe : Option PipeId := none
  terminatingPipes : List PipeId := []
  pending : Bool := false
  engine : Bool := false

/-- What an object is besides an `own_t`. A connecter is done once it has made an engine. -/
inductive Body
  | socket (s : SocketBase)
  | listener (socket : ObjId)
  | session (s : SessionBase)
  | connecter (session : ObjId) (done : Bool)

/-- The pipes a terminating object waits for. -/
def Body.pipes : Body → List PipeId
  | .socket s => s.pipes
  | _ => []

/-- The object has been told to terminate, and delays it. -/
def Body.pending : Body → Bool
  | .session s => s.pending
  | _ => false

structure Obj where
  own : Own := {}
  body : Body
  inbox : List OwnCommand := []

/-- `ctx_t`, and all its objects. -/
structure Ctx where
  objects : Arena Obj := {}
  blocky : Bool := true
  endpoints : String → Option ObjId := fun _ => none
  nextPipe : PipeId := 0

namespace Ctx

/-- Use of an object that was deleted is a fault. -/
def get (s : Ctx) (o : ObjId) : Except Fault Obj :=
  match s.objects.cell o with
  | none => .error .ownDeleted
  | some x => .ok x

def set (s : Ctx) (o : ObjId) (x : Obj) : Ctx := { s with objects := s.objects.set o x }

def modify (s : Ctx) (o : ObjId) (f : Obj → Obj) : Except Fault Ctx := do
  let x ← s.get o
  return s.set o (f x)

def modifyOwn (s : Ctx) (o : ObjId) (f : Own → Own) : Except Fault Ctx :=
  s.modify o fun x => { x with own := f x.own }

/-! ### Sending commands -/

def incSeqnum (s : Ctx) (o : ObjId) : Except Fault Ctx := s.modifyOwn o Own.incSeqnum

def sendCommand (s : Ctx) (destination : ObjId) (cmd : OwnCommand) : Except Fault Ctx :=
  s.modify destination fun x => { x with inbox := x.inbox ++ [cmd] }

/-- The methods `send_plug`, `send_own`, `send_attach` and `send_bind`. -/
def sendCounted (s : Ctx) (destination : ObjId) (cmd : OwnCommand) (inc : Bool) :
    Except Fault Ctx := do
  let s ← (if inc then s.incSeqnum destination else .ok s)
  s.sendCommand destination cmd

def sendPlug (s : Ctx) (destination : ObjId) : Except Fault Ctx :=
  s.sendCounted destination .plug true

def sendOwn (s : Ctx) (destination object : ObjId) : Except Fault Ctx :=
  s.sendCounted destination (.own object) true

def sendAttach (s : Ctx) (destination : ObjId) (inc : Bool) : Except Fault Ctx :=
  s.sendCounted destination .attach inc

def sendBind (s : Ctx) (destination : ObjId) (pipe : PipeId) (inc : Bool) : Except Fault Ctx :=
  s.sendCounted destination (.bind pipe) inc

/-- `send_term`, called by `o`. -/
def sendTerm (s : Ctx) (o destination : ObjId) (linger : Int) : Except Fault Ctx := do
  let s ← s.modifyOwn o fun own => { own with unacked := own.unacked ++ [destination] }
  s.sendCommand destination (.term linger)

/-- `send_term_ack`. The root has nobody to confirm its termination to. -/
def sendTermAck (s : Ctx) (owner : Option ObjId) (o : ObjId) : Except Fault Ctx :=
  match owner with
  | none => .ok s
  | some owner => s.sendCommand owner (.termAck o)

/-! ### `own_t` -/

def setOwner (s : Ctx) (o owner : ObjId) : Except Fault Ctx := do
  let x ← s.get o
  if x.own.owner.isSome then .error .ownOwner
  else s.modifyOwn o fun own => { own with owner := some owner }

def launchChild (s : Ctx) (o object : ObjId) : Except Fault Ctx := do
  let s ← s.setOwner object o
  let s ← s.sendPlug object
  s.sendOwn o object

def registerTermAcks (s : Ctx) (o : ObjId) (count : Nat) : Except Fault Ctx :=
  s.modifyOwn o fun own => { own with termAcks := own.termAcks + count }

/-- What `check_term_acks` checks. -/
def Passes (own : Own) : Prop :=
  own.terminating = true ∧ own.processedSeqnum = own.sentSeqnum ∧ own.termAcks = 0

instance (own : Own) : Decidable (Passes own) := inferInstanceAs (Decidable (_ ∧ _ ∧ _))

def checkTermAcks (s : Ctx) (o : ObjId) : Except Fault Ctx := do
  let x ← s.get o
  if Passes x.own then
    if x.own.owned ≠ [] then .error .ownOwned
    else
      let s ← s.sendTermAck x.own.owner o
      -- `process_destroy`
      return { s with objects := s.objects.free o }
  else return s

def processSeqnum (s : Ctx) (o : ObjId) : Except Fault Ctx := do
  let s ← s.modifyOwn o fun own =>
    { own with processedSeqnum := (own.processedSeqnum + 1) % 2 ^ 64 }
  s.checkTermAcks o

def unregisterTermAck (s : Ctx) (o : ObjId) : Except Fault Ctx := do
  let x ← s.get o
  if x.own.termAcks ≤ 0 then .error .ownTermAcks
  else
    let s ← s.modifyOwn o fun own => { own with termAcks := own.termAcks - 1 }
    s.checkTermAcks o

/-- The value of linger is the one of the `own_t`, not that of a derived class. -/
def processTermReq (s : Ctx) (o object : ObjId) : Except Fault Ctx := do
  let x ← s.get o
  if x.own.terminating then return s
  else if object ∉ x.own.owned then return s
  else
    let s ← s.modifyOwn o fun own => { own with owned := own.owned.erase object }
    let s ← s.registerTermAcks o 1
    s.sendTerm o object x.own.options.linger

def processOwn (s : Ctx) (o object : ObjId) : Except Fault Ctx := do
  let x ← s.get o
  if x.own.terminating then
    let s ← s.registerTermAcks o 1
    s.sendTerm o object 0
  else s.modifyOwn o fun own => { own with owned := own.owned.insert object }

def processTermAck (s : Ctx) (o object : ObjId) : Except Fault Ctx := do
  let s ← s.modifyOwn o fun own => { own with unacked := own.unacked.erase object }
  s.unregisterTermAck o

/-- `own_t::process_term`. -/
def ownProcessTerm (s : Ctx) (o : ObjId) (linger : Int) : Except Fault Ctx := do
  let x ← s.get o
  if x.own.terminating then .error .ownTerminating
  else
    let s ← x.own.owned.foldlM (fun s object => s.sendTerm o object linger) s
    let s ← s.registerTermAcks o x.own.owned.length
    let s ← s.modifyOwn o fun own => { own with owned := [], terminating := true }
    s.checkTermAcks o

end Ctx

end ServerLink

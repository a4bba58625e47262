import ServerLink.Core.Router
import ServerLink.Pipe.Outgoing

/-!
# ServerLink.Core.RouterSend

The sending side of `router_t` (`router.cpp`, not for raw sockets): `xsend`, the routing table it
looks pipes up in, and what happens to that table and to the pipes between two frames. Pipes are
the pipe ends of `pipe.cpp` with their two queues; a pipe that was destroyed is not used again
and its number is not given out again.

The receiving side matters here in two ways: it reads from the pipes, and at the end of a message
it terminates the pipe the message came from if another pipe has taken over its routing id. Its
own state is that of `ServerLink.Core.Router`; the events below leave open what it receives.
-/

namespace ServerLink

/-- The part of `router_t` that sending depends on. -/
structure RouterSend where
  /-- The pipes of the socket are those below `next`. -/
  pipes : PipeId → PipeCall
  next : PipeId
  anonymousPipes : Finset PipeId
  table : RoutingTable
  currentOut : Option PipeId
  moreOut : Bool
  currentIn : Option PipeId
  terminateCurrentIn : Bool
  mandatory : Bool
  probeRouter : Bool
  handover : Bool

/-- A message of one part that the library writes to a new pipe. -/
structure Greeting extends OwnerMsg where
  whole : msg.more = false

namespace PipeCall

/-- The queue the pipe reads from. -/
def inQueue : QueueId := 0

/-- The queue the pipe writes to. -/
def outQueue : QueueId := 1

/-- A new pipe: the peer has written to the one queue, the library to the other. -/
def opened (inbound : List Msg) (outbound : List Greeting) (inhwm outhwm : Int) : PipeCall where
  pipe := Pipe.new inQueue outQueue inhwm outhwm
  heap := (({} : Arena Queue).alloc { flushed := inbound }).alloc
    { flushed := outbound.map fun m => m.msg }

/-- The peer writes. -/
def publish (c : PipeCall) (ms : List Msg) : PipeCall :=
  match c.heap.cell c.pipe.inPipe with
  | none => c
  | some queue => c.setQueue c.pipe.inPipe { queue with flushed := queue.flushed ++ ms }

/-- All that was ever flushed. -/
def flushedOut (c : PipeCall) : List Msg :=
  match c.heap.cell outQueue with
  | none => []
  | some queue => queue.flushed

end PipeCall

namespace RoutingTable

/-- `out_pipe->active = false`. -/
def deactivate (t : RoutingTable) (id : Blob) : RoutingTable :=
  let entry := (t.outPipes id).map fun o => { o with active := false }
  { t with outPipes := Function.update t.outPipes id entry }

/-- `xwrite_activated`. The entry of a pipe is the one under its routing id. -/
def xwriteActivated (t : RoutingTable) (pipe : PipeId) : Except Fault RoutingTable :=
  match t.outPipes (t.routingId pipe) with
  | none => .error .routerWriteActivated
  | some o =>
    if o.pipe = pipe ∧ o.active = false then
      .ok { t with outPipes := Function.update t.outPipes (t.routingId pipe) (some ⟨pipe, true⟩) }
    else .error .routerWriteActivated

end RoutingTable

namespace RouterSend

def new (nextIntegralRoutingId : BitVec 32) : RouterSend where
  pipes := fun _ => .opened [] [] 0 0
  next := 0
  anonymousPipes := ∅
  table := {
    outPipes := fun _ => none
    routingId := fun _ => []
    nextIntegralRoutingId
    connectRoutingId := [] }
  currentOut := none
  moreOut := false
  currentIn := none
  terminateCurrentIn := false
  mandatory := false
  probeRouter := false
  handover := false

def setPipe (s : RouterSend) (pipe : PipeId) (c : PipeCall) : RouterSend :=
  { s with pipes := Function.update s.pipes pipe c }

/-- Follow a pointer to a pipe. -/
def pipe (s : RouterSend) (p : PipeId) : Except Fault PipeCall :=
  if (s.pipes p).pipe.deleted then .error .pipeDestroyed else .ok (s.pipes p)

/-- Call a method of a pipe. -/
def call (s : RouterSend) (p : PipeId) (method : PipeCall → Except Fault PipeCall) :
    Except Fault RouterSend := do
  let c ← s.pipe p
  let c ← method c
  return s.setPipe p c

/-! ### Sending -/

/-- `xsend` of the first frame, which has the routing id of a peer. -/
def address (s : RouterSend) (id : Blob) : Except Fault (Option Errno × RouterSend) :=
  match s.table.outPipes id with
  | some outPipe => do
    let c ← s.pipe outPipe.pipe
    match c.checkWrite with
    | (true, c) =>
      return (none,
        { s.setPipe outPipe.pipe c with moreOut := true, currentOut := some outPipe.pipe })
    | (false, c) =>
      let s := { s.setPipe outPipe.pipe c with table := s.table.deactivate id }
      if s.mandatory then return (some (if c.pipe.checkHwm then .ehostunreach else .eagain), s)
      else return (none, { s with moreOut := true })
  | none =>
    if s.mandatory then .ok (some .ehostunreach, s) else .ok (none, { s with moreOut := true })

/-- Write a frame to the pipe. The pipe that refuses it is gone, since it was not full when the
message began. -/
def sendTo (s : RouterSend) (p : PipeId) (msg : Msg) : Except Fault RouterSend := do
  let c ← s.pipe p
  match ← c.write msg with
  | (false, c) =>
    PipeCall.closeMsgs [msg]
    let c ← c.rollback
    return { s.setPipe p c with currentOut := none }
  | (true, c) =>
    if msg.more then return s.setPipe p c
    else
      let c ← c.flush
      return { s.setPipe p c with currentOut := none }

/-- `xsend` of another frame. -/
def sendPart (s : RouterSend) (msg : Msg) : Except Fault RouterSend :=
  let s' := { s with moreOut := msg.more }
  match s.currentOut with
  | none => do
    PipeCall.closeMsgs [msg]
    return s'
  | some p => s'.sendTo p msg

/-- `xsend`, with the error it returns. A first frame that is not followed by another one is
ignored. -/
def xsend (s : RouterSend) (msg : Msg) : Except Fault (Option Errno × RouterSend) :=
  if s.moreOut then (s.sendPart msg).map fun s => (none, s)
  else if s.currentOut.isSome then .error .routerCurrentOut
  else if msg.more then do
    let r ← s.address msg.data
    if r.1.isNone then PipeCall.closeMsgs [msg]
    return r
  else do
    PipeCall.closeMsgs [msg]
    return (none, s)

/-! ### Peers -/

/-- The peer at the pipe is known by the id. -/
def identified (s : RouterSend) (p : PipeId) (id : Blob) : Except Fault (Bool × RouterSend) := do
  let table ← s.table.enter p id
  return (true, { s with table })

/-- The peer at the pipe gets an automatic id. -/
def identifyIntegral (s : RouterSend) (p : PipeId) : Except Fault (Bool × RouterSend) :=
  { s with table := s.table.integralId.2 }.identified p s.table.integralId.1

/-- Another pipe takes over the id of `old`. -/
def handOver (s : RouterSend) (old : PipeId) : Except Fault RouterSend := do
  let table ← (s.table.integralId.2.eraseOutPipe old).enter old s.table.integralId.1
  let s := { s with table }
  if s.currentIn = some old then return { s with terminateCurrentIn := true }
  else s.call old (·.terminate true)

/-- `identify_peer` when the peer has sent its id. -/
def identifyBy (s : RouterSend) (p : PipeId) (id : Blob) : Except Fault (Bool × RouterSend) :=
  match s.table.outPipes id with
  | none => s.identified p id
  | some existing =>
    if !s.handover then .ok (false, s)
    else do
      let s ← s.handOver existing.pipe
      s.identified p id

/-- `identify_peer`, with its result. -/
def identifyPeer (s : RouterSend) (p : PipeId) (locallyInitiated : Bool) :
    Except Fault (Bool × RouterSend) :=
  if locallyInitiated && s.table.connectRoutingId ≠ [] then
    let id := s.table.connectRoutingId
    if (s.table.outPipes id).isSome then .error .routerConnectId
    else { s with table := { s.table with connectRoutingId := [] } }.identified p id
  else do
    let (msg, c) ← (s.pipes p).read
    let s := s.setPipe p c
    match msg with
    | none => return (false, s)
    | some msg => if msg.size = 0 then s.identifyIntegral p else s.identifyBy p msg.data

/-- The probe that `xattach_pipe` sends if the option is set. It does not matter whether the pipe
takes it. -/
def probe (s : RouterSend) (c : PipeCall) : Except Fault PipeCall :=
  if s.probeRouter then do
    let (_, c) ← c.write .init
    c.flush
  else .ok c

def xattachPipe (s : RouterSend) (p : PipeId) (locallyInitiated : Bool) :
    Except Fault RouterSend := do
  let c ← s.probe (s.pipes p)
  let (ok, s) ← (s.setPipe p c).identifyPeer p locallyInitiated
  return if ok then s else { s with anonymousPipes := insert p s.anonymousPipes }

/-- `process_activate_read` of a pipe and `xread_activated`. -/
def activateRead (s : RouterSend) (p : PipeId) : Except Fault RouterSend :=
  let c := s.pipes p
  let s := s.setPipe p c.processActivateRead
  if !c.pipe.inActive && c.pipe.reading && p ∈ s.anonymousPipes then do
    let (ok, s) ← s.identifyPeer p false
    return if ok then { s with anonymousPipes := s.anonymousPipes.erase p } else s
  else .ok s

/-- `process_activate_write` of a pipe and `xwrite_activated`. -/
def activateWrite (s : RouterSend) (p : PipeId) (msgsRead : Int) : Except Fault RouterSend :=
  let c := s.pipes p
  let s := s.setPipe p (c.processActivateWrite msgsRead)
  if !c.pipe.outActive && c.pipe.state == .active then do
    let table ← s.table.xwriteActivated p
    return { s with table }
  else .ok s

def xpipeTerminated (s : RouterSend) (p : PipeId) : Except Fault RouterSend :=
  if p ∈ s.anonymousPipes then .ok { s with anonymousPipes := s.anonymousPipes.erase p }
  else do
    let c ← (s.pipes p).rollback
    return { s.setPipe p c with
      table := s.table.eraseOutPipe p
      currentOut := if s.currentOut = some p then none else s.currentOut }

/-- The end of a message that was received. -/
def recvEnd (s : RouterSend) : Except Fault RouterSend :=
  if s.terminateCurrentIn then
    match s.currentIn with
    | none => .error .pipeDestroyed
    | some p => do
      let s ← s.call p (·.terminate true)
      return { s with currentIn := none, terminateCurrentIn := false }
  else .ok { s with currentIn := none }

end RouterSend

end ServerLink

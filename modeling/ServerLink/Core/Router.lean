import ServerLink.Pipe.Contiguity
import ServerLink.Protocol.Wire

/-!
# ServerLink.Core.Router

`router_t` (`router.cpp`) and the routing table of `routing_socket_base_t`: how peers are
identified, and how messages are received. The sending side is not part of this module,
nor is the monitoring code, which the build leaves out by default.

The table is a map from routing ids. A pipe has at most one entry, so that erasing the
entry of a pipe is erasing every entry of it.
-/

namespace ServerLink

/-- `blob_t`: a routing id. -/
abbrev Blob := List UInt8

/-- `out_pipe_t`. -/
structure OutPipe where
  pipe : PipeId
  active : Bool
  deriving Repr, DecidableEq

/-- The table of the peers: the part of `routing_socket_base_t` and `router_t` that gives
out routing ids. -/
structure RoutingTable where
  outPipes : Blob → Option OutPipe
  /-- `_router_socket_routing_id` of the pipes. -/
  routingId : PipeId → Blob
  nextIntegralRoutingId : BitVec 32
  connectRoutingId : Blob

/-- `router_t`. -/
structure Router where
  queue : FairQueue
  anonymousPipes : Finset PipeId
  table : RoutingTable
  prefetched : Bool
  routingIdSent : Bool
  prefetchedId : Msg
  prefetchedMsg : Msg
  currentIn : Option PipeId
  terminateCurrentIn : Bool
  moreIn : Bool
  handover : Bool
  /-- `options.raw_socket`. -/
  rawSocket : Bool

namespace FairQueue

/-- The loop of `xrecv` and `xhas_in` that passes over routing ids. Every round takes a
part. -/
def recvUser : Nat → FairQueue → Except Fault (Option (PipeId × Msg) × FairQueue)
  | 0, b => .ok (none, b)
  | fuel + 1, b =>
    match b.recvpipe with
    | .error e => .error e
    | .ok (none, b') => .ok (none, b')
    | .ok (some (pipe, m), b') =>
      if m.isRoutingId then recvUser fuel b' else .ok (some (pipe, m), b')

end FairQueue

/-! ### The routing table -/

namespace RoutingTable

/-- An automatic routing id. -/
def integralId (t : RoutingTable) : Blob × RoutingTable :=
  (0 :: putUint32 t.nextIntegralRoutingId.toNat,
    { t with nextIntegralRoutingId := t.nextIntegralRoutingId + 1 })

/-- `add_out_pipe`. -/
def addOutPipe (t : RoutingTable) (id : Blob) (pipe : PipeId) : Except Fault RoutingTable :=
  match t.outPipes id with
  | some _ => .error .routerOutPipe
  | none => .ok { t with outPipes := Function.update t.outPipes id (some ⟨pipe, true⟩) }

/-- `erase_out_pipe`. -/
def eraseOutPipe (t : RoutingTable) (pipe : PipeId) : RoutingTable :=
  { t with outPipes := fun id => (t.outPipes id).filter fun o => o.pipe ≠ pipe }

/-- The pipe gets the id and an entry in the table. -/
def enter (t : RoutingTable) (pipe : PipeId) (id : Blob) : Except Fault RoutingTable :=
  { t with routingId := Function.update t.routingId pipe id }.addOutPipe id pipe

end RoutingTable

namespace Router

/-- A new socket; the automatic ids start at a random number. -/
def new (nextIntegralRoutingId : BitVec 32) : Router where
  queue := .empty
  anonymousPipes := ∅
  table := {
    outPipes := fun _ => none
    routingId := fun _ => []
    nextIntegralRoutingId
    connectRoutingId := [] }
  prefetched := false
  routingIdSent := false
  prefetchedId := .init
  prefetchedMsg := .init
  currentIn := none
  terminateCurrentIn := false
  moreIn := false
  handover := false
  rawSocket := false

/-- The pipe has not been destroyed. -/
def attached (s : Router) (pipe : PipeId) : Bool :=
  pipe ∈ s.queue.fq.pipes.items || pipe ∈ s.anonymousPipes

/-- The peer at the pipe is known by the id. -/
def identified (s : Router) (pipe : PipeId) (id : Blob) : Except Fault (Bool × Router) :=
  match s.table.enter pipe id with
  | .error e => .error e
  | .ok table => .ok (true, { s with table })

/-- The peer at the pipe gets an automatic id. -/
def identifyIntegral (s : Router) (pipe : PipeId) : Except Fault (Bool × Router) :=
  { s with table := s.table.integralId.2 }.identified pipe s.table.integralId.1

/-- Another pipe takes over the id of `old`: `old` goes on under an automatic id until it
is terminated, now or at the end of the message that is being received from it. -/
def handOver (s : Router) (old : PipeId) : Except Fault Router :=
  match (s.table.integralId.2.eraseOutPipe old).enter old s.table.integralId.1 with
  | .error e => .error e
  | .ok table =>
    if s.currentIn = some old then .ok { s with table, terminateCurrentIn := true }
    else .ok { s with table, queue := s.queue.modify old (·.terminate true) }

/-- `identify_peer` when the peer has sent its id. -/
def identifyBy (s : Router) (pipe : PipeId) (id : Blob) : Except Fault (Bool × Router) :=
  match s.table.outPipes id with
  | none => s.identified pipe id
  | some existing =>
    if !s.handover then .ok (false, s)
    else
      match s.handOver existing.pipe with
      | .error e => .error e
      | .ok s => s.identified pipe id

/-- `identify_peer`, with its result. -/
def identifyPeer (s : Router) (pipe : PipeId) (locallyInitiated : Bool) :
    Except Fault (Bool × Router) :=
  if locallyInitiated && s.table.connectRoutingId ≠ [] then
    let id := s.table.connectRoutingId
    if (s.table.outPipes id).isSome then .error .routerConnectId
    else { s with table := { s.table with connectRoutingId := [] } }.identified pipe id
  else if s.rawSocket then s.identifyIntegral pipe
  else
    let s' := { s with queue := s.queue.modify pipe (·.read.2) }
    match (s.queue.pipes pipe).read.1 with
    | none => .ok (false, s')
    | some msg =>
      if msg.size = 0 then s'.identifyIntegral pipe else s'.identifyBy pipe msg.data

/-! ### Pipes -/

/-- `_fq.attach`. -/
def fqAttach (s : Router) (pipe : PipeId) : Router :=
  { s with queue := s.queue.attach pipe (s.queue.pipes pipe) }

def xattachPipe (s : Router) (pipe : PipeId) (locallyInitiated : Bool) : Except Fault Router :=
  match s.identifyPeer pipe locallyInitiated with
  | .error e => .error e
  | .ok (true, s) => .ok (s.fqAttach pipe)
  | .ok (false, s) => .ok { s with anonymousPipes := insert pipe s.anonymousPipes }

/-- `xread_activated` of an anonymous pipe. -/
def identifyActivated (s : Router) (pipe : PipeId) : Except Fault Router :=
  match s.identifyPeer pipe false with
  | .error e => .error e
  | .ok (true, s) => .ok ({ s with anonymousPipes := s.anonymousPipes.erase pipe }.fqAttach pipe)
  | .ok (false, s) => .ok s

/-- `process_activate_read` of a pipe and `xread_activated`. -/
def activateRead (s : Router) (pipe : PipeId) : Except Fault Router :=
  if pipe ∈ s.anonymousPipes then
    if !(s.queue.pipes pipe).inActive && (s.queue.pipes pipe).reading then
      { s with queue := s.queue.modify pipe fun i => { i with inActive := true } }.identifyActivated
        pipe
    else .ok s
  else .ok { s with queue := s.queue.activateRead pipe }

def xpipeTerminated (s : Router) (pipe : PipeId) : Router :=
  if pipe ∈ s.anonymousPipes then { s with anonymousPipes := s.anonymousPipes.erase pipe }
  else { s with table := s.table.eraseOutPipe pipe, queue := s.queue.pipeTerminated pipe }

/-! ### Receiving -/

/-- The last part of a message has been handed out. -/
def endMessage (s : Router) : Except Fault Router :=
  if s.terminateCurrentIn then
    match s.currentIn with
    | none => .error .pipeDestroyed
    | some pipe =>
      if s.attached pipe then
        .ok { s with
          queue := s.queue.modify pipe (·.terminate true)
          terminateCurrentIn := false
          currentIn := none }
      else .error .pipeDestroyed
  else .ok { s with currentIn := none }

/-- The frame with a routing id that goes before a message. -/
def idFrame (id : Blob) (metadata : Bool) : Msg :=
  { (Msg.initBuffer id).setFlags Msg.moreFlag with metadata }

/-- Hand out a frame from the prefetch buffers. -/
def handOut (s : Router) (frame : RecvFrame) : Except Fault (RecvFrame × Router) :=
  if frame.msg.more then .ok (frame, { s with moreIn := true })
  else
    match { s with moreIn := false }.endMessage with
    | .error e => .error e
    | .ok s => .ok (frame, { s with routingIdSent := false })

/-- `xrecv` when something is prefetched. -/
def recvPrefetched (s : Router) : Except Fault (RecvFrame × Router) :=
  if !s.routingIdSent then
    { s with routingIdSent := true, prefetchedId := .init }.handOut
      ⟨s.currentIn.getD 0, s.prefetchedId, true⟩
  else
    { s with prefetched := false, prefetchedMsg := .init }.handOut
      ⟨s.currentIn.getD 0, s.prefetchedMsg, false⟩

def xrecv (s : Router) : Except Fault (Option RecvFrame × Router) :=
  if s.prefetched then s.recvPrefetched.map fun r => (some r.1, r.2)
  else
    match s.queue.recvUser (s.queue.held + 1) with
    | .error e => .error e
    | .ok (none, queue) => .ok (none, { s with queue })
    | .ok (some (pipe, m), queue) =>
      if s.moreIn then
        let s := { s with queue, moreIn := m.more }
        if m.more then .ok (some ⟨pipe, m, false⟩, s)
        else s.endMessage.map fun s => (some ⟨pipe, m, false⟩, s)
      else
        -- The part is kept and the id of the peer returned instead.
        .ok (some ⟨pipe, idFrame (s.table.routingId pipe) m.metadata, true⟩,
          { s with
            queue, prefetchedMsg := m, prefetched := true, currentIn := some pipe,
            routingIdSent := true })

def xhasIn (s : Router) : Except Fault (Bool × Router) :=
  if s.moreIn || s.prefetched then .ok (true, s)
  else
    match s.queue.recvUser (s.queue.held + 1) with
    | .error e => .error e
    | .ok (none, queue) => .ok (false, { s with queue })
    | .ok (some (pipe, m), queue) =>
      .ok (true,
        { s with
          queue, prefetchedMsg := m, prefetchedId := idFrame (s.table.routingId pipe) m.metadata,
          prefetched := true, routingIdSent := false, currentIn := some pipe })

end Router

end ServerLink

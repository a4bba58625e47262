import Mathlib.Algebra.Group.Int.Defs
import ServerLink.Lib.Arena
import ServerLink.Lib.FlushQueue
import ServerLink.Msg.Msg

/-!
# ServerLink.Pipe.Pipe

One end of a pipe (`pipe.cpp`). Two ends share two `ypipe_t` queues, one a direction,
and send each other commands. A method of the source becomes a function on a
`PipeCall`: the pipe object, the heap the queues live on, and the commands the method
has sent to the peer so far.

The queues are `FlushQueue`s: the behaviour of `ypipe_t` when each of its operations is
one step. `conflate` is left out (every caller of `pipepair` passes false), and so are
the routing ids, endpoint names, statistics and the disconnect message, which no
modelled method reads. The callbacks of the sink belong to the owner of the pipe; only
`pipe_terminated` is recorded.

The message counters are `uint64_t` in the source. The model keeps the integers whose
low 64 bits they are and reduces them where they are used, in `checkHwm` and `read`.
-/

namespace ServerLink

/-- The address of a `ypipe_t`. -/
abbrev QueueId := Nat

/-- A `ypipe_t<msg_t, N>`. -/
abbrev Queue := FlushQueue Msg

/-- The state of a pipe end, `pipe_t::_state`. -/
inductive PipeState
  | active
  | delimiterReceived
  | waitingForDelimiter
  | termAckSent
  | termReqSent1
  | termReqSent2
  deriving Repr, DecidableEq

/-- The commands pipe ends send each other. -/
inductive Command
  | activateRead
  | activateWrite (msgsRead : Int)
  | hiccup (pipe : QueueId)
  | pipeTerm
  | pipeTermAck
  deriving Repr, DecidableEq

/-- `pipe_t`. -/
structure Pipe where
  inPipe : QueueId
  outPipe : Option QueueId
  inActive : Bool := true
  outActive : Bool := true
  hwm : Int
  lwm : Int
  msgsRead : Int := 0
  msgsWritten : Int := 0
  peersMsgsRead : Int := 0
  state : PipeState := .active
  delay : Bool := true
  /-- How often the sink was told `pipe_terminated`. -/
  notified : Nat := 0
  /-- The object has executed `delete this`. -/
  deleted : Bool := false
  deriving Repr, DecidableEq

/-- A method of a pipe while it runs. -/
structure PipeCall where
  pipe : Pipe
  heap : Arena Queue
  sent : List Command := []

namespace Pipe

/-- `compute_lwm`. The division of two `int`s rounds towards zero. -/
def computeLwm (hwm : Int) : Int := (hwm + 1).tdiv 2

/-- The constructor. -/
def new (inPipe outPipe : QueueId) (inhwm outhwm : Int) : Pipe :=
  { inPipe, outPipe := some outPipe, hwm := outhwm, lwm := computeLwm inhwm }

/-- `_state == active || _state == waiting_for_delimiter`. -/
def reading (p : Pipe) : Bool := p.state == .active || p.state == .waitingForDelimiter

/-- `check_hwm`: the difference of the two counters is unsigned. -/
def checkHwm (p : Pipe) : Bool :=
  !(p.hwm > 0 && (p.msgsWritten - p.peersMsgsRead) % 2 ^ 64 ≥ p.hwm)

end Pipe

namespace PipeCall

/-! ### Queues and commands -/

/-- Follow a pointer to a queue. -/
def queue (c : PipeCall) (q : QueueId) : Except Fault Queue :=
  match c.heap.cell q with
  | none => .error .pipeQueueFreed
  | some queue => .ok queue

def setQueue (c : PipeCall) (q : QueueId) (queue : Queue) : PipeCall :=
  { c with heap := c.heap.set q queue }

/-- `send_*` to the peer. -/
def send (c : PipeCall) (cmd : Command) : PipeCall := { c with sent := c.sent ++ [cmd] }

/-- Close messages, asserting the return code. -/
def closeMsgs : List Msg → Except Fault Unit
  | [] => .ok ()
  | m :: rest =>
    match m.close with
    | none => .error .msgClose
    | some _ => closeMsgs rest

/-! ### Writing -/

/-- The body of the loop of `rollback`, over the messages taken back. -/
def rollbackMsgs : List Msg → Except Fault Unit
  | [] => .ok ()
  | m :: rest =>
    if m.more then
      match m.close with
      | none => .error .msgClose
      | some _ => rollbackMsgs rest
    else .error .pipeRollback

/-- `rollback`. -/
def rollback (c : PipeCall) : Except Fault PipeCall :=
  match c.pipe.outPipe with
  | none => .ok c
  | some q => do
    let queue ← c.queue q
    rollbackMsgs queue.unwriteAll.1
    return c.setQueue q queue.unwriteAll.2

/-- `flush`. -/
def flush (c : PipeCall) : Except Fault PipeCall :=
  if c.pipe.state = .termAckSent then .ok c
  else
    match c.pipe.outPipe with
    | none => .ok c
    | some q => do
      let queue ← c.queue q
      let c' := c.setQueue q queue.flush.2
      return if queue.flush.1 then c' else c'.send .activateRead

/-- `check_write`. -/
def checkWrite (c : PipeCall) : Bool × PipeCall :=
  if !c.pipe.outActive || c.pipe.state != .active then (false, c)
  else if c.pipe.checkHwm then (true, c)
  else (false, { c with pipe := { c.pipe with outActive := false } })

/-- What a message adds to the counters: only the last part of a message counts, and a
routing id does not. -/
def count (m : Msg) : Int := if !m.more && !m.isRoutingId then 1 else 0

/-- `write`. -/
def write (c : PipeCall) (m : Msg) : Except Fault (Bool × PipeCall) :=
  match c.checkWrite with
  | (false, c) => .ok (false, c)
  | (true, c) =>
    match c.pipe.outPipe with
    | none => .error .pipeQueueFreed
    | some q => do
      let queue ← c.queue q
      return (true,
        { c with pipe := { c.pipe with msgsWritten := c.pipe.msgsWritten + count m } }.setQueue q
          (queue.write m m.more))

/-! ### Reading -/

/-- Drop the outbound queue and acknowledge: the peer will delete the queue. -/
def ack (c : PipeCall) (state : PipeState) : PipeCall :=
  { c with pipe := { c.pipe with outPipe := none, state } }.send .pipeTermAck

/-- `process_delimiter`. -/
def processDelimiter (c : PipeCall) : Except Fault PipeCall :=
  match c.pipe.state with
  | .active => .ok { c with pipe := { c.pipe with state := .delimiterReceived } }
  | .waitingForDelimiter => do
    let c ← c.rollback
    return c.ack .termAckSent
  | _ => .error .pipeDelimiter

/-- `check_read`. -/
def checkRead (c : PipeCall) : Except Fault (Bool × PipeCall) :=
  if !c.pipe.inActive || !c.pipe.reading then .ok (false, c)
  else do
    let queue ← c.queue c.pipe.inPipe
    match queue.checkRead with
    | (false, queue) =>
      return (false, { c with pipe := { c.pipe with inActive := false } }.setQueue
        c.pipe.inPipe queue)
    | (true, queue) =>
      if queue.flushed.head?.any Msg.isDelimiter then
        let c ← (c.setQueue c.pipe.inPipe queue.read.2).processDelimiter
        return (false, c)
      else return (true, c.setQueue c.pipe.inPipe queue)

/-- The loop of `read` that closes credentials, as far as the published messages go. -/
def skipCredentials : List Msg → Except Fault (List Msg)
  | [] => .ok []
  | m :: rest =>
    if m.isCredential then
      match m.close with
      | none => .error .msgClose
      | some _ => skipCredentials rest
    else .ok (m :: rest)

/-- The report on a count of messages read, due every `_lwm` messages. -/
def report (lwm n : Int) : List Command :=
  if lwm > 0 && (n % 2 ^ 64) % lwm == 0 then [.activateWrite n] else []

/-- The end of `read`: count the message and report the count if it is time. -/
def countRead (c : PipeCall) (m : Msg) : PipeCall :=
  let read := c.pipe.msgsRead + count m
  { c with
    pipe := { c.pipe with msgsRead := read }
    sent := c.sent ++ report c.pipe.lwm read }

/-- `read`. -/
def read (c : PipeCall) : Except Fault (Option Msg × PipeCall) :=
  if !c.pipe.inActive || !c.pipe.reading then .ok (none, c)
  else do
    let queue ← c.queue c.pipe.inPipe
    let flushed ← skipCredentials queue.flushed
    match { queue with flushed }.read with
    | (none, queue) =>
      return (none, { c with pipe := { c.pipe with inActive := false } }.setQueue
        c.pipe.inPipe queue)
    | (some m, queue) =>
      let c := c.setQueue c.pipe.inPipe queue
      if m.isDelimiter then
        let c ← c.processDelimiter
        return (none, c)
      else return (some m, c.countRead m)

/-! ### Termination -/

/-- Write the delimiter behind the complete messages. The watermarks are not checked. -/
def writeDelimiter (c : PipeCall) (q : QueueId) : Except Fault PipeCall := do
  let c ← c.rollback
  let queue ← c.queue q
  (c.setQueue q (queue.write Msg.initDelimiter false)).flush

/-- The end of `terminate`: no more messages go out. -/
def stopOutput (c : PipeCall) : Except Fault PipeCall :=
  let c := { c with pipe := { c.pipe with outActive := false } }
  match c.pipe.outPipe with
  | none => .ok c
  | some q => c.writeDelimiter q

/-- `terminate`. -/
def terminate (c : PipeCall) (delay : Bool) : Except Fault PipeCall :=
  let c := { c with pipe := { c.pipe with delay } }
  match c.pipe.state with
  | .termReqSent1 | .termReqSent2 | .termAckSent => .ok c
  | .active | .delimiterReceived =>
    ({ c with pipe := { c.pipe with state := .termReqSent1 } }.send .pipeTerm).stopOutput
  | .waitingForDelimiter =>
    if delay then c.stopOutput
    else do
      let c ← c.rollback
      (c.ack .termAckSent).stopOutput

/-- `hiccup`. -/
def hiccup (c : PipeCall) : PipeCall :=
  if c.pipe.state = .active then
    { c with
      pipe := { c.pipe with inPipe := c.heap.next, inActive := true }
      heap := c.heap.alloc {} }.send (.hiccup c.heap.next)
  else c

/-- `set_nodelay`. -/
def setNodelay (c : PipeCall) : PipeCall := { c with pipe := { c.pipe with delay := false } }

/-! ### Commands -/

/-- `process_activate_read`. -/
def processActivateRead (c : PipeCall) : PipeCall :=
  if !c.pipe.inActive && c.pipe.reading then
    { c with pipe := { c.pipe with inActive := true } }
  else c

/-- `process_activate_write`. -/
def processActivateWrite (c : PipeCall) (msgsRead : Int) : PipeCall :=
  let c := { c with pipe := { c.pipe with peersMsgsRead := msgsRead } }
  if !c.pipe.outActive && c.pipe.state == .active then
    { c with pipe := { c.pipe with outActive := true } }
  else c

/-- `process_hiccup`. -/
def processHiccup (c : PipeCall) (pipe : QueueId) : Except Fault PipeCall :=
  match c.pipe.outPipe with
  | none => .error .pipeHiccup
  | some q => do
    let queue ← c.queue q
    let msgs := queue.flush.2.readAll.1
    closeMsgs msgs
    let unread := msgs.countP fun m => !m.more
    return { c with
      pipe := { c.pipe with
        msgsWritten := c.pipe.msgsWritten - unread, outPipe := some pipe, outActive := true }
      heap := c.heap.free q }

/-- `process_pipe_term`. -/
def processPipeTerm (c : PipeCall) : Except Fault PipeCall :=
  match c.pipe.state with
  | .active =>
    if c.pipe.delay then
      .ok { c with pipe := { c.pipe with state := .waitingForDelimiter } }
    else .ok (c.ack .termAckSent)
  | .delimiterReceived => .ok (c.ack .termAckSent)
  | .termReqSent1 => .ok (c.ack .termReqSent2)
  | _ => .error .pipeTerm

/-- The end of `process_pipe_term_ack`: delete the inbound queue and the pipe. -/
def destroy (c : PipeCall) : Except Fault PipeCall := do
  let queue ← c.queue c.pipe.inPipe
  closeMsgs queue.readAll.1
  return { c with
    pipe := { c.pipe with deleted := true }, heap := c.heap.free c.pipe.inPipe }

/-- `_sink->pipe_terminated (this)`. -/
def notify (c : PipeCall) : PipeCall :=
  { c with pipe := { c.pipe with notified := c.pipe.notified + 1 } }

/-- `process_pipe_term_ack`. -/
def processPipeTermAck (c : PipeCall) : Except Fault PipeCall :=
  match c.pipe.state with
  | .termReqSent1 => (c.notify.ack .termReqSent1).destroy
  | .termAckSent | .termReqSent2 => c.notify.destroy
  | _ => .error .pipeTermAck

/-- Process a command from the peer. -/
def processCommand (c : PipeCall) : Command → Except Fault PipeCall
  | .activateRead => .ok c.processActivateRead
  | .activateWrite n => .ok (c.processActivateWrite n)
  | .hiccup pipe => c.processHiccup pipe
  | .pipeTerm => c.processPipeTerm
  | .pipeTermAck => c.processPipeTermAck

end PipeCall

end ServerLink

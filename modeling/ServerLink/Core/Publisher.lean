import ServerLink.Core.XPubEffects
import ServerLink.Pipe.Outbound

/-!
# ServerLink.Core.Publisher

An XPUB or PUB socket with its sending side (`xpub_t::xsend`): the pipes whose subscriptions
match the first part of a message are marked in the distributor, and every part goes to them.

The write ends of the pipes are `Outbound`s. They take the place of `XPub.pipes`, and the
welcome message, which is written to them, that of `XPub.welcomeMsg`.
-/

namespace ServerLink

/-- `xpub_t`. -/
structure Publisher where
  xpub : XPub
  ends : PipeId → Outbound
  moreSend : Bool := false
  lossy : Bool := true
  sendLastPipe : Bool := false
  invertMatching : Bool := false
  welcomeMsg : Msg := .init

/-- The options `xpub_t::xsetsockopt` knows. -/
inductive XPubOption
  | verbose (value : Bool)
  | verboser (value : Bool)
  | manualLastValue (value : Bool)
  | nodrop (value : Bool)
  | manual (value : Bool)
  | onlyFirstSubscribe (value : Bool)
  | subscribe (topic : List UInt8)
  | unsubscribe (topic : List UInt8)
  | welcomeMsg (data : List UInt8)

namespace Publisher

/-- A new XPUB socket. -/
def new : Publisher := { xpub := .new, ends := fun _ => { pipe := Pipe.new 0 1 0 0 } }

/-- A new PUB socket. -/
def newPub : Publisher := { new with xpub := { XPub.new with type := .pub } }

def setXPub (s : Publisher) (x : Except Fault XPub) : Except Fault Publisher :=
  x.map fun xpub => { s with xpub }

/-- `xsetsockopt`. The topics are refused outside of manual mode. -/
def xsetsockopt (s : Publisher) : XPubOption → Except Fault Publisher
  | .verbose value =>
    .ok { s with xpub := { s.xpub with verboseSubs := value, verboseUnsubs := false } }
  | .verboser value =>
    .ok { s with xpub := { s.xpub with verboseSubs := value, verboseUnsubs := value } }
  | .manualLastValue value =>
    .ok { s with xpub := { s.xpub with manual := value }, sendLastPipe := value }
  | .nodrop value => .ok { s with lossy := !value }
  | .manual value => .ok { s with xpub := { s.xpub with manual := value } }
  | .onlyFirstSubscribe value => .ok { s with xpub := { s.xpub with onlyFirstSubscribe := value } }
  | .subscribe topic => if s.xpub.manual then s.setXPub (s.xpub.subscribe topic) else .ok s
  | .unsubscribe topic => if s.xpub.manual then s.setXPub (s.xpub.unsubscribe topic) else .ok s
  | .welcomeMsg data => .ok { s with welcomeMsg := .initBuffer data }

/-- The welcome message is written to a new pipe. -/
def welcome (s : Publisher) (o : Outbound) : Except Fault Outbound :=
  if s.welcomeMsg.size = 0 then .ok o
  else
    match o.write s.welcomeMsg with
    | (_, false) => .error .xpubWelcome
    | (o, true) => .ok o.flush

/-- `xattach_pipe` without `subscribe_to_all`, which only `ctx_t::connect_pending` sets: the store
is then as after a subscription to the empty topic. The parts sent to earlier pipes of this number
stay on record. -/
def xattachPipe (s : Publisher) (pipe : PipeId) (o : Outbound) : Except Fault Publisher :=
  match s.welcome o with
  | .error e => .error e
  | .ok o =>
    let o := { o with written := (s.ends pipe).written }
    { s with ends := Function.update s.ends pipe o }.setXPub (s.xpub.xattachPipe pipe false [])

/-- `xwrite_activated`. -/
def xwriteActivated (s : Publisher) (pipe : PipeId) : Publisher :=
  { s with xpub := { s.xpub with dist := s.xpub.dist.activated pipe } }

/-- The pipes that match the first part of a message are marked. -/
def matchFirst (s : Publisher) (msg : Msg) : Publisher :=
  let dist := s.xpub.dist.unmatch
  let pipes := s.xpub.subscriptions.matchPipes msg.data
  if s.xpub.manual && s.xpub.lastPipe.isSome && s.sendLastPipe then
    let dist := (pipes.filter fun pipe => s.xpub.lastPipe == some pipe).foldl Dist.matchPipe dist
    { s with xpub := { s.xpub with
        dist := if s.invertMatching then dist.reverseMatch else dist, lastPipe := none } }
  else
    let dist := pipes.foldl Dist.matchPipe dist
    { s with xpub := { s.xpub with
        dist := if s.invertMatching then dist.reverseMatch else dist } }

/-- The part is sent to the matching pipes. -/
def sendPart (s : Publisher) (msg : Msg) : Publisher :=
  let (dist, ends) := s.xpub.dist.sendToMatching s.ends msg
  { s with
    xpub := { s.xpub with dist := if msg.more then dist else dist.unmatch }
    ends
    moreSend := msg.more }

/-- `xsend`: false for `EAGAIN`. -/
def xsend (s : Publisher) (msg : Msg) : Publisher × Bool :=
  let s := if s.moreSend then s else s.matchFirst msg
  if s.lossy || s.xpub.dist.checkHwm fun pipe => (s.ends pipe).pipe.checkHwm then
    (s.sendPart msg, true)
  else (s, false)

end Publisher

/-! ### Runs -/

/-- What can happen to a publisher. -/
inductive PubAction
  | attach (pipe : PipeId) (new : NewOutbound)
  | read (pipe : PipeId) (msg : Msg)
  | activateWrite (pipe : PipeId) (msgsRead : Int)
  | hiccup (pipe : PipeId) (unread : Nat)
  | finish (pipe : PipeId) (state : PipeState) (outActive : Bool)
  | pipeTerminated (pipe : PipeId)
  | setsockopt (option : XPubOption)
  | recv
  | send (msg : Msg)

namespace Publisher

def attached (s : Publisher) (pipe : PipeId) : Prop := pipe ∈ s.xpub.dist.pipes.items

instance (s : Publisher) (pipe : PipeId) : Decidable (s.attached pipe) :=
  inferInstanceAs (Decidable (_ ∈ _))

/-- An event at the write end of a pipe. -/
def setEnd (s : Publisher) (pipe : PipeId) (o : Outbound) : Publisher :=
  { s with ends := Function.update s.ends pipe o }

/-- Other positions in the distributor. -/
def withDist (s : Publisher) (d : Dist) : Publisher :=
  { s with xpub := { s.xpub with dist := d } }

/-- A new pipe is attached once, and pipes that are not attached are not heard of. A peer
reports messages it has read and drops messages it has not read. -/
def step (s : Publisher) : PubAction → Except Fault Publisher
  | .attach pipe new => if s.attached pipe then .ok s else s.xattachPipe pipe new.o
  | .read pipe msg =>
    if s.attached pipe then s.setXPub (s.xpub.processMsg pipe msg) else .ok s
  | .activateWrite pipe msgsRead =>
    let o := s.ends pipe
    if s.attached pipe ∧ o.pipe.peersMsgsRead ≤ msgsRead ∧ msgsRead ≤ o.pipe.msgsWritten then
      let s' := s.setEnd pipe (o.activateWrite msgsRead)
      .ok (if o.wakes then s'.xwriteActivated pipe else s')
    else .ok s
  | .hiccup pipe unread =>
    let o := s.ends pipe
    if s.attached pipe ∧ (unread : Int) ≤ o.pipe.msgsWritten - o.pipe.peersMsgsRead then
      .ok (s.setEnd pipe (o.hiccup unread))
    else .ok s
  | .finish pipe state outActive =>
    if s.attached pipe ∧ state ≠ .active then
      .ok (s.setEnd pipe ((s.ends pipe).finish state outActive))
    else .ok s
  | .pipeTerminated pipe =>
    if s.attached pipe ∧ (s.ends pipe).ending = true then
      s.setXPub (s.xpub.xpipeTerminated pipe)
    else .ok s
  | .setsockopt option => s.xsetsockopt option
  | .recv => .ok { s with xpub := s.xpub.xrecv.2 }
  | .send msg => .ok (s.xsend msg).1

theorem ends_setEnd (s : Publisher) (p : PipeId) (o : Outbound) (q : PipeId) :
    (s.setEnd p o).ends q = if q = p then o else s.ends q := by
  simp [setEnd, Function.update_apply]

end Publisher

end ServerLink

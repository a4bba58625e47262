import ServerLink.Pattern.PatternTrie
import ServerLink.Pipe.Dist
import ServerLink.Pipe.Trie

/-!
# ServerLink.Core.XSub

The subscription side of `xsub_t` (`xsub.cpp`). The receiving side, a fair queue in
front of `match`, is not part of this module: `matchMsg` is `match`.
-/

namespace ServerLink

/-- The socket options `xsub_t` and `sub_t` look at. An option with an integer value carries
none if the length of the value is not that of an `int`. -/
inductive SockOpt
  | subscribe (topic : List UInt8)
  | unsubscribe (topic : List UInt8)
  | psubscribe (pattern : List UInt8)
  | punsubscribe (pattern : List UInt8)
  | onlyFirstSubscribe (value : Option Int)
  | xsubVerboseUnsubscribe (value : Option Int)
  | other
  deriving Repr, DecidableEq

/-- `xsub_t`. The pipes are those `_dist` points to. -/
structure XSub where
  subscriptions : TrieWithSize
  patternSubscriptions : PatternTrie
  dist : Dist
  pipes : Outlets
  verboseUnsubs : Bool
  moreSend : Bool
  processSubscribe : Bool
  onlyFirstSubscribe : Bool
  invertMatching : Bool

namespace XSub

def new : XSub where
  subscriptions := .empty
  patternSubscriptions := .empty
  dist := .empty
  pipes _ := .new none
  verboseUnsubs := false
  moreSend := false
  processSubscribe := false
  onlyFirstSubscribe := false
  invertMatching := false

/-- `_dist.send_to_all`. -/
def sendToAll (s : XSub) (msg : Msg) : XSub :=
  let (dist, pipes) := s.dist.sendToAll s.pipes msg
  { s with dist, pipes }

/-- `send_subscription`: the message is dropped if the pipe is full. -/
def sendSubscription (o : Outlet) (key : List UInt8) : Outlet :=
  (o.write (.initSubscribe key)).getD o

/-- `_subscriptions.apply (send_subscription, pipe)` and the flush behind it. -/
def sendSubscriptions (s : XSub) (pipe : PipeId) : XSub :=
  { s with
    pipes := Function.update s.pipes pipe
      (s.subscriptions.keys.foldl sendSubscription (s.pipes pipe)).flush }

def xattachPipe (s : XSub) (pipe : PipeId) : XSub :=
  { s with dist := s.dist.attach pipe }.sendSubscriptions pipe

/-- A new pipe is attached, with room for a number of requests or without a limit. -/
def attachNew (s : XSub) (pipe : PipeId) (room : Option Nat) : XSub :=
  { s with pipes := Function.update s.pipes pipe (.new room) }.xattachPipe pipe

def xwriteActivated (s : XSub) (pipe : PipeId) : XSub :=
  { s with dist := s.dist.activated pipe }

/-- `pipe_t::process_activate_write`: a pipe has room again. The distributor hears of it if the pipe
has refused a message. -/
def processActivateWrite (s : XSub) (pipe : PipeId) (room : Option Nat) : XSub :=
  let s := { s with pipes := Function.update s.pipes pipe { s.pipes pipe with room } }
  if s.dist.pipes.index pipe < s.dist.eligible then s else s.xwriteActivated pipe

def xpipeTerminated (s : XSub) (pipe : PipeId) : XSub :=
  { s with dist := s.dist.pipeTerminated pipe }

/-- `xsetsockopt`, with the value of `errno` if it fails. -/
def xsetsockopt (s : XSub) : SockOpt → Except Fault (XSub × Option Errno)
  | .onlyFirstSubscribe (some value) =>
    if value < 0 then .ok (s, some .einval)
    else .ok ({ s with onlyFirstSubscribe := value != 0 }, none)
  | .xsubVerboseUnsubscribe (some value) =>
    if value < 0 then .ok (s, some .einval)
    else .ok ({ s with verboseUnsubs := value != 0 }, none)
  | .psubscribe pattern =>
    match s.patternSubscriptions.add pattern with
    | (patternSubscriptions, added) =>
      let s := { s with patternSubscriptions }
      if added ∧ patternSubscriptions.numPatterns = 1 then
        -- The socket subscribes to everything on its own behalf.
        match s.subscriptions.add [] with
        | .error e => .error e
        | .ok (subscriptions, firstSub) =>
          let s := { s with subscriptions }
          .ok (if firstSub then s.sendToAll (.initSubscribe []) else s, none)
      else .ok (s, none)
  | .punsubscribe pattern =>
    match s.patternSubscriptions.rm pattern with
    | (patternSubscriptions, removed) =>
      let s := { s with patternSubscriptions }
      if removed ∧ patternSubscriptions.numPatterns = 0 then
        match s.subscriptions.rm [] with
        | .error e => .error e
        | .ok (subscriptions, lastUnsub) =>
          let s := { s with subscriptions }
          .ok (if lastUnsub then s.sendToAll (.initCancel []) else s, none)
      else .ok (s, none)
  | _ => .ok (s, some .einval)

/-- The part of `xsend` that looks for subscriptions. -/
def processSend (s : XSub) (msg : Msg) : Except Fault XSub :=
  if msg.isSubscribe ∨ msg.data.head? = some 1 then
    match s.subscriptions.add (if msg.isSubscribe then msg.data else msg.data.tail) with
    | .error e => .error e
    | .ok (subscriptions, _) =>
      .ok ({ s with subscriptions, processSubscribe := true }.sendToAll msg)
  else if msg.isCancel ∨ msg.data.head? = some 0 then
    match s.subscriptions.rm (if msg.isCancel then msg.data else msg.data.tail) with
    | .error e => .error e
    | .ok (subscriptions, rmResult) =>
      let s := { s with subscriptions, processSubscribe := true }
      .ok (if rmResult ∨ s.verboseUnsubs then s.sendToAll msg else s)
  else
    -- A user message sent upstream.
    .ok (s.sendToAll msg)

/-- `xsend`, which never fails. -/
def xsend (s : XSub) (msg : Msg) : Except Fault XSub :=
  let firstPart := !s.moreSend
  let s := { s with moreSend := msg.more }
  if firstPart then { s with processSubscribe := !s.onlyFirstSubscribe }.processSend msg
  else if !s.processSubscribe then .ok (s.sendToAll msg)
  else s.processSend msg

/-- `match`. -/
def matchMsg (s : XSub) (msg : Msg) : Bool :=
  let hasPatterns := decide (0 < s.patternSubscriptions.numPatterns)
  let prefixMatch := s.subscriptions.check msg.data
  let patternMatch := hasPatterns && s.patternSubscriptions.check msg.data
  let matching :=
    if hasPatterns && prefixMatch then
      let hasNonEmptyPrefixes := decide (1 < s.subscriptions.numPrefixes)
      if hasNonEmptyPrefixes then prefixMatch || patternMatch else patternMatch
    else prefixMatch || patternMatch
  matching ^^ s.invertMatching

/-! ### What sending leaves alone -/

/-- Between two messages, with the options of a `sub_t`. -/
structure Quiet (s : XSub) : Prop where
  moreSend : s.moreSend = false
  onlyFirstSubscribe : s.onlyFirstSubscribe = false
  verboseUnsubs : s.verboseUnsubs = false
  invertMatching : s.invertMatching = false

theorem new_quiet : new.Quiet := ⟨rfl, rfl, rfl, rfl⟩

theorem Quiet.sendToAll {s : XSub} (h : s.Quiet) (msg : Msg) : (s.sendToAll msg).Quiet :=
  ⟨h.moreSend, h.onlyFirstSubscribe, h.verboseUnsubs, h.invertMatching⟩

/-! ### Pipes that were never refused a message -/

/-- No attached pipe has been found full, and everything written has been flushed. -/
structure Calm (s : XSub) : Prop where
  dist : s.dist.AllActive
  flushed : ∀ p ∈ s.dist.pipes.items, (s.pipes p).unflushed = []

/-- No attached pipe is full. -/
def Roomy (s : XSub) : Prop := ∀ p ∈ s.dist.pipes.items, (s.pipes p).full = false

instance (s : XSub) : Decidable s.Roomy := inferInstanceAs (Decidable (∀ _ ∈ _, _))

/-- The attached pipes have no limit. -/
structure Fed (s : XSub) : Prop extends s.Calm where
  room : ∀ p ∈ s.dist.pipes.items, (s.pipes p).room = none

/-- These messages have been sent to every attached pipe. -/
structure Emits (s s' : XSub) (msgs : List Msg) : Prop where
  calm : s'.Calm
  items : s'.dist.pipes.items = s.dist.pipes.items
  sent : ∀ p ∈ s.dist.pipes.items, (s'.pipes p).sent = (s.pipes p).sent ++ msgs
  unlimited : ∀ p ∈ s.dist.pipes.items, (s.pipes p).room = none → (s'.pipes p).room = none

theorem new_fed : new.Fed := by
  refine ⟨⟨Dist.empty_allActive, ?_⟩, ?_⟩ <;> simp [new, Dist.empty, ArrayT.empty]

variable {s : XSub} {room : Option Nat}

theorem Emits.fed {s' : XSub} {msgs : List Msg} (hem : Emits s s' msgs) (h : s.Fed) : s'.Fed :=
  ⟨hem.calm, fun p hp => hem.unlimited p (hem.items ▸ hp) (h.room p (hem.items ▸ hp))⟩

theorem Calm.emits_nil {s' : XSub} (h : s.Calm) (hdist : s'.dist = s.dist)
    (hpipes : s'.pipes = s.pipes) : Emits s s' [] := by
  refine ⟨⟨?_, ?_⟩, by rw [hdist], fun p _ => by rw [hpipes, List.append_nil],
    fun p _ => by rw [hpipes]; exact id⟩
  · rw [hdist]
    exact h.dist
  · rw [hdist, hpipes]
    exact h.flushed

theorem Calm.emits_sendToAll (h : s.Calm) (hroom : s.Roomy) (s' : XSub)
    (hdist : s'.dist = s.dist) (hpipes : s'.pipes = s.pipes) {msg : Msg}
    (hmore : msg.more = false) : Emits s (s'.sendToAll msg) [msg] := by
  obtain ⟨hall, hitems, houts⟩ := h.dist.sendToAll hmore hroom
  have hdist' : (s'.sendToAll msg).dist = (s.dist.sendToAll s.pipes msg).1 := by
    rw [sendToAll, hdist, hpipes]
  have hpipes' : (s'.sendToAll msg).pipes = (s.dist.sendToAll s.pipes msg).2 := by
    rw [sendToAll, hdist, hpipes]
  refine ⟨⟨?_, ?_⟩, ?_, ?_, ?_⟩
  · rw [hdist']
    exact hall
  · intro p hp
    rw [hdist', hitems] at hp
    rw [hpipes', houts]
    simp [hp, Outlet.put]
  · rw [hdist', hitems]
  · intro p hp
    rw [hpipes', houts]
    simp [hp, Outlet.put, h.flushed p hp]
  · intro p hp hnone
    rw [hpipes', houts]
    simp [hp, Outlet.put, hnone]

theorem Fed.emits_sendToAll (h : s.Fed) (s' : XSub) (hdist : s'.dist = s.dist)
    (hpipes : s'.pipes = s.pipes) {msg : Msg} (hmore : msg.more = false) :
    Emits s (s'.sendToAll msg) [msg] :=
  h.toCalm.emits_sendToAll (fun p hp => Outlet.full_of_none (h.room p hp)) s' hdist hpipes hmore

/-- The pipe has room for all the keys. -/
theorem foldl_sendSubscription {o : Outlet} (keys : List (List UInt8))
    (h : ∀ n, o.room = some n → keys.length ≤ n) :
    keys.foldl sendSubscription o = { o with
      room := o.room.map (· - keys.length)
      unflushed := o.unflushed ++ keys.map Msg.initSubscribe } := by
  induction keys generalizing o with
  | nil => simp
  | cons key keys ih =>
    have hfull : o.full = false := by
      cases hroom : o.room with
      | none => exact Outlet.full_of_none hroom
      | some n =>
        have := h n hroom
        rw [List.length_cons] at this
        simp only [Outlet.full, hroom, beq_eq_false_iff_ne, ne_eq, Option.some.injEq]
        omega
    rw [List.foldl_cons, sendSubscription, Outlet.write_of_room hfull, Option.getD_some, ih]
    · cases o.room <;> simp [Nat.add_comm, Nat.sub_sub]
    · intro n hn
      obtain ⟨k, hk, rfl⟩ := Option.map_eq_some_iff.mp hn
      have := h k hk
      rw [List.length_cons] at this
      omega

/-- A new pipe is sent all the subscriptions if it has room for them. -/
theorem Calm.attachNew (h : s.Calm) {pipe : PipeId} (hnot : pipe ∉ s.dist.pipes.items)
    (hroom : ∀ n, room = some n → s.subscriptions.keys.length ≤ n) :
    (s.attachNew pipe room).Calm ∧
      (s.attachNew pipe room).dist.pipes.items = s.dist.pipes.items ++ [pipe] ∧
      (s.attachNew pipe room).pipes pipe = ⟨room.map (· - s.subscriptions.keys.length),
        s.subscriptions.keys.map Msg.initSubscribe, []⟩ ∧
      ∀ q, q ≠ pipe → (s.attachNew pipe room).pipes q = s.pipes q := by
  obtain ⟨hall, hitems⟩ := h.dist.attach hnot
  have hself : (s.attachNew pipe room).pipes pipe = ⟨room.map (· - s.subscriptions.keys.length),
      s.subscriptions.keys.map Msg.initSubscribe, []⟩ := by
    have hkeys := foldl_sendSubscription (o := .new room) s.subscriptions.keys hroom
    simp only [XSub.attachNew, xattachPipe, sendSubscriptions, Function.update_self, hkeys]
    simp [Outlet.new, Outlet.flush]
  have hother : ∀ q, q ≠ pipe → (s.attachNew pipe room).pipes q = s.pipes q := fun q hq => by
    simp only [XSub.attachNew, xattachPipe, sendSubscriptions, Function.update_of_ne hq]
  refine ⟨⟨hall, fun q hq => ?_⟩, hitems, hself, hother⟩
  by_cases heq : q = pipe
  · rw [heq, hself]
  · rw [hother q heq]
    have hq : q ∈ s.dist.pipes.items ++ [pipe] := hitems ▸ hq
    exact h.flushed q (by simpa [heq] using hq)

theorem Fed.attachNew (h : s.Fed) {pipe : PipeId} (hnot : pipe ∉ s.dist.pipes.items) :
    (s.attachNew pipe none).Fed ∧
      (s.attachNew pipe none).dist.pipes.items = s.dist.pipes.items ++ [pipe] ∧
      ((s.attachNew pipe none).pipes pipe).sent = s.subscriptions.keys.map Msg.initSubscribe ∧
      ∀ q, q ≠ pipe → (s.attachNew pipe none).pipes q = s.pipes q := by
  have hnone : ∀ n, (none : Option Nat) = some n → s.subscriptions.keys.length ≤ n := by simp
  obtain ⟨hcalm, hitems, hself, hother⟩ := h.toCalm.attachNew hnot hnone
  refine ⟨⟨hcalm, fun q hq => ?_⟩, hitems, by rw [hself], hother⟩
  by_cases heq : q = pipe
  · rw [heq, hself]
    rfl
  · rw [hother q heq]
    rw [hitems] at hq
    exact h.room q (by simpa [heq] using hq)

theorem Calm.terminated (h : s.Calm) {pipe : PipeId} (hmem : pipe ∈ s.dist.pipes.items) :
    (s.xpipeTerminated pipe).Calm ∧ ∀ q, q ∈ (s.xpipeTerminated pipe).dist.pipes.items ↔
        q ∈ s.dist.pipes.items ∧ q ≠ pipe := by
  obtain ⟨hall, hitems⟩ := h.dist.pipeTerminated hmem
  exact ⟨⟨hall, fun q hq => h.flushed q ((hitems q).mp hq).1⟩, hitems⟩

end XSub

end ServerLink

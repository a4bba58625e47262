import ServerLink.Core.XSub

/-!
# ServerLink.Core.Sub

`sub_t` (`sub.cpp`): the options of a subscriber become subscribe and cancel messages for
`xsub_t::xsend`. The lemmas say what each option does to the two tries and what it sends
upstream. A cancel message for a topic that starts with the byte 1 is the odd one:
`xsend` looks at the first byte before it looks for a cancel message, and takes it for a
subscription to the rest of the topic.
-/

namespace ServerLink

open TrieWithSize XSub

namespace Sub

variable {topic : List UInt8}

/-- `sub_t::xsetsockopt`. -/
def xsetsockopt (s : XSub) : SockOpt → Except Fault (XSub × Option Errno)
  | .psubscribe pattern => s.xsetsockopt (.psubscribe pattern)
  | .punsubscribe pattern => s.xsetsockopt (.punsubscribe pattern)
  | .subscribe topic =>
    match s.xsend (.initSubscribe topic) with
    | .error e => .error e
    | .ok s => .ok (s, none)
  | .unsubscribe topic =>
    match s.xsend (.initCancel topic) with
    | .error e => .error e
    | .ok s => .ok (s, none)
  | _ => .ok (s, some .einval)

/-- The state after an option has been set. -/
def setOption (s : XSub) (opt : SockOpt) : Except Fault XSub :=
  (xsetsockopt s opt).map Prod.fst

/-- The options of a subscriber. -/
def Known : SockOpt → Prop
  | .subscribe _ | .unsubscribe _ | .psubscribe _ | .punsubscribe _ => True
  | _ => False

variable {s : XSub}

theorem xsend_of_subscribe {s' : XSub}
    (h : setOption s (.subscribe topic) = .ok s') : s.xsend (.initSubscribe topic) = .ok s' := by
  cases hsend : s.xsend (.initSubscribe topic) with
  | error e => simp [setOption, xsetsockopt, hsend, Except.map] at h
  | ok s1 => simpa [setOption, xsetsockopt, hsend, Except.map] using h

theorem xsend_of_unsubscribe {s' : XSub}
    (h : setOption s (.unsubscribe topic) = .ok s') : s.xsend (.initCancel topic) = .ok s' := by
  cases hsend : s.xsend (.initCancel topic) with
  | error e => simp [setOption, xsetsockopt, hsend, Except.map] at h
  | ok s1 => simpa [setOption, xsetsockopt, hsend, Except.map] using h

theorem setOption_unknown {opt : SockOpt} (h : ¬ Known opt) : setOption s opt = .ok s := by
  cases opt with
  | subscribe _ => exact absurd trivial h
  | unsubscribe _ => exact absurd trivial h
  | psubscribe _ => exact absurd trivial h
  | punsubscribe _ => exact absurd trivial h
  | _ => rfl

section Tries

variable (hq : s.Quiet) (hwf : s.subscriptions.trie.WF)
variable {pattern : List UInt8} {pats : PatternTrie}

/-- The state in which `xsend` has changed the trie. -/
def withSubscriptions (s : XSub) (subscriptions : TrieWithSize) : XSub :=
  { s with subscriptions, moreSend := false, processSubscribe := true }

/-- The state in which `xsetsockopt` has changed the tries. -/
def withPatterns (s : XSub) (subscriptions : TrieWithSize)
    (patternSubscriptions : PatternTrie) : XSub :=
  { s with subscriptions, patternSubscriptions }

omit hwf in
include hq in
theorem withSubscriptions_quiet (subscriptions : TrieWithSize) :
    (withSubscriptions s subscriptions).Quiet :=
  ⟨rfl, hq.onlyFirstSubscribe, hq.verboseUnsubs, hq.invertMatching⟩

omit hwf in
include hq in
theorem withPatterns_quiet (subs : TrieWithSize) (pats : PatternTrie) :
    (withPatterns s subs pats).Quiet :=
  ⟨hq.moreSend, hq.onlyFirstSubscribe, hq.verboseUnsubs, hq.invertMatching⟩

include hq hwf

theorem subscribe_spec (hroom : s.subscriptions.trie.refcount topic + 1 < 2 ^ 32) :
    ∃ subs, Added s.subscriptions topic subs ∧
      setOption s (.subscribe topic) =
        .ok ((withSubscriptions s subs).sendToAll (.initSubscribe topic)) := by
  obtain ⟨subs, hadd, hspec⟩ := add_spec hwf topic hroom
  refine ⟨subs, hspec, ?_⟩
  simp [setOption, xsetsockopt, xsend, hq.moreSend, processSend, hadd,
    withSubscriptions, Except.map]

theorem unsubscribe_spec (hhead : topic.head? ≠ some 1) :
    ∃ subs, Removed s.subscriptions topic subs ∧
      setOption s (.unsubscribe topic) =
        .ok (if s.subscriptions.trie.refcount topic = 1
          then (withSubscriptions s subs).sendToAll (.initCancel topic)
          else withSubscriptions s subs) := by
  obtain ⟨subs, hrm, hspec⟩ := rm_spec hwf topic
  refine ⟨subs, hspec, ?_⟩
  simp [setOption, xsetsockopt, xsend, hq.moreSend, processSend, hhead, hrm,
    hq.verboseUnsubs, withSubscriptions, Except.map]

/-- The odd case: the rest of the topic is subscribed to. -/
theorem unsubscribe_marked_spec {rest : List UInt8}
    (hroom : s.subscriptions.trie.refcount rest + 1 < 2 ^ 32) :
    ∃ subs, Added s.subscriptions rest subs ∧
      setOption s (.unsubscribe (1 :: rest)) =
        .ok ((withSubscriptions s subs).sendToAll (.initCancel (1 :: rest))) := by
  obtain ⟨subs, hadd, hspec⟩ := add_spec hwf rest hroom
  refine ⟨subs, hspec, ?_⟩
  simp [setOption, xsetsockopt, xsend, hq.moreSend, processSend, hadd,
    withSubscriptions, Except.map]

/-- Both ways to subscribe count modulo 2^32. -/
theorem subscribe_refcount (topic : List UInt8) :
    ∃ s', setOption s (.subscribe topic) = .ok s' ∧
      s'.subscriptions.trie.refcount topic =
        (s.subscriptions.trie.refcount topic + 1) % 2 ^ 32 := by
  obtain ⟨subs, b, hadd, href⟩ := add_refcount hwf topic
  refine ⟨(withSubscriptions s subs).sendToAll (.initSubscribe topic), ?_, href⟩
  simp [setOption, xsetsockopt, xsend, hq.moreSend, processSend, hadd,
    withSubscriptions, Except.map]

theorem unsubscribe_marked_refcount (rest : List UInt8) :
    ∃ s', setOption s (.unsubscribe (1 :: rest)) = .ok s' ∧
      s'.subscriptions.trie.refcount rest = (s.subscriptions.trie.refcount rest + 1) % 2 ^ 32 := by
  obtain ⟨subs, b, hadd, href⟩ := add_refcount hwf rest
  refine ⟨(withSubscriptions s subs).sendToAll (.initCancel (1 :: rest)), ?_, href⟩
  simp [setOption, xsetsockopt, xsend, hq.moreSend, processSend, hadd,
    withSubscriptions, Except.map]

omit hq

/-- The first pattern makes the socket subscribe to everything. -/
theorem psubscribe_first (hpats : s.patternSubscriptions.add pattern = (pats, true))
    (hone : pats.numPatterns = 1) (hroom : s.subscriptions.trie.refcount [] + 1 < 2 ^ 32) :
    ∃ subs, Added s.subscriptions [] subs ∧
      setOption s (.psubscribe pattern) =
        .ok (if s.subscriptions.trie.refcount [] = 0
          then (withPatterns s subs pats).sendToAll (.initSubscribe [])
          else withPatterns s subs pats) := by
  obtain ⟨subs, hadd, hspec⟩ := add_spec hwf [] hroom
  refine ⟨subs, hspec, ?_⟩
  simp [setOption, xsetsockopt, XSub.xsetsockopt, hpats, hone, hadd, withPatterns, Except.map]

/-- The last pattern makes the socket give that up again. -/
theorem punsubscribe_last (hpats : s.patternSubscriptions.rm pattern = (pats, true))
    (hnone : pats.numPatterns = 0) :
    ∃ subs, Removed s.subscriptions [] subs ∧
      setOption s (.punsubscribe pattern) =
        .ok (if s.subscriptions.trie.refcount [] = 1
          then (withPatterns s subs pats).sendToAll (.initCancel [])
          else withPatterns s subs pats) := by
  obtain ⟨subs, hrm, hspec⟩ := rm_spec hwf []
  refine ⟨subs, hspec, ?_⟩
  simp [setOption, xsetsockopt, XSub.xsetsockopt, hpats, hnone, hrm, withPatterns, Except.map]

omit hwf

theorem psubscribe_other {added : Bool} (hpats : s.patternSubscriptions.add pattern = (pats, added))
    (hnot : ¬ (added = true ∧ pats.numPatterns = 1)) :
    setOption s (.psubscribe pattern) = .ok (withPatterns s s.subscriptions pats) := by
  simp only [setOption, xsetsockopt, XSub.xsetsockopt, hpats, if_neg hnot]
  rfl

theorem punsubscribe_other {removed : Bool}
    (hpats : s.patternSubscriptions.rm pattern = (pats, removed))
    (hnot : ¬ (removed = true ∧ pats.numPatterns = 0)) :
    setOption s (.punsubscribe pattern) = .ok (withPatterns s s.subscriptions pats) := by
  simp only [setOption, xsetsockopt, XSub.xsetsockopt, hpats, if_neg hnot]
  rfl

end Tries

end Sub

end ServerLink

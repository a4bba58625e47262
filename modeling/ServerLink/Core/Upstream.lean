import ServerLink.Core.SubMatch
import ServerLink.Core.XPub

/-!
# ServerLink.Core.Upstream

What a subscriber tells its publishers about the empty prefix. The user's own topics and
the socket's hold on behalf of the patterns share one count, and a cancel message goes
upstream when it reaches zero. `Covers` relates the count, the interest of the user and
the stream of every attached pipe; it is kept by every action that is `Admissible`,
pipes coming and going included.
-/

namespace ServerLink

open List ServerLink.Sub XPub

/-- What can happen to a subscriber: an option is set, a new pipe is attached, a pipe
goes away. -/
inductive SubAction
  | option (opt : SockOpt)
  | attach (pipe : PipeId)
  | detach (pipe : PipeId)
  deriving Repr, DecidableEq

namespace Upstream

variable {topic : List UInt8}

def step (s : XSub) : SubAction → Except Fault XSub
  | .option opt => setOption s opt
  | .attach pipe => .ok (s.attachNew pipe none)
  | .detach pipe => .ok (s.xpipeTerminated pipe)

/-- The interest of the user after an action. -/
def apply (a : Interest) : SubAction → Interest
  | .option opt => a.apply opt
  | _ => a

/-- The action does not run into one of the defects: the socket's own hold on the empty
prefix is not given up by the user, the topic to be given up is not the single byte 1,
and no count overflows. Only a pipe that is not attached is attached, and only one that
is goes away. -/
def Admissible (s : XSub) : SubAction → Prop
  | .option (.subscribe topic) => s.subscriptions.trie.refcount topic + 1 < 2 ^ 32
  | .option (.unsubscribe topic) =>
    topic ≠ [1] ∧ (topic.head? = some 1 → s.subscriptions.trie.refcount topic.tail + 1 < 2 ^ 32) ∧
      ¬ (topic = [] ∧ 0 < s.patternSubscriptions.numPatterns ∧
        s.subscriptions.trie.refcount [] = 1)
  | .option (.psubscribe pattern) =>
    ((s.patternSubscriptions.add pattern).2 = true ∧
        (s.patternSubscriptions.add pattern).1.numPatterns = 1 →
      s.subscriptions.trie.refcount [] + 1 < 2 ^ 32) ∧
      ∀ e ∈ s.patternSubscriptions.patterns, e.patternStr = pattern → e.refcount + 1 < 2 ^ 32
  | .option _ => True
  | .attach pipe => pipe ∉ s.dist.pipes.items
  | .detach pipe => pipe ∈ s.dist.pipes.items

instance (s : XSub) (act : SubAction) : Decidable (Admissible s act) := by
  unfold Admissible
  split <;> infer_instance

/-- What the socket holds on the empty prefix is what the user and the patterns need, and
every publisher knows. -/
structure Covers (s : XSub) (a : Interest) : Prop where
  quiet : s.Quiet
  wf : s.subscriptions.trie.WF
  holds : s.subscriptions.trie.refcount [] = a.holds []
  patterns : s.patternSubscriptions.Refines a.patterns
  fed : s.Fed
  upstream : ∀ p ∈ s.dist.pipes.items,
    [] ∈ subscribed (s.pipes p).sent ↔ s.subscriptions.trie.refcount [] ≠ 0

theorem new_covers : Covers XSub.new .none where
  quiet := XSub.new_quiet
  wf := Trie.empty_wf
  holds := new_holds.refcount []
  patterns := PatternTrie.empty_refines
  fed := XSub.new_fed
  upstream := by simp [XSub.new, Dist.empty, ArrayT.empty]

variable {s s' : XSub} {a : Interest}

/-- Nothing about the empty prefix changes or is sent. -/
theorem Covers.keep {a' : Interest} {msgs : List Msg} (h : Covers s a) (hq : s'.Quiet)
    (hwf : s'.subscriptions.trie.WF)
    (hnil : s'.subscriptions.trie.refcount [] = s.subscriptions.trie.refcount [])
    (hholds : a'.holds [] = a.holds []) (hpats : s'.patternSubscriptions.Refines a'.patterns)
    (hem : XSub.Emits s s' msgs)
    (hmsgs : ∀ sent, [] ∈ subscribed (sent ++ msgs) ↔ [] ∈ subscribed sent) :
    Covers s' a' := by
  refine ⟨hq, hwf, by rw [hnil, h.holds, hholds], hpats, hem.fed h.fed, fun p hp => ?_⟩
  rw [hem.items] at hp
  rw [hem.sent p hp, hmsgs, h.upstream p hp, hnil]

/-- The first hold on the empty prefix is told to every publisher. -/
theorem Covers.gain {a' : Interest} (h : Covers s a) (hq : s'.Quiet)
    (hwf : s'.subscriptions.trie.WF)
    (hnil : s'.subscriptions.trie.refcount [] = s.subscriptions.trie.refcount [] + 1)
    (hholds : a'.holds [] = a.holds [] + 1)
    (hpats : s'.patternSubscriptions.Refines a'.patterns)
    {msgs : List Msg} (hem : XSub.Emits s s' msgs)
    (hmsgs : msgs = [.initSubscribe []] ∨
      (msgs = [] ∧ s.subscriptions.trie.refcount [] ≠ 0)) : Covers s' a' := by
  refine ⟨hq, hwf, by rw [hnil, h.holds, hholds], hpats, hem.fed h.fed, fun p hp => ?_⟩
  rw [hem.items] at hp
  rw [hem.sent p hp, hnil]
  refine iff_of_true ?_ (Nat.succ_ne_zero _)
  rcases hmsgs with rfl | ⟨rfl, hne⟩
  · rw [subscribed_append_subscribe]
    exact Finset.mem_insert_self _ _
  · rw [append_nil]
    exact (h.upstream p hp).mpr hne

/-- The last hold on the empty prefix is cancelled at every publisher. -/
theorem Covers.lose {a' : Interest} (h : Covers s a) (hq : s'.Quiet)
    (hwf : s'.subscriptions.trie.WF)
    (hnil : s'.subscriptions.trie.refcount [] = s.subscriptions.trie.refcount [] - 1)
    (hholds : a'.holds [] = a.holds [] - 1)
    (hpats : s'.patternSubscriptions.Refines a'.patterns)
    {msgs : List Msg} (hem : XSub.Emits s s' msgs)
    (hmsgs : (msgs = [.initCancel []] ∧ s.subscriptions.trie.refcount [] = 1) ∨
      (msgs = [] ∧ s.subscriptions.trie.refcount [] ≠ 1)) : Covers s' a' := by
  refine ⟨hq, hwf, by rw [hnil, h.holds, hholds], hpats, hem.fed h.fed, fun p hp => ?_⟩
  rw [hem.items] at hp
  rw [hem.sent p hp, hnil]
  rcases hmsgs with ⟨rfl, hone⟩ | ⟨rfl, hne⟩
  · rw [subscribed_append_cancel, hone]
    simp
  · rw [append_nil, h.upstream p hp]
    omega

/-! ### One action -/

/-- A message about another prefix leaves the empty one alone. -/
theorem nil_mem_append_subscribe (h : topic ≠ []) (sent : List Msg) :
    [] ∈ subscribed (sent ++ [.initSubscribe topic]) ↔ [] ∈ subscribed sent := by
  rw [subscribed_append_subscribe, Finset.mem_insert]
  exact or_iff_right (Ne.symm h)

theorem nil_mem_append_cancel (h : topic ≠ []) (sent : List Msg) :
    [] ∈ subscribed (sent ++ [.initCancel topic]) ↔ [] ∈ subscribed sent := by
  rw [subscribed_append_cancel, Finset.mem_erase]
  exact and_iff_right (Ne.symm h)

theorem Covers.subscribe (h : Covers s a) (hadm : Admissible s (.option (.subscribe topic))) :
    ∃ s', step s (.option (.subscribe topic)) = .ok s' ∧
      Covers s' (a.apply (.subscribe topic)) := by
  obtain ⟨subs, hadd, hset⟩ := subscribe_spec h.quiet h.wf hadm
  have hem := h.fed.emits_sendToAll (withSubscriptions s subs) rfl rfl
    (Msg.initSubscribe_more topic)
  have hq := (withSubscriptions_quiet h.quiet subs).sendToAll (.initSubscribe topic)
  have hnil := hadd.refcount []
  have hholds := a.holds_subscribe topic []
  refine ⟨_, hset, ?_⟩
  by_cases ht : topic = []
  · subst ht
    exact h.gain hq hadd.wf hnil hholds h.patterns hem (Or.inl rfl)
  · rw [if_neg (Ne.symm ht)] at hnil hholds
    exact h.keep hq hadd.wf hnil hholds h.patterns hem (nil_mem_append_subscribe ht)

theorem Covers.unsubscribe (h : Covers s a) (hadm : Admissible s (.option (.unsubscribe topic))) :
    ∃ s', step s (.option (.unsubscribe topic)) = .ok s' ∧
      Covers s' (a.apply (.unsubscribe topic)) := by
  obtain ⟨hone, hroom, hown⟩ := hadm
  have hown : ¬ (topic = [] ∧ a.patterns ≠ 0 ∧ a.holds [] = 1) := by
    rw [Ne, ← h.patterns.numPatterns_eq_zero, ← h.holds]
    exact fun hc => hown ⟨hc.1, Nat.pos_of_ne_zero hc.2.1, hc.2.2⟩
  have hholds := a.holds_unsubscribe hown []
  by_cases hhead : topic.head? = some 1
  · -- The rest of the topic is subscribed to, and is not empty.
    obtain ⟨rest, rfl⟩ : ∃ rest, topic = 1 :: rest := by
      cases topic with
      | nil => cases hhead
      | cons b rest => exact ⟨rest, by simpa using hhead⟩
    have hrest : rest ≠ [] := fun heq => hone (by rw [heq])
    have hroom : s.subscriptions.trie.refcount rest + 1 < 2 ^ 32 := hroom rfl
    obtain ⟨subs, hadd, hset⟩ := unsubscribe_marked_spec h.quiet h.wf hroom
    have hem := h.fed.emits_sendToAll (withSubscriptions s subs) rfl rfl
      (Msg.initCancel_more (1 :: rest))
    have hnil := hadd.refcount []
    rw [if_neg (Ne.symm hrest)] at hnil
    exact ⟨_, hset, h.keep ((withSubscriptions_quiet h.quiet subs).sendToAll _) hadd.wf hnil
      hholds h.patterns hem (nil_mem_append_cancel (by simp))⟩
  obtain ⟨subs, hrm, hset⟩ := unsubscribe_spec h.quiet h.wf hhead
  have hq := withSubscriptions_quiet h.quiet subs
  have hem := h.fed.emits_sendToAll (withSubscriptions s subs) rfl rfl
    (Msg.initCancel_more topic)
  have hem0 : XSub.Emits s (withSubscriptions s subs) [] := h.fed.emits_nil rfl rfl
  have hnil := hrm.refcount []
  refine ⟨_, hset, ?_⟩
  by_cases ht : topic = []
  · subst ht
    split
    · rename_i hlast
      exact h.lose (hq.sendToAll _) hrm.wf hnil hholds h.patterns hem (Or.inl ⟨rfl, hlast⟩)
    · rename_i hlast
      exact h.lose hq hrm.wf hnil hholds h.patterns hem0 (Or.inr ⟨rfl, hlast⟩)
  · rw [if_neg (Ne.symm ht)] at hnil hholds
    split
    · exact h.keep (hq.sendToAll _) hrm.wf hnil hholds h.patterns hem (nil_mem_append_cancel ht)
    · exact h.keep hq hrm.wf hnil hholds h.patterns hem0 (fun _ => by rw [append_nil])

theorem Covers.psubscribe (h : Covers s a) {pattern : List UInt8}
    (hadm : Admissible s (.option (.psubscribe pattern))) :
    ∃ s', step s (.option (.psubscribe pattern)) = .ok s' ∧
      Covers s' (a.apply (.psubscribe pattern)) := by
  have hroom := count_pattern_lt h.patterns hadm.2
  have hpats : (s.patternSubscriptions.add pattern).1.Refines
      (a.apply (.psubscribe pattern)).patterns := by
    rw [a.apply_psubscribe]
    exact (h.patterns.add pattern hroom).1
  have hfirst_iff := h.patterns.add_first_iff pattern hroom
  have hnilRoom := hadm.1
  generalize hadd : s.patternSubscriptions.add pattern = r at hpats hfirst_iff hnilRoom
  obtain ⟨pats, added⟩ := r
  have hholds := a.holds_psubscribe pattern []
  by_cases hfirst : added = true ∧ pats.numPatterns = 1
  · obtain ⟨hvalid, hzero⟩ := hfirst_iff.mp hfirst
    have hlt := hnilRoom hfirst
    obtain ⟨rfl, hone⟩ := hfirst
    obtain ⟨subs, hspec, hset⟩ := psubscribe_first h.wf hadd hone hlt
    have hq := withPatterns_quiet h.quiet subs pats
    have hnil := hspec.refcount []
    rw [if_pos ⟨hvalid, hzero, rfl⟩] at hholds
    refine ⟨_, hset, ?_⟩
    split
    · exact h.gain (hq.sendToAll _) hspec.wf hnil hholds hpats
        (h.fed.emits_sendToAll (withPatterns s subs pats) rfl rfl (Msg.initSubscribe_more []))
        (Or.inl rfl)
    · rename_i hold
      exact h.gain hq hspec.wf hnil hholds hpats (h.fed.emits_nil rfl rfl) (Or.inr ⟨rfl, hold⟩)
  · rw [if_neg (fun hc => hfirst (hfirst_iff.mpr ⟨hc.1, hc.2.1⟩))] at hholds
    exact ⟨_, psubscribe_other hadd hfirst, h.keep (withPatterns_quiet h.quiet _ _)
      h.wf rfl hholds hpats (h.fed.emits_nil rfl rfl) (fun _ => by rw [append_nil])⟩

theorem Covers.punsubscribe (h : Covers s a) {pattern : List UInt8} :
    ∃ s', step s (.option (.punsubscribe pattern)) = .ok s' ∧
      Covers s' (a.apply (.punsubscribe pattern)) := by
  have hpats := (h.patterns.rm pattern).1
  have hlast_iff := h.patterns.rm_last_iff pattern
  generalize hrm : s.patternSubscriptions.rm pattern = r at hpats hlast_iff
  obtain ⟨pats, removed⟩ := r
  have hholds := a.holds_punsubscribe pattern []
  by_cases hlast : removed = true ∧ pats.numPatterns = 0
  · rw [if_pos ⟨hlast_iff.mp hlast, rfl⟩] at hholds
    obtain ⟨rfl, hnone⟩ := hlast
    obtain ⟨subs, hspec, hset⟩ := punsubscribe_last h.wf hrm hnone
    have hq := withPatterns_quiet h.quiet subs pats
    have hnil := hspec.refcount []
    refine ⟨_, hset, ?_⟩
    split
    · rename_i hone
      exact h.lose (hq.sendToAll _) hspec.wf hnil hholds hpats
        (h.fed.emits_sendToAll (withPatterns s subs pats) rfl rfl (Msg.initCancel_more []))
        (Or.inl ⟨rfl, hone⟩)
    · rename_i hone
      exact h.lose hq hspec.wf hnil hholds hpats (h.fed.emits_nil rfl rfl) (Or.inr ⟨rfl, hone⟩)
  · rw [if_neg (fun hc => hlast (hlast_iff.mpr hc.1))] at hholds
    exact ⟨_, punsubscribe_other hrm hlast, h.keep (withPatterns_quiet h.quiet _ _)
      h.wf rfl hholds hpats (h.fed.emits_nil rfl rfl) (fun _ => by rw [append_nil])⟩

theorem subscribed_map_initSubscribe (keys : List (List UInt8)) :
    subscribed (keys.map Msg.initSubscribe) = keys.toFinset := by
  induction keys using reverseRecOn with
  | nil => rfl
  | append_singleton keys key ih =>
    rw [map_append, map_singleton, subscribed_append_subscribe, ih,
      toFinset_append, Finset.union_comm]
    rfl

theorem Covers.attach (h : Covers s a) {pipe : PipeId} (hadm : Admissible s (.attach pipe)) :
    ∃ s', step s (.attach pipe) = .ok s' ∧ Covers s' a := by
  obtain ⟨hfed, hitems, hself, hothers⟩ := h.fed.attachNew hadm
  refine ⟨_, rfl, ⟨h.quiet.moreSend, h.quiet.onlyFirstSubscribe, h.quiet.verboseUnsubs,
    h.quiet.invertMatching⟩, h.wf, h.holds, h.patterns, hfed, fun p hp => ?_⟩
  rw [hitems, mem_append, mem_singleton] at hp
  by_cases heq : p = pipe
  · rw [heq, hself, subscribed_map_initSubscribe]
    exact TrieWithSize.mem_keys_toFinset h.wf
  · rw [hothers p heq]
    exact h.upstream p (hp.resolve_right heq)

theorem Covers.detach (h : Covers s a) {pipe : PipeId} (hadm : Admissible s (.detach pipe)) :
    ∃ s', step s (.detach pipe) = .ok s' ∧ Covers s' a := by
  obtain ⟨hcalm, hitems⟩ := h.fed.terminated hadm
  exact ⟨_, rfl, ⟨h.quiet.moreSend, h.quiet.onlyFirstSubscribe, h.quiet.verboseUnsubs,
    h.quiet.invertMatching⟩, h.wf, h.holds, h.patterns,
    ⟨hcalm, fun p hp => h.fed.room p ((hitems p).mp hp).1⟩,
    fun p hp => h.upstream p ((hitems p).mp hp).1⟩

theorem Covers.step (h : Covers s a) {act : SubAction} (hadm : Admissible s act) :
    ∃ s', step s act = .ok s' ∧ Covers s' (apply a act) := by
  cases act with
  | attach pipe => exact h.attach hadm
  | detach pipe => exact h.detach hadm
  | option opt =>
    cases opt with
    | subscribe topic => exact h.subscribe hadm
    | unsubscribe topic => exact h.unsubscribe hadm
    | psubscribe pattern => exact h.psubscribe hadm
    | punsubscribe pattern => exact h.punsubscribe
    | onlyFirstSubscribe value => exact ⟨s, setOption_unknown id, h⟩
    | xsubVerboseUnsubscribe value => exact ⟨s, setOption_unknown id, h⟩
    | other => exact ⟨s, setOption_unknown id, h⟩

/-! ### Whole runs -/

/-- The empty prefix is covered: with a pattern the trie has it and every publisher knows;
without one the publishers know it iff the user has subscribed to the empty topic. -/
def Covered (s : XSub) (a : Interest) : Prop :=
  (a.patterns ≠ 0 → s.subscriptions.trie.refcount [] ≠ 0 ∧
    ∀ p ∈ s.dist.pipes.items, [] ∈ subscribed (s.pipes p).sent) ∧
  (a.patterns = 0 → ∀ p ∈ s.dist.pipes.items, [] ∈ subscribed (s.pipes p).sent ↔ [] ∈ a.topics)

theorem Covers.covered (h : Covers s a) : Covered s a := by
  refine ⟨fun hpat => ?_, fun hzero p hp => ?_⟩
  · have hne : s.subscriptions.trie.refcount [] ≠ 0 := by
      rw [h.holds, Interest.holds, Interest.ownHold_nil hpat]
      omega
    exact ⟨hne, fun p hp => (h.upstream p hp).mpr hne⟩
  · rw [h.upstream p hp, h.holds, Interest.holds, hzero, Interest.ownHold_zero, Nat.add_zero,
      Multiset.count_ne_zero]

/-- **Coverage.** In every run whose actions are all admissible no assertion fails, and
the empty prefix is covered in the state that is reached. -/
theorem covered_of_admissible {acts : List SubAction}
    (hadm : CheckedRun.Along step Admissible XSub.new acts) :
    ∃ s, CheckedRun.run step XSub.new acts = .ok s ∧
      Covered s (acts.foldl apply Interest.none) := by
  obtain ⟨s, hrun, h⟩ :=
    CheckedRun.run_simulates (fun _ _ _ h hadm => h.step hadm) new_covers hadm
  exact ⟨s, hrun, h.covered⟩

/-- A pattern and a topic, with two pipes, one of them attached late. -/
theorem covered_pattern_and_topic :
    ∃ s, CheckedRun.run step XSub.new [.attach 1, .option (.psubscribe [42]), .attach 2,
        .option (.subscribe []), .option (.unsubscribe []), .detach 1] = .ok s ∧
      Covered s ([.attach 1, .option (.psubscribe [42]), .attach 2, .option (.subscribe []),
        .option (.unsubscribe []), .detach 1].foldl apply Interest.none) :=
  covered_of_admissible (by decide)

/-- The user gives up the empty topic, without having asked for it, while a pattern is
active: the publisher is told to cancel the empty prefix. -/
theorem not_covered_unsubscribe_nil :
    ∃ s, CheckedRun.run step XSub.new [.attach 1, .option (.psubscribe [42]),
        .option (.unsubscribe [])] = .ok s ∧
      ¬ Covered s ([.attach 1, .option (.psubscribe [42]),
        .option (.unsubscribe [])].foldl apply Interest.none) := by
  refine ⟨_, rfl, fun h => ?_⟩
  have hpat : ([SubAction.attach 1, .option (.psubscribe [42]),
      .option (.unsubscribe [])].foldl apply Interest.none).patterns ≠ 0 := by decide
  exact absurd (h.1 hpat).1 (by decide)

end Upstream

end ServerLink

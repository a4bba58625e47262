import ServerLink.Core.Sub
import ServerLink.Lib.Run

/-!
# ServerLink.Core.SubMatch

What a subscriber wants and what it accepts. An `Interest` is what the user of a
subscriber has asked for: a multiset of topics and a multiset of valid patterns. The two
tries of the socket hold the interest, with one hold on the empty prefix more while there
is a pattern (`Holds`), as long as every option is `Admissible` when it is set.

`matchMsg` then follows the interest for exactly the messages of `accepts_wanted_iff`.
-/

namespace ServerLink

open Multiset

/-- What the user of a subscriber has asked for. -/
structure Interest where
  topics : Multiset (List UInt8)
  patterns : Multiset (List UInt8)

namespace Interest

def none : Interest := ⟨0, 0⟩

/-- An option changes the interest. Giving up something that was not asked for has no
effect, and an invalid pattern asks for nothing. -/
def apply (a : Interest) : SockOpt → Interest
  | .subscribe topic => { a with topics := topic ::ₘ a.topics }
  | .unsubscribe topic => { a with topics := a.topics.erase topic }
  | .psubscribe pattern =>
    if PatternTrie.Valid pattern then { a with patterns := pattern ::ₘ a.patterns } else a
  | .punsubscribe pattern => { a with patterns := a.patterns.erase pattern }
  | _ => a

/-- The interest after a sequence of options. -/
def after (opts : List SockOpt) : Interest := opts.foldl apply none

/-- A message is wanted: a topic is a prefix of it, or a pattern matches it. -/
def Wants (a : Interest) (data : List UInt8) : Prop :=
  (∃ topic ∈ a.topics, topic <+: data) ∨ ∃ p ∈ a.patterns, PatternTrie.PatternMatches p data

instance (a : Interest) (data : List UInt8) : Decidable (a.Wants data) :=
  have : Decidable (∃ topic ∈ a.topics, topic <+: data) := Multiset.decidableExistsMultiset
  have : Decidable (∃ p ∈ a.patterns, PatternTrie.PatternMatches p data) :=
    Multiset.decidableExistsMultiset
  inferInstanceAs (Decidable (_ ∨ _))

/-- The socket's own hold on the empty prefix while there is a pattern. -/
def ownHold (patterns : Multiset (List UInt8)) (key : List UInt8) : Nat :=
  if key = [] ∧ patterns ≠ 0 then 1 else 0

/-- The number of holds on a prefix, the user's and the socket's own. -/
def holds (a : Interest) (key : List UInt8) : Nat := a.topics.count key + ownHold a.patterns key

@[simp] theorem ownHold_zero (key : List UInt8) : ownHold 0 key = 0 := by
  simp [ownHold]

theorem ownHold_nil {patterns : Multiset (List UInt8)} (h : patterns ≠ 0) :
    ownHold patterns [] = 1 := by
  simp [ownHold, h]

theorem ownHold_of_ne {key : List UInt8} (h : key ≠ []) (patterns : Multiset (List UInt8)) :
    ownHold patterns key = 0 := by
  simp [ownHold, h]

theorem ownHold_congr {patterns patterns' : Multiset (List UInt8)}
    (h : patterns ≠ 0 ↔ patterns' ≠ 0) (key : List UInt8) :
    ownHold patterns key = ownHold patterns' key := by
  simp only [ownHold, h]

variable (a : Interest)

theorem holds_subscribe (topic key : List UInt8) :
    (a.apply (.subscribe topic)).holds key =
      if key = topic then a.holds topic + 1 else a.holds key := by
  simp only [holds, apply]
  by_cases hk : key = topic
  · rw [if_pos hk, hk, count_cons_self]
    omega
  · rw [if_neg hk, count_cons_of_ne hk]

/-- The hold that is given up is not the socket's own. -/
theorem holds_unsubscribe {topic : List UInt8}
    (h : ¬ (topic = [] ∧ a.patterns ≠ 0 ∧ a.holds [] = 1)) (key : List UInt8) :
    (a.apply (.unsubscribe topic)).holds key =
      if key = topic then a.holds topic - 1 else a.holds key := by
  simp only [holds, apply]
  by_cases hk : key = topic
  · subst hk
    rw [if_pos rfl, count_erase_self]
    by_cases hown : key = [] ∧ a.patterns ≠ 0
    · obtain ⟨rfl, hpat⟩ := hown
      have hne : a.holds [] ≠ 1 := fun h1 => h ⟨rfl, hpat, h1⟩
      rw [holds, ownHold_nil hpat] at hne
      omega
    · have hzero : ownHold a.patterns key = 0 := if_neg hown
      omega
  · rw [if_neg hk, count_erase_of_ne hk]

theorem apply_psubscribe (pattern : List UInt8) :
    a.apply (.psubscribe pattern) =
      ⟨a.topics, if PatternTrie.Valid pattern then pattern ::ₘ a.patterns else a.patterns⟩ := by
  simp only [apply]
  split <;> rfl

/-- The first pattern adds the socket's own hold. -/
theorem holds_psubscribe (pattern key : List UInt8) :
    (a.apply (.psubscribe pattern)).holds key =
      if PatternTrie.Valid pattern ∧ a.patterns = 0 ∧ key = [] then a.holds [] + 1
      else a.holds key := by
  rw [apply_psubscribe]
  simp only [holds]
  by_cases hk : key = []
  · subst hk
    by_cases hvalid : PatternTrie.Valid pattern
    · rw [if_pos hvalid, ownHold_nil cons_ne_zero]
      by_cases hzero : a.patterns = 0
      · rw [if_pos ⟨hvalid, hzero, rfl⟩, hzero, ownHold_zero]
      · rw [if_neg (fun h => hzero h.2.1), ownHold_nil hzero]
    · rw [if_neg hvalid, if_neg (fun h => hvalid h.1)]
  · have hnot : ¬ (PatternTrie.Valid pattern ∧ a.patterns = 0 ∧ key = []) := fun h => hk h.2.2
    rw [ownHold_of_ne hk, ownHold_of_ne hk, if_neg hnot]

/-- The last pattern takes the socket's own hold with it. -/
theorem holds_punsubscribe (pattern key : List UInt8) :
    (a.apply (.punsubscribe pattern)).holds key =
      if (pattern ∈ a.patterns ∧ a.patterns.erase pattern = 0) ∧ key = [] then a.holds [] - 1
      else a.holds key := by
  simp only [holds, apply]
  by_cases hlast : pattern ∈ a.patterns ∧ a.patterns.erase pattern = 0
  · have hne : a.patterns ≠ 0 := fun hzero => by simp [hzero] at hlast
    by_cases hk : key = []
    · rw [if_pos ⟨hlast, hk⟩, hlast.2, hk, ownHold_zero, ownHold_nil hne]
      omega
    · rw [if_neg (fun h => hk h.2), ownHold_of_ne hk, ownHold_of_ne hk]
  rw [if_neg (fun h => hlast h.1)]
  by_cases hmem : pattern ∈ a.patterns
  · have hne : a.patterns ≠ 0 := fun hzero => by simp [hzero] at hmem
    rw [ownHold_congr (iff_of_true (fun hzero => hlast ⟨hmem, hzero⟩) hne)]
  · rw [erase_of_notMem hmem]

end Interest

namespace Sub

/-- The tries of the socket hold the interest of its user. -/
structure Holds (s : XSub) (a : Interest) : Prop where
  quiet : s.Quiet
  wf : s.subscriptions.trie.WF
  refcount : ∀ key, s.subscriptions.trie.refcount key = a.holds key
  counts : s.subscriptions.Counts
  patterns : s.patternSubscriptions.Refines a.patterns

/-- The option does not run into one of the defects: no topic to be given up starts with
the byte 1, the socket's own hold on the empty prefix is not given up by the user, and no
32-bit counter overflows. -/
def Admissible (s : XSub) : SockOpt → Prop
  | .subscribe topic =>
    s.subscriptions.trie.refcount topic + 1 < 2 ^ 32 ∧ s.subscriptions.numPrefixes + 1 < 2 ^ 32
  | .unsubscribe topic =>
    topic.head? ≠ some 1 ∧ ¬ (topic = [] ∧ 0 < s.patternSubscriptions.numPatterns ∧
        s.subscriptions.trie.refcount [] = 1)
  | .psubscribe pattern =>
    s.subscriptions.trie.refcount [] + 1 < 2 ^ 32 ∧ s.subscriptions.numPrefixes + 1 < 2 ^ 32 ∧
      ∀ e ∈ s.patternSubscriptions.patterns, e.patternStr = pattern → e.refcount + 1 < 2 ^ 32
  | _ => True

instance (s : XSub) (opt : SockOpt) : Decidable (Admissible s opt) := by
  unfold Admissible
  cases opt <;> infer_instance

theorem new_holds : Holds XSub.new .none where
  quiet := XSub.new_quiet
  wf := Trie.empty_wf
  refcount key := by simp [XSub.new, TrieWithSize.empty, Interest.holds, Interest.none]
  counts := TrieWithSize.empty_counts
  patterns := PatternTrie.empty_refines

variable {s : XSub} {a : Interest}

theorem Holds.sendToAll (h : Holds s a) (msg : Msg) : Holds (s.sendToAll msg) a :=
  ⟨h.quiet.sendToAll msg, h.wf, h.refcount, h.counts, h.patterns⟩

theorem Holds.subscribe (h : Holds s a) {topic : List UInt8}
    (hadm : Admissible s (.subscribe topic)) :
    ∃ s', setOption s (.subscribe topic) = .ok s' ∧ Holds s' (a.apply (.subscribe topic)) := by
  obtain ⟨subs, hadd, hset⟩ := subscribe_spec h.quiet h.wf hadm.1
  refine ⟨_, hset, Holds.sendToAll ?_ _⟩
  refine ⟨withSubscriptions_quiet h.quiet _, hadd.wf, fun key => ?_,
    hadd.counts h.wf h.counts hadm.2, h.patterns⟩
  exact (hadd.refcount key).trans (by rw [h.refcount, h.refcount, a.holds_subscribe])

theorem Holds.unsubscribe (h : Holds s a) {topic : List UInt8}
    (hadm : Admissible s (.unsubscribe topic)) :
    ∃ s', setOption s (.unsubscribe topic) = .ok s' ∧ Holds s' (a.apply (.unsubscribe topic)) := by
  obtain ⟨subs, hrm, hset⟩ := unsubscribe_spec h.quiet h.wf hadm.1
  have hown : ¬ (topic = [] ∧ a.patterns ≠ 0 ∧ a.holds [] = 1) := by
    rw [Ne, ← h.patterns.numPatterns_eq_zero, ← h.refcount]
    exact fun hc => hadm.2 ⟨hc.1, Nat.pos_of_ne_zero hc.2.1, hc.2.2⟩
  have hholds : Holds (withSubscriptions s subs) (a.apply (.unsubscribe topic)) :=
    ⟨withSubscriptions_quiet h.quiet _, hrm.wf, fun key => (hrm.refcount key).trans
      (by rw [h.refcount, h.refcount, a.holds_unsubscribe hown]),
      hrm.counts h.wf h.counts, h.patterns⟩
  refine ⟨_, hset, ?_⟩
  split
  · exact hholds.sendToAll _
  · exact hholds

/-- The count of a pattern has room if that of its entry has. -/
theorem count_pattern_lt (h : s.patternSubscriptions.Refines a.patterns) {pattern : List UInt8}
    (hadm : ∀ e ∈ s.patternSubscriptions.patterns, e.patternStr = pattern →
      e.refcount + 1 < 2 ^ 32) : a.patterns.count pattern + 1 < 2 ^ 32 := by
  by_cases hmem : pattern ∈ a.patterns
  · obtain ⟨e, he, rfl⟩ := h.mem pattern hmem
    have := hadm e he rfl
    rwa [(h.entry e he).2.1] at this
  · rw [count_eq_zero.mpr hmem]
    decide

theorem Holds.psubscribe (h : Holds s a) {pattern : List UInt8}
    (hadm : Admissible s (.psubscribe pattern)) :
    ∃ s', setOption s (.psubscribe pattern) = .ok s' ∧
      Holds s' (a.apply (.psubscribe pattern)) := by
  have hroom := count_pattern_lt h.patterns hadm.2.2
  have hpats : (s.patternSubscriptions.add pattern).1.Refines
      (a.apply (.psubscribe pattern)).patterns := by
    rw [a.apply_psubscribe]
    exact (h.patterns.add pattern hroom).1
  have hfirst_iff := h.patterns.add_first_iff pattern hroom
  generalize hadd : s.patternSubscriptions.add pattern = r at hpats hfirst_iff
  obtain ⟨pats, added⟩ := r
  have hholds := a.holds_psubscribe pattern
  by_cases hfirst : added = true ∧ pats.numPatterns = 1
  · obtain ⟨hvalid, hzero⟩ := hfirst_iff.mp hfirst
    obtain ⟨rfl, hone⟩ := hfirst
    obtain ⟨subs, hspec, hset⟩ := psubscribe_first h.wf hadd hone hadm.1
    have hkeep : Holds (withPatterns s subs pats) (a.apply (.psubscribe pattern)) :=
      ⟨withPatterns_quiet h.quiet _ _, hspec.wf, fun key => (hspec.refcount key).trans
        (by rw [h.refcount, h.refcount, hholds]; simp [hvalid, hzero]),
        hspec.counts h.wf h.counts hadm.2.1, hpats⟩
    refine ⟨_, hset, ?_⟩
    split
    · exact hkeep.sendToAll _
    · exact hkeep
  · have hnot : ∀ key : List UInt8, ¬ (PatternTrie.Valid pattern ∧ a.patterns = 0 ∧ key = []) :=
      fun key hc => hfirst (hfirst_iff.mpr ⟨hc.1, hc.2.1⟩)
    exact ⟨_, psubscribe_other hadd hfirst, withPatterns_quiet h.quiet _ _, h.wf,
      fun key => (h.refcount key).trans (by rw [hholds, if_neg (hnot key)]), h.counts, hpats⟩

theorem Holds.punsubscribe (h : Holds s a) {pattern : List UInt8} :
    ∃ s', setOption s (.punsubscribe pattern) = .ok s' ∧
      Holds s' (a.apply (.punsubscribe pattern)) := by
  have hpats := (h.patterns.rm pattern).1
  have hlast_iff := h.patterns.rm_last_iff pattern
  generalize hrm : s.patternSubscriptions.rm pattern = r at hpats hlast_iff
  obtain ⟨pats, removed⟩ := r
  have hholds := a.holds_punsubscribe pattern
  by_cases hlast : removed = true ∧ pats.numPatterns = 0
  · have hlast' := hlast_iff.mp hlast
    obtain ⟨rfl, hnone⟩ := hlast
    obtain ⟨subs, hspec, hset⟩ := punsubscribe_last h.wf hrm hnone
    have hkeep : Holds (withPatterns s subs pats) (a.apply (.punsubscribe pattern)) :=
      ⟨withPatterns_quiet h.quiet _ _, hspec.wf, fun key => (hspec.refcount key).trans
        (by rw [h.refcount, h.refcount, hholds]; simp [hlast']),
        hspec.counts h.wf h.counts, hpats⟩
    refine ⟨_, hset, ?_⟩
    split
    · exact hkeep.sendToAll _
    · exact hkeep
  · have hnot : ∀ key : List UInt8,
        ¬ ((pattern ∈ a.patterns ∧ a.patterns.erase pattern = 0) ∧ key = []) :=
      fun key hc => hlast (hlast_iff.mpr hc.1)
    exact ⟨_, punsubscribe_other hrm hlast, withPatterns_quiet h.quiet _ _, h.wf,
      fun key => (h.refcount key).trans (by rw [hholds, if_neg (hnot key)]), h.counts, hpats⟩

theorem Holds.setOption (h : Holds s a) {opt : SockOpt} (hadm : Admissible s opt) :
    ∃ s', setOption s opt = .ok s' ∧ Holds s' (a.apply opt) := by
  cases opt with
  | subscribe topic => exact h.subscribe hadm
  | unsubscribe topic => exact h.unsubscribe hadm
  | psubscribe pattern => exact h.psubscribe hadm
  | punsubscribe pattern => exact h.punsubscribe
  | onlyFirstSubscribe value => exact ⟨s, setOption_unknown id, h⟩
  | xsubVerboseUnsubscribe value => exact ⟨s, setOption_unknown id, h⟩
  | other => exact ⟨s, setOption_unknown id, h⟩

/-! ### What the socket accepts -/

theorem Holds.check_iff (h : Holds s a) (data : List UInt8) :
    s.subscriptions.check data = true ↔ (∃ topic ∈ a.topics, topic <+: data) ∨ a.patterns ≠ 0 := by
  rw [TrieWithSize.check, Trie.check_iff]
  constructor
  · rintro ⟨p, hp, hr⟩
    rw [h.refcount, Interest.holds] at hr
    by_cases hmem : p ∈ a.topics
    · exact Or.inl ⟨p, hmem, hp⟩
    right
    intro hzero
    rw [count_eq_zero.mpr hmem, hzero, Interest.ownHold_zero] at hr
    exact hr rfl
  rintro (⟨topic, hmem, hp⟩ | hpat)
  · refine ⟨topic, hp, ?_⟩
    have := count_pos.mpr hmem
    rw [h.refcount, Interest.holds]
    omega
  · refine ⟨[], List.nil_prefix, ?_⟩
    rw [h.refcount, Interest.holds, Interest.ownHold_nil hpat]
    omega

/-- With a pattern there is always the empty prefix, so that a second one is a topic that
is not empty. -/
theorem Holds.one_lt_numPrefixes_iff (h : Holds s a) (hpat : a.patterns ≠ 0) :
    1 < s.subscriptions.numPrefixes ↔ ∃ topic ∈ a.topics, topic ≠ [] := by
  have hkeys : ∀ key, key ∈ s.subscriptions.keys.toFinset ↔ key ∈ a.topics ∨ key = [] := by
    intro key
    rw [TrieWithSize.mem_keys_toFinset h.wf, h.refcount, Interest.holds]
    by_cases hk : key = []
    · rw [hk, Interest.ownHold_nil hpat]
      simp
    · rw [Interest.ownHold_of_ne hk, Nat.add_zero, count_ne_zero]
      simp [hk]
  rw [h.counts.1, Finset.one_lt_card]
  constructor
  · rintro ⟨x, hx, y, hy, hne⟩
    rw [hkeys] at hx hy
    by_cases hx' : x = []
    · have hy' : y ≠ [] := fun heq => hne (hx'.trans heq.symm)
      exact ⟨y, hy.resolve_right hy', hy'⟩
    · exact ⟨x, hx.resolve_right hx', hx'⟩
  · rintro ⟨topic, hmem, hne⟩
    exact ⟨topic, (hkeys topic).mpr (Or.inl hmem), [], (hkeys []).mpr (Or.inr rfl), hne⟩

theorem Holds.matchMsg_without_patterns (h : Holds s a) (hpat : a.patterns = 0) (msg : Msg) :
    s.matchMsg msg = true ↔ ∃ topic ∈ a.topics, topic <+: msg.data := by
  have hnum := h.patterns.numPatterns_eq_zero.mpr hpat
  have hcheck := h.check_iff msg.data
  simp only [hpat, ne_eq, not_true_eq_false, or_false] at hcheck
  simp [XSub.matchMsg, hnum, h.quiet.invertMatching, hcheck]

/-- With a pattern everything is accepted as soon as there is a topic that is not empty;
otherwise what a pattern matches. -/
theorem Holds.matchMsg_with_patterns (h : Holds s a) (hpat : a.patterns ≠ 0) (msg : Msg) :
    s.matchMsg msg = true ↔ (∃ topic ∈ a.topics, topic ≠ []) ∨
        ∃ p ∈ a.patterns, PatternTrie.PatternMatches p msg.data := by
  have hnum : 0 < s.patternSubscriptions.numPatterns := by
    rw [Nat.pos_iff_ne_zero, Ne, h.patterns.numPatterns_eq_zero]
    exact hpat
  have hprefix : s.subscriptions.check msg.data = true := (h.check_iff msg.data).mpr (Or.inr hpat)
  rw [← h.one_lt_numPrefixes_iff hpat, ← h.patterns.check_iff]
  simp only [XSub.matchMsg, hnum, hprefix, h.quiet.invertMatching, decide_true, Bool.true_and,
    if_true, Bool.xor_false, decide_eq_true_eq]
  by_cases hmany : 1 < s.subscriptions.numPrefixes
  · simp [hmany]
  · simp [hmany]

end Sub

/-- The messages for which the number of prefixes tells the topics of the user from the
socket's own empty prefix. -/
def Interest.Clear (a : Interest) (data : List UInt8) : Prop :=
  a.patterns = 0 ∨ a.topics = 0 ∨ (∃ p ∈ a.patterns, PatternTrie.PatternMatches p data) ∨
    (∃ topic ∈ a.topics, topic ≠ [] ∧ topic <+: data) ∨
    ([] ∈ a.topics ∧ ∃ topic ∈ a.topics, topic ≠ [])

namespace Sub

variable {s : XSub} {a : Interest}

theorem Holds.matchMsg_iff_wants (h : Holds s a) (msg : Msg) :
    (s.matchMsg msg = true ↔ a.Wants msg.data) ↔ a.Clear msg.data := by
  by_cases hpat : a.patterns = 0
  · refine iff_of_true ?_ (Or.inl hpat)
    rw [h.matchMsg_without_patterns hpat]
    simp [Interest.Wants, hpat]
  rw [h.matchMsg_with_patterns hpat]
  unfold Interest.Clear Interest.Wants
  by_cases hp : ∃ p ∈ a.patterns, PatternTrie.PatternMatches p msg.data
  · exact iff_of_true (iff_of_true (Or.inr hp) (Or.inr hp)) (Or.inr (Or.inr (Or.inl hp)))
  simp only [hp, hpat, or_false, false_or]
  -- No pattern matches: every message is accepted if there is a topic that is not empty.
  by_cases htopic : ∃ topic ∈ a.topics, topic ≠ []
  · have hne : a.topics ≠ 0 := by
      rintro hzero
      simp [hzero] at htopic
    simp only [htopic, true_iff, hne, false_or, and_true]
    constructor
    · rintro ⟨topic, hmem, hpre⟩
      by_cases hnil : topic = []
      · exact Or.inr (hnil ▸ hmem)
      · exact Or.inl ⟨topic, hmem, hnil, hpre⟩
    · rintro (⟨topic, hmem, -, hpre⟩ | hnil)
      · exact ⟨topic, hmem, hpre⟩
      · exact ⟨[], hnil, List.nil_prefix⟩
  simp only [htopic, false_iff, and_false, or_false]
  constructor
  · intro hnone
    left
    rw [eq_zero_iff_forall_notMem]
    intro topic hmem
    refine hnone ⟨topic, hmem, ?_⟩
    have hnil : topic = [] := by
      by_contra hne
      exact htopic ⟨topic, hmem, hne⟩
    rw [hnil]
    exact List.nil_prefix
  · rintro (hzero | ⟨topic, hmem, hne, -⟩) ⟨topic', hmem', -⟩
    · simp [hzero] at hmem'
    · exact htopic ⟨topic, hmem, hne⟩

/-- **Acceptance.** After every sequence of admissible options the socket accepts what its
user wants, and nothing else, for exactly the messages that are clear. -/
theorem accepts_wanted_iff (dist : Dist) (pipes : Outlets) {opts : List SockOpt}
    (hadm : CheckedRun.Along setOption Admissible { XSub.new with dist, pipes } opts) :
    ∃ s, CheckedRun.run setOption { XSub.new with dist, pipes } opts = .ok s ∧
      ∀ msg : Msg, (s.matchMsg msg = true ↔ (Interest.after opts).Wants msg.data) ↔
        (Interest.after opts).Clear msg.data := by
  have h0 : Holds { XSub.new with dist, pipes } .none :=
    ⟨⟨rfl, rfl, rfl, rfl⟩, new_holds.wf, new_holds.refcount, new_holds.counts, new_holds.patterns⟩
  obtain ⟨s, hrun, h⟩ := CheckedRun.run_simulates (fun _ _ _ h hadm => h.setOption hadm) h0 hadm
  exact ⟨s, hrun, h.matchMsg_iff_wants⟩

/-- A subscriber to the topic `a` and to the pattern `z` accepts both. -/
theorem accepts_topic_and_pattern :
    ∃ s, CheckedRun.run setOption XSub.new [.psubscribe [122], .subscribe [97]] = .ok s ∧
      ∀ msg : Msg, (s.matchMsg msg = true ↔
          (Interest.after [.psubscribe [122], .subscribe [97]]).Wants msg.data) ↔
        (Interest.after [.psubscribe [122], .subscribe [97]]).Clear msg.data :=
  accepts_wanted_iff Dist.empty (fun _ => .new none) (by decide)

/-- A subscriber to the topic `a` and to the pattern `z` accepts the message `b`, which it
has not asked for. -/
theorem accepts_unwanted :
    ∃ s, CheckedRun.run setOption XSub.new [.psubscribe [122], .subscribe [97]] = .ok s ∧
      s.matchMsg (.initBuffer [98]) = true ∧
      ¬ (Interest.after [.psubscribe [122], .subscribe [97]]).Wants [98] := by
  exact ⟨_, rfl, by decide, by decide⟩

end Sub

end ServerLink

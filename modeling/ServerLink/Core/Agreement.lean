import ServerLink.Core.Upstream

/-!
# ServerLink.Core.Agreement

A subscriber connected by a pipe to a publisher in the same process. The subscriber
counts the subscriptions to each topic and sends every subscribe message, but only the
last cancel message; the publisher keeps a set of prefixes for each pipe. `agree_iff`
says for which sequences of options the two agree throughout.
-/

namespace ServerLink

open Multiset CheckedRun XPub

/-- The options of a subscriber that are about topics. -/
inductive TopicOpt
  | subscribe (topic : List UInt8)
  | unsubscribe (topic : List UInt8)
  deriving Repr, DecidableEq

namespace TopicOpt

def toSockOpt : TopicOpt → SockOpt
  | subscribe topic => .subscribe topic
  | unsubscribe topic => .unsubscribe topic

end TopicOpt

namespace Agreement

/-- A subscriber that has been connected by a pipe. -/
def connected (pipe : PipeId) : XSub := XSub.new.attachNew pipe none

def step (s : XSub) (opt : TopicOpt) : Except Fault XSub := Sub.setOption s opt.toSockOpt

/-- The topics subscribed to, each as often as it has been, less the unsubscriptions that
had an effect. -/
def topics (opts : List TopicOpt) : Multiset (List UInt8) :=
  (Interest.after (opts.map TopicOpt.toSockOpt)).topics

/-- After these options, when the publisher has read all that was sent, it holds the
topics that the subscriber counts, and the subscriber counts right. -/
def Agree (pub : XPub) (pipe : PipeId) (opts : List TopicOpt) : Prop :=
  ∃ s p, run step (connected pipe) opts = .ok s ∧ pub.readAll pipe (s.pipes pipe).sent = .ok p ∧
    (∀ k, pipe ∈ p.subscriptions.pipesAt k ↔ 0 < s.subscriptions.trie.refcount k) ∧
    ∀ k, s.subscriptions.trie.refcount k = (topics opts).count k

/-- What an option must meet, given the topics before it: no topic that is given up starts
with the byte 1, a count has room for one more, and when the last subscriber of a prefix
goes the number of prefixes of the publisher, kept in 32 bits, does not read as 0. -/
def Sound (pub : XPub) (leaked : Nat) (before : Multiset (List UInt8)) : TopicOpt → Prop
  | .subscribe topic => before.count topic + 1 < 2 ^ 32
  | .unsubscribe topic =>
    topic.head? ≠ some 1 ∧ (before.count topic = 1 → topic ∉ pub.subscriptions.prefixes →
        ((pub.subscriptions.prefixes ∪ before.toFinset).card + leaked) % 2 ^ 32 ≠ 0)

theorem topics_append_subscribe (opts : List TopicOpt) (topic : List UInt8) :
    topics (opts ++ [.subscribe topic]) = topic ::ₘ topics opts := by
  simp [topics, Interest.after, TopicOpt.toSockOpt, Interest.apply]

theorem topics_append_unsubscribe (opts : List TopicOpt) (topic : List UInt8) :
    topics (opts ++ [.unsubscribe topic]) = (topics opts).erase topic := by
  simp [topics, Interest.after, TopicOpt.toSockOpt, Interest.apply]

/-- The two sockets after the options that lead to these topics. -/
structure Inv (pub : XPub) (leaked : Nat) (pipe : PipeId) (ts : Multiset (List UInt8))
    (s : XSub) (p : XPub) : Prop where
  quiet : s.Quiet
  wf : s.subscriptions.trie.WF
  fed : s.Fed
  items : s.dist.pipes.items = [pipe]
  refcount : ∀ k, s.subscriptions.trie.refcount k = ts.count k
  small : ∀ k, ts.count k < 2 ^ 32
  read : pub.readAll pipe (s.pipes pipe).sent = .ok p
  listening : p.Listening
  counts : p.subscriptions.Counts leaked
  pipesAt : ∀ k, p.subscriptions.pipesAt k =
    if k ∈ ts then insert pipe (pub.subscriptions.pipesAt k) else pub.subscriptions.pipesAt k

section Run

variable {pub : XPub} {leaked : Nat} {pipe : PipeId} {ts : Multiset (List UInt8)} {s : XSub}
  {p : XPub} (hpub : pub.Listening) (hfresh : ∀ k, pipe ∉ pub.subscriptions.pipesAt k)

variable {topic : List UInt8}

include hfresh in
theorem Inv.mem_pipesAt (h : Inv pub leaked pipe ts s p) (k : List UInt8) :
    pipe ∈ p.subscriptions.pipesAt k ↔ k ∈ ts := by
  rw [h.pipesAt]
  by_cases hk : k ∈ ts
  · simp [hk]
  · simp [hk, hfresh k]

include hpub in
theorem Inv.prefixes (h : Inv pub leaked pipe ts s p) :
    p.subscriptions.prefixes = pub.subscriptions.prefixes ∪ ts.toFinset := by
  ext k
  rw [h.listening.ok.mem_prefixes, Finset.mem_union, hpub.ok.mem_prefixes, mem_toFinset, h.pipesAt]
  by_cases hk : k ∈ ts <;> simp [hk]

include hfresh in
/-- The pipe is the last subscriber of a prefix nobody else has asked for. -/
theorem Inv.rmResult_eq (h : Inv pub leaked pipe ts s p) (hpub : pub.Listening)
    (hmem : topic ∈ ts) :
    MTrie.rmResult (p.subscriptions.pipesAt topic) pipe = .lastValueRemoved ↔
      topic ∉ pub.subscriptions.prefixes := by
  rw [h.pipesAt, if_pos hmem, MTrie.rmResult, hpub.ok.mem_prefixes,
    Finset.erase_insert (hfresh topic)]
  by_cases hne : pub.subscriptions.pipesAt topic = ∅ <;> simp [hne]

theorem Inv.agree (h : Inv pub leaked pipe ts s p) {opts : List TopicOpt}
    (hrun : run step (connected pipe) opts = .ok s) (hts : topics opts = ts)
    (hfresh : ∀ k, pipe ∉ pub.subscriptions.pipesAt k) : Agree pub pipe opts := by
  refine ⟨s, p, hrun, h.read, fun k => ?_, fun k => by rw [h.refcount, hts]⟩
  rw [h.mem_pipesAt hfresh, h.refcount, count_pos]

/-- The publisher reads what one option has added to the stream. -/
theorem Inv.readAll_append {s' : XSub} {msgs : List Msg} (h : Inv pub leaked pipe ts s p)
    (hem : XSub.Emits s s' msgs) :
    pub.readAll pipe (s'.pipes pipe).sent = p.readAll pipe msgs := by
  rw [hem.sent pipe (by rw [h.items]; exact List.mem_singleton.mpr rfl), XPub.readAll_append,
    h.read]

theorem Inv.subscribe (h : Inv pub leaked pipe ts s p) (hroom : ts.count topic + 1 < 2 ^ 32) :
    ∃ s' p', step s (.subscribe topic) = .ok s' ∧ Inv pub leaked pipe (topic ::ₘ ts) s' p' := by
  have hroom' : s.subscriptions.trie.refcount topic + 1 < 2 ^ 32 := by
    rw [h.refcount]
    exact hroom
  obtain ⟨subs, hadd, hset⟩ := Sub.subscribe_spec h.quiet h.wf hroom'
  obtain ⟨p', hp', hlis, hpipes, hcounts⟩ := processMsg_subscribe pipe h.listening
    (Msg.initSubscribe_more topic) (request_initSubscribe topic)
  have hem := h.fed.emits_sendToAll (Sub.withSubscriptions s subs) rfl rfl
    (Msg.initSubscribe_more topic)
  refine ⟨_, p', hset, ?_⟩
  refine ⟨(Sub.withSubscriptions_quiet h.quiet subs).sendToAll _, hadd.wf, hem.fed h.fed,
    hem.items.trans h.items, fun k => ?_, fun k => ?_, ?_, hlis, hcounts leaked h.counts,
    fun k => ?_⟩
  · refine (hadd.refcount k).trans ?_
    rw [h.refcount, h.refcount]
    by_cases hk : k = topic
    · rw [if_pos hk, hk, count_cons_self]
    · rw [if_neg hk, count_cons_of_ne hk]
  · by_cases hk : k = topic
    · rw [hk, count_cons_self]
      exact hroom
    · rw [count_cons_of_ne hk]
      exact h.small k
  · rw [h.readAll_append hem, readAll, hp']
    rfl
  · rw [hpipes, h.pipesAt, h.pipesAt]
    by_cases hk : k = topic
    · subst hk
      by_cases hmem : k ∈ ts <;> simp [hmem]
    · by_cases hmem : k ∈ ts <;> simp [hk, hmem]

include hpub hfresh in
theorem Inv.unsubscribe (h : Inv pub leaked pipe ts s p)
    (hsound : Sound pub leaked ts (.unsubscribe topic)) :
    ∃ s' p', step s (.unsubscribe topic) = .ok s' ∧ Inv pub leaked pipe (ts.erase topic) s' p' := by
  obtain ⟨hhead, hnum⟩ := hsound
  obtain ⟨subs, hrm, hset⟩ := Sub.unsubscribe_spec h.quiet h.wf hhead
  have hq := Sub.withSubscriptions_quiet h.quiet subs
  have hcount : ∀ k, subs.trie.refcount k = (ts.erase topic).count k := by
    intro k
    rw [hrm.refcount, h.refcount, h.refcount]
    by_cases hk : k = topic
    · rw [if_pos hk, hk, count_erase_self]
    · rw [if_neg hk, count_erase_of_ne hk]
  have hsmall : ∀ k, (ts.erase topic).count k < 2 ^ 32 := fun k =>
    Nat.lt_of_le_of_lt (count_le_of_le k (erase_le topic ts)) (h.small k)
  by_cases hone : s.subscriptions.trie.refcount topic = 1
  · -- The cancel message goes out, and the publisher forgets the pipe.
    have hone' : ts.count topic = 1 := by rw [← h.refcount, hone]
    have hmem : topic ∈ ts := count_pos.mp (by omega)
    have hpos : MTrie.rmResult (p.subscriptions.pipesAt topic) pipe = .lastValueRemoved →
        0 < p.subscriptions.numPrefixes := by
      intro hlast
      have := hnum hone' ((h.rmResult_eq hfresh hpub hmem).mp hlast)
      rw [h.counts, h.prefixes hpub]
      omega
    obtain ⟨p', hp', hlis, hpipes, hcounts⟩ := processMsg_cancel h.listening
      (Msg.initCancel_more topic) (request_initCancel topic) hpos
    have hem := h.fed.emits_sendToAll (Sub.withSubscriptions s subs) rfl rfl
      (Msg.initCancel_more topic)
    rw [if_pos hone] at hset
    refine ⟨_, p', hset, hq.sendToAll _, hrm.wf, hem.fed h.fed, hem.items.trans h.items, hcount,
      hsmall, ?_, hlis, hcounts leaked h.counts, fun k => ?_⟩
    · rw [h.readAll_append hem, readAll, hp']
      rfl
    rw [hpipes, h.pipesAt, h.pipesAt]
    by_cases hk : k = topic
    · subst hk
      have hnot : k ∉ ts.erase k := by rw [← count_eq_zero, count_erase_self, hone']
      rw [if_pos rfl, if_pos hmem, if_neg hnot, Finset.erase_insert (hfresh k)]
    · rw [if_neg hk]
      simp only [mem_erase_of_ne hk]
  · have hem : XSub.Emits s (Sub.withSubscriptions s subs) [] := h.fed.emits_nil rfl rfl
    rw [if_neg hone] at hset
    refine ⟨_, p, hset, hq, hrm.wf, hem.fed h.fed, hem.items.trans h.items, hcount, hsmall, ?_,
      h.listening, h.counts, fun k => ?_⟩
    · rw [h.readAll_append hem]
      rfl
    have hsame : k ∈ ts.erase topic ↔ k ∈ ts := by
      rw [← count_pos, ← count_pos]
      by_cases hk : k = topic
      · rw [h.refcount] at hone
        rw [hk, count_erase_self]
        omega
      · rw [count_erase_of_ne hk]
    rw [h.pipesAt]
    simp only [hsame]

/-- Every sound option is followed by both sides. -/
theorem Inv.step (h : Inv pub leaked pipe ts s p) (hpub : pub.Listening)
    (hfresh : ∀ k, pipe ∉ pub.subscriptions.pipesAt k) {opts : List TopicOpt} {opt : TopicOpt}
    (hts : topics opts = ts) (hsound : Sound pub leaked ts opt) :
    ∃ s' p', step s opt = .ok s' ∧ Inv pub leaked pipe (topics (opts ++ [opt])) s' p' := by
  cases opt with
  | subscribe topic =>
    rw [topics_append_subscribe, hts]
    exact h.subscribe hsound
  | unsubscribe topic =>
    rw [topics_append_unsubscribe, hts]
    exact h.unsubscribe hpub hfresh hsound

/-! ### An option that is not sound -/

theorem Inv.sound_subscribe (h : Inv pub leaked pipe ts s p) {s' : XSub}
    (hset : Agreement.step s (.subscribe topic) = .ok s')
    (hcount : s'.subscriptions.trie.refcount topic = (topic ::ₘ ts).count topic) :
    ts.count topic + 1 < 2 ^ 32 := by
  obtain ⟨s'', hset', href⟩ := Sub.subscribe_refcount h.quiet h.wf topic
  cases hset.symm.trans hset'
  rw [h.refcount, hcount, count_cons_self] at href
  omega

include hpub hfresh in
theorem Inv.sound_unsubscribe (h : Inv pub leaked pipe ts s p) {s' : XSub} {p' : XPub}
    (hset : Agreement.step s (.unsubscribe topic) = .ok s')
    (hread : pub.readAll pipe (s'.pipes pipe).sent = .ok p')
    (hcount : ∀ k, s'.subscriptions.trie.refcount k = (ts.erase topic).count k) :
    Sound pub leaked ts (.unsubscribe topic) := by
  have hhead : topic.head? ≠ some 1 := by
    intro hhead
    obtain ⟨rest, rfl⟩ : ∃ rest, topic = 1 :: rest := by
      cases topic with
      | nil => cases hhead
      | cons b rest => exact ⟨rest, by simpa using hhead⟩
    obtain ⟨s'', hset', href⟩ := Sub.unsubscribe_marked_refcount h.quiet h.wf rest
    cases hset.symm.trans hset'
    have hne : rest ≠ 1 :: rest := fun heq => by simpa using congrArg List.length heq
    rw [h.refcount, hcount, count_erase_of_ne hne] at href
    omega
  refine ⟨hhead, fun hone hnot hzero => ?_⟩
  obtain ⟨subs, -, hset'⟩ := Sub.unsubscribe_spec h.quiet h.wf hhead
  rw [if_pos (by rw [h.refcount, hone])] at hset'
  cases hset.symm.trans hset'
  have hmem : topic ∈ ts := count_pos.mp (by omega)
  have hlast := (h.rmResult_eq hfresh hpub hmem).mpr hnot
  have hnum : p.subscriptions.numPrefixes = 0 := by
    rw [h.counts, h.prefixes hpub]
    exact hzero
  have hem := h.fed.emits_sendToAll (Sub.withSubscriptions s subs) rfl rfl
    (Msg.initCancel_more topic)
  rw [h.readAll_append hem, readAll,
    processMsg_cancel_fault h.listening (request_initCancel topic) hlast hnum] at hread
  cases hread

include hpub hfresh in
/-- If both sides agree after one option more, that option was sound. -/
theorem Inv.sound (h : Inv pub leaked pipe ts s p) {opts : List TopicOpt} {opt : TopicOpt}
    (hrun : run Agreement.step (connected pipe) opts = .ok s)
    (hts : topics opts = ts) (hagree : Agree pub pipe (opts ++ [opt])) :
    Sound pub leaked ts opt := by
  obtain ⟨s', p', hrun', hread, -, hcount⟩ := hagree
  rw [run_append_of_ok _ hrun] at hrun'
  have hset : Agreement.step s opt = .ok s' := by
    cases hs : Agreement.step s opt with
    | error e => simp [run, hs] at hrun'
    | ok s1 =>
      rw [run_cons_ok _ hs] at hrun'
      simpa using hrun'
  cases opt with
  | subscribe topic =>
    simp only [topics_append_subscribe, hts] at hcount
    exact h.sound_subscribe hset (hcount topic)
  | unsubscribe topic =>
    simp only [topics_append_unsubscribe, hts] at hcount
    exact h.sound_unsubscribe hpub hfresh hset hread hcount

/-! ### Whole runs -/

theorem connected_inv (hpub : pub.Listening) (hcounts : pub.subscriptions.Counts leaked) :
    Inv pub leaked pipe 0 (connected pipe) pub := by
  have hnot : pipe ∉ XSub.new.dist.pipes.items := by simp [XSub.new, Dist.empty, ArrayT.empty]
  obtain ⟨hfed, hitems, hself, -⟩ := XSub.new_fed.attachNew hnot
  exact ⟨⟨rfl, rfl, rfl, rfl⟩, Trie.empty_wf, hfed, hitems, fun k => Trie.refcount_empty k,
    fun k => by simp, by rw [connected, hself]; rfl, hpub, hcounts, fun k => by simp⟩

include hpub hfresh in
theorem inv_of_sound (hcounts : pub.subscriptions.Counts leaked) (opts : List TopicOpt)
    (hsound : ∀ pre opt, pre ++ [opt] <+: opts → Sound pub leaked (topics pre) opt) :
    ∃ s p, run Agreement.step (connected pipe) opts = .ok s ∧
      Inv pub leaked pipe (topics opts) s p := by
  induction opts using List.reverseRecOn with
  | nil => exact ⟨_, _, rfl, connected_inv hpub hcounts⟩
  | append_singleton opts opt ih =>
    obtain ⟨s, p, hrun, h⟩ := ih fun pre o hpre =>
      hsound pre o (hpre.trans (List.prefix_append opts [opt]))
    obtain ⟨s', p', hstep, h'⟩ := h.step hpub hfresh rfl
      (hsound opts opt (List.prefix_refl (opts ++ [opt])))
    refine ⟨s', p', ?_, h'⟩
    rw [run_append_of_ok _ hrun, run_cons_ok _ hstep, run_nil]

end Run

/-- **Agreement.** A publisher that is not in manual mode, with a well-formed store that
has nothing for the pipe, agrees with the subscriber throughout a sequence of options iff
every option is sound. -/
theorem agree_iff {pub : XPub} {leaked : Nat} {pipe : PipeId} (hpub : pub.Listening)
    (hcounts : pub.subscriptions.Counts leaked)
    (hfresh : ∀ k, pipe ∉ pub.subscriptions.pipesAt k) (opts : List TopicOpt) :
    (∀ pre, pre <+: opts → Agree pub pipe pre) ↔
      ∀ pre opt, pre ++ [opt] <+: opts → Sound pub leaked (topics pre) opt := by
  constructor
  · intro hagree
    -- An option is reached with the invariant because the options before it are sound.
    induction opts using List.reverseRecOn with
    | nil =>
      intro pre opt hpre
      simp at hpre
    | append_singleton opts opt ih =>
      have hsound := ih fun pre hpre => hagree pre (hpre.trans (List.prefix_append opts [opt]))
      intro pre opt' hpre
      rcases List.prefix_concat_iff.mp hpre with heq | hpre
      · obtain ⟨rfl, rfl⟩ : pre = opts ∧ opt' = opt := by simpa using heq
        obtain ⟨s, p, hrun, h⟩ := inv_of_sound hpub hfresh hcounts pre hsound
        exact h.sound hpub hfresh hrun rfl (hagree _ (List.prefix_refl (pre ++ [opt'])))
      · exact hsound pre opt' hpre
  · intro hsound pre hpre
    obtain ⟨s, p, hrun, h⟩ := inv_of_sound hpub hfresh hcounts pre fun q opt hq =>
      hsound q opt (hq.trans hpre)
    exact h.agree hrun rfl hfresh

/-- Two subscriptions to a topic, one of them given up, with a fresh publisher. -/
theorem agree_subscribe_twice :
    (∀ pre, pre <+: [TopicOpt.subscribe [97], .subscribe [97], .unsubscribe [97]] →
        Agree new 1 pre) ↔
      ∀ pre opt, pre ++ [opt] <+: [TopicOpt.subscribe [97], .subscribe [97], .unsubscribe [97]] →
        Sound new 0 (topics pre) opt :=
  agree_iff new_listening MTrie.empty_counts (fun k => by simp [new]) _

/-- Giving up a topic that starts with the byte 1 leaves the subscriber with a count for
the rest of the topic that the publisher knows nothing of. -/
theorem not_agree_unsubscribe_marked : ¬ Agree new 1 [.unsubscribe [1, 97]] := by
  rintro ⟨s, p, hrun, hread, hset, -⟩
  cases hrun
  cases hread
  exact absurd ((hset [97]).mpr (by decide)) (by decide)

end Agreement

end ServerLink

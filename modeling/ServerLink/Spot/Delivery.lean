import ServerLink.Spot.Publish

/-!
# ServerLink.Spot.Delivery

Which messages an instance receives. An exact subscription and a pattern without `'*'`
become a filter like every other pattern, and the publisher matches filters as prefixes:
the messages of every topic that merely extends the subscribed one come along.
`receives_covered` says that nothing else does: a message that no subscription covers is
received only then, or while a request is on its way.
-/

namespace ServerLink

namespace SpotPubsub

open SubscriptionManager

/-- An exact subscription or a pattern is for the topic. -/
def Covered (s : SpotPubsub) (topicId : TopicId) : Prop :=
  s.subManager.exactSubscriptions.subscribers topicId ≠ [] ∨
    ∃ pattern ∈ s.subManager.patternSubscriptions.keys, matchesPattern pattern topicId = true

/-- The topic does not extend one that is subscribed to by its name, as a topic or as a
pattern. -/
def Clear (s : SpotPubsub) (topicId : TopicId) : Prop :=
  ∀ key, key <+: topicId → key ≠ topicId → s.subManager.exactSubscriptions.subscribers key = [] ∧
      (star ∉ key → key ∉ s.subManager.patternSubscriptions.keys)

variable {s : SpotPubsub} {topicId key : TopicId}

/-- A filter that is a prefix of the topic comes from a subscription that covers it. -/
theorem Clear.covered (h : s.Clear topicId) (hpos : 0 < s.subManager.filters key)
    (hpre : key <+: topicId) : s.Covered topicId := by
  by_cases hpattern : 0 < s.subManager.patternFilters key
  · obtain ⟨pattern, hmem, rfl⟩ := patternFilters_pos.mp hpattern
    refine Or.inr ⟨pattern, hmem, matchesPattern_iff.mpr ?_⟩
    by_cases hstar : star ∈ pattern
    · exact Or.inr ⟨hstar, hpre⟩
    -- A pattern without a star is its own filter, and the topic does not extend it.
    rw [patternPrefix_of_notMem hstar] at hpre
    refine Or.inl ⟨hstar, ?_⟩
    by_contra hne
    exact (h pattern hpre hne).2 hstar hmem
  · have hsubs : s.subManager.exactSubscriptions.subscribers key ≠ [] := by
      intro hnil
      rw [filters, hnil, List.length_nil] at hpos
      omega
    by_cases heq : key = topicId
    · exact Or.inl (heq ▸ hsubs)
    · exact absurd (h key hpre heq).1 hsubs

/-- A topic that extends a subscribed one has the filter of that one as a prefix. -/
theorem filter_of_not_clear (h : ¬ s.Clear topicId) :
    ∃ key, key <+: topicId ∧ 0 < s.subManager.filters key := by
  by_contra hnone
  refine h fun key hpre _ => ?_
  have hzero : ¬ 0 < s.subManager.filters key := fun hpos => hnone ⟨key, hpre, hpos⟩
  rw [filters] at hzero
  refine ⟨List.eq_nil_iff_length_eq_zero.mpr (by omega), fun hstar hmem => ?_⟩
  have hpattern := patternFilters_pos.mpr ⟨key, hmem, patternPrefix_of_notMem hstar⟩
  omega

end SpotPubsub

namespace SpotInstance

/-- The publisher has read every request. -/
def UpToDate (s : SpotInstance) : Prop := s.read = s.sent.length

/-- Publishing the message writes to the pipe of the receiving socket. -/
def Receives (s : SpotInstance) (topicId : TopicId) (data : List UInt8) : Prop :=
  ((s.publish topicId data).2.pub.ends 0).written ≠ (s.pub.ends 0).written

/-- The publisher knows the pipe, and the pipe has room. -/
structure Ready (s : SpotInstance) : Prop where
  attached : s.pub.attached 0
  notEnding : (s.pub.ends 0).ending = false
  room : (s.pub.ends 0).pipe.checkHwm = true

variable {s : SpotInstance} {topicId : TopicId} {data : List UInt8}

/-- The publisher's filters are the recorded ones. -/
theorem Inv.matches_iff (h : s.Inv) (hread : s.UpToDate) :
    s.pub.Matches (topicFrame topicId) 0 ↔
      ∃ key, key <+: topicId ∧ 0 < s.spot.subManager.filters key := by
  have hstore : ∀ key, 0 ∈ s.pub.xpub.subscriptions.pipesAt key ↔
      0 < s.spot.subManager.filters key := by
    intro key
    rw [h.store, hread, List.take_length]
    exact h.spot.tells.upstream 0 h.spot.wired.publisher key
  simp only [Publisher.Matches, topicFrame_data, hstore]

/-- A message that matches no filter is not received. -/
theorem Inv.matches_of_receives (h : s.Inv) (hrec : s.Receives topicId data) :
    s.pub.Matches (topicFrame topicId) 0 := by
  by_contra hno
  refine hrec ?_
  by_cases hlocal : ∃ entry, s.spot.registry.lookup topicId = some entry ∧
      entry.location = .localTopic
  · obtain ⟨entry, hreg, hloc⟩ := hlocal
    obtain ⟨p1, p2, heq, hsent1, hsent2, -⟩ := h.publish_local data hreg hloc
    have hmark : ¬ s.pub.Marked (topicFrame topicId) 0 := by
      rw [Publisher.marked_first h.idle]
      exact fun hm => hno hm.1
    obtain ⟨hw1, hskip⟩ := hsent1.skipped hmark
    have hskip := hskip (topicFrame_more topicId)
    have hmark2 : ¬ p1.Marked (dataFrame data) 0 := by
      simp only [Publisher.Marked, hskip.moreSend, if_true]
      exact hskip.matching
    rw [heq]
    exact (hsent2.skipped hmark2).1.trans hw1
  · rw [publish_other fun entry hreg hloc => hlocal ⟨entry, hreg, hloc⟩]

/-- A message on a local topic that matches a filter is received if there is room. -/
theorem Inv.receives_of_matches (h : s.Inv) (hready : s.Ready) {entry : TopicEntry}
    (hreg : s.spot.registry.lookup topicId = some entry) (hloc : entry.location = .localTopic)
    (hmatch : s.pub.Matches (topicFrame topicId) 0) : s.Receives topicId data := by
  obtain ⟨p1, p2, heq, hsent1, hsent2, -⟩ := h.publish_local data hreg hloc
  have hI := h.reached.inv
  have hact : (s.pub.ends 0).pipe.outActive = true := by
    by_contra hact
    have := (hI.ends 0 hready.attached).stopped hready.notEnding (by simpa using hact)
    rw [hready.room] at this
    cases this
  have hmark := (Publisher.marked_first h.idle).mpr
    ⟨hmatch, hI.awake 0 hready.attached hready.notEnding hact⟩
  obtain ⟨-, -, htaking⟩ :=
    hsent1.taken hI hready.attached hmark hready.notEnding hready.room
  have htaking := htaking (topicFrame_more topicId)
  have hmark2 : p1.Marked (dataFrame data) 0 := by
    simp only [Publisher.Marked, htaking.moreSend, if_true]
    exact htaking.matching
  obtain ⟨hw2, -⟩ :=
    hsent2.taken hsent1.inv htaking.attached hmark2 htaking.notEnding htaking.room
  rw [Receives, heq, hw2, htaking.written]
  intro hlist
  simpa using congrArg List.length hlist

/-- **Delivery.** In every state that admissible events lead to, with every request read by
the publisher: a message on a topic that does not extend a subscribed one is received only
if a subscription covers the topic. The condition on the topic is sharp: where there is room for
the message, one on a local topic that extends a subscribed one, and that nothing else covers, is
received as well. -/
theorem receives_covered {inprocEndpoint : Uri} {events : List SpotEvent}
    (hadm : CheckedRun.Along step Admissible (new inprocEndpoint) events) :
    ∃ s, CheckedRun.run step (new inprocEndpoint) events = .ok s ∧
      (s.UpToDate → ∀ topicId data,
        (s.spot.Clear topicId → s.Receives topicId data → s.spot.Covered topicId) ∧
        (s.Ready → ∀ entry, s.spot.registry.lookup topicId = some entry →
          entry.location = .localTopic → ((s.Receives topicId data → s.spot.Covered topicId) ↔
            s.spot.Clear topicId ∨ s.spot.Covered topicId))) := by
  obtain ⟨s, hrun, h⟩ :=
    CheckedRun.run_ok_of_step (fun _ _ h hadm => h.step hadm) (new_inv inprocEndpoint) hadm
  refine ⟨s, hrun, fun hread topicId data => ?_⟩
  have hclear : s.spot.Clear topicId → s.Receives topicId data → s.spot.Covered topicId := by
    intro hclear hrec
    obtain ⟨key, hpre, hpos⟩ := (h.matches_iff hread).mp (h.matches_of_receives hrec)
    exact hclear.covered hpos hpre
  refine ⟨hclear, fun hready entry hreg hloc => ⟨fun hcov => ?_, fun hor hrec => ?_⟩⟩
  · refine or_iff_not_imp_left.mpr fun hnot => hcov ?_
    exact h.receives_of_matches hready hreg hloc
      ((h.matches_iff hread).mpr (SpotPubsub.filter_of_not_clear hnot))
  · exact hor.elim (hclear · hrec) id

/-- The pipe of the receiving socket. -/
def localEnd : NewOutbound := Publisher.newEnd 1000 (by decide)

/-- Two topics, a subscription and a pattern, and the publisher reports what it has read. -/
def twoTopics : List SpotEvent :=
  [.call (.topicCreate [97]), .call (.topicCreate [98, 99]), .attach localEnd,
    .call (.subscribe [97]), .read, .requestsRead 0 1, .call (.subscribePattern [98, 42]), .read]

/-- The topic of the subscription is received, and covered. -/
theorem receives_covered_twoTopics :
    ∃ s, CheckedRun.run step (new []) twoTopics = .ok s ∧ s.UpToDate ∧ s.Receives [97] [1] ∧
      s.spot.Covered [97] := by
  obtain ⟨s, hrun, hcov⟩ := @receives_covered [] twoTopics (by decide +kernel)
  have hreach : CheckedRun.reaches step (new []) twoTopics (fun s => decide
      (s.read = s.sent.length ∧ ((s.publish [97] [1]).2.pub.ends 0).written.length = 2 ∧
        (s.pub.ends 0).written.length = 0 ∧
        s.spot.subManager.exactSubscriptions.subscribers [] = [] ∧
        s.spot.subManager.patternSubscriptions.keys = [[98, 42]])) = true := by
    decide +kernel
  obtain ⟨s', hrun', hs⟩ := CheckedRun.of_reaches hreach
  cases hrun.symm.trans hrun'
  obtain ⟨hread, hafter, hbefore, hexact, hpatterns⟩ := of_decide_eq_true hs
  have hrec : s.Receives [97] [1] := by
    intro heq
    rw [heq, hbefore] at hafter
    cases hafter
  refine ⟨s, hrun, hread, hrec, ((hcov hread) [97] [1]).1 (fun key hpre hne => ?_) hrec⟩
  -- A proper prefix of one byte is empty.
  obtain rfl : key = [] := (List.prefix_cons_iff.mp hpre).resolve_right
    fun ⟨rest, hkey, hnil⟩ => hne (by rw [hkey, List.prefix_nil.mp hnil])
  exact ⟨hexact, fun _ => by simp [hpatterns]⟩

/-- The topic `ab` is published while `a` alone is subscribed to, and is received. -/
theorem receives_extended_topic :
    ∃ s, CheckedRun.run step (new []) [.call (.topicCreate [97]), .call (.topicCreate [97, 98]),
        .attach localEnd, .call (.subscribe [97]), .read] = .ok s ∧
      s.UpToDate ∧ s.Receives [97, 98] [1] ∧
      s.spot.subManager.exactSubscriptions.subscribers [97, 98] = [] ∧
      s.spot.subManager.patternSubscriptions.keys = [] := by
  have hreach : CheckedRun.reaches step (new []) [.call (.topicCreate [97]),
      .call (.topicCreate [97, 98]), .attach localEnd, .call (.subscribe [97]), .read]
      (fun s => decide (s.read = s.sent.length ∧
        ((s.publish [97, 98] [1]).2.pub.ends 0).written.length = 2 ∧
        (s.pub.ends 0).written.length = 0 ∧
        s.spot.subManager.exactSubscriptions.subscribers [97, 98] = [] ∧
        s.spot.subManager.patternSubscriptions.keys = [])) = true := by
    decide +kernel
  obtain ⟨s, hrun, hs⟩ := CheckedRun.of_reaches hreach
  obtain ⟨hread, hafter, hbefore, hexact, hpatterns⟩ := of_decide_eq_true hs
  refine ⟨s, hrun, hread, fun heq => ?_, hexact, hpatterns⟩
  rw [heq, hbefore] at hafter
  cases hafter

end SpotInstance

end ServerLink

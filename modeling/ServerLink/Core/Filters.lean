import ServerLink.Core.Upstream

/-!
# ServerLink.Core.Filters

An XSUB socket whose user counts the filters it has asked for. `XSub.Tells n` says that
the trie counts the same and that every attached publisher has been told of exactly the
filters with a positive count. Each operation moves one count and says what it sends, provided that
no attached pipe is full: a request that a pipe refuses is dropped, and the call succeeds.
-/

namespace ServerLink

open Function

namespace XSub

/-- The socket counts `n` and has told every publisher. -/
structure Tells (s : XSub) (n : List UInt8 → Nat) : Prop where
  quiet : s.Quiet
  wf : s.subscriptions.trie.WF
  calm : s.Calm
  refcount : ∀ k, s.subscriptions.trie.refcount k = n k
  upstream : ∀ p ∈ s.dist.pipes.items, ∀ k, k ∈ XPub.subscribed (s.pipes p).sent ↔ 0 < n k

theorem new_tells : new.Tells fun _ => 0 where
  quiet := new_quiet
  wf := Trie.empty_wf
  calm := new_fed.toCalm
  refcount := Trie.refcount_empty
  upstream := by simp [new, Dist.empty, ArrayT.empty]

variable {s : XSub} {n : List UInt8 → Nat} {room : Option Nat}

/-- A subscribe message is counted and goes to every publisher. -/
theorem Tells.subscribe (h : s.Tells n) (hroomy : s.Roomy) {topic : List UInt8}
    (hroom : n topic + 1 < 2 ^ 32) :
    ∃ s', s.xsend (.initSubscribe topic) = .ok s' ∧
      s'.Tells (update n topic (n topic + 1)) ∧
      Emits s s' [.initSubscribe topic] := by
  obtain ⟨subs, hadd, hset⟩ := Sub.subscribe_spec h.quiet h.wf (by rw [h.refcount]; exact hroom)
  have hem := h.calm.emits_sendToAll hroomy (Sub.withSubscriptions s subs) rfl rfl
    (Msg.initSubscribe_more topic)
  refine ⟨_, Sub.xsend_of_subscribe hset, ⟨?_, hadd.wf, hem.calm, fun k => ?_,
    fun p hp k => ?_⟩, hem⟩
  · exact (Sub.withSubscriptions_quiet h.quiet subs).sendToAll _
  · refine (hadd.refcount k).trans ?_
    rw [h.refcount, h.refcount, update_apply]
  · rw [hem.items] at hp
    rw [hem.sent p hp, XPub.subscribed_append_subscribe, Finset.mem_insert, h.upstream p hp,
      update_apply]
    by_cases hk : k = topic <;> simp [hk]

/-- What a cancel message sends upstream: the last one of a topic only. -/
def cancels (n : List UInt8 → Nat) (topic : List UInt8) : List Msg :=
  if n topic = 1 then [.initCancel topic] else []

/-- A cancel message is counted, and the last one of a topic goes to every publisher. -/
theorem Tells.cancel (h : s.Tells n) {topic : List UInt8} (hroomy : n topic = 1 → s.Roomy)
    (hhead : topic.head? ≠ some 1) :
    ∃ s', s.xsend (.initCancel topic) = .ok s' ∧
      s'.Tells (update n topic (n topic - 1)) ∧ Emits s s' (cancels n topic) := by
  obtain ⟨subs, hrm, hset⟩ := Sub.unsubscribe_spec h.quiet h.wf hhead
  have hq := Sub.withSubscriptions_quiet h.quiet subs
  have href : ∀ k, subs.trie.refcount k = update n topic (n topic - 1) k := by
    intro k
    rw [hrm.refcount, h.refcount, h.refcount, update_apply]
  rw [h.refcount] at hset
  refine ⟨_, Sub.xsend_of_unsubscribe hset, ?_⟩
  by_cases hone : n topic = 1
  · rw [if_pos hone, cancels, if_pos hone]
    have hem := h.calm.emits_sendToAll (hroomy hone) (Sub.withSubscriptions s subs) rfl rfl
      (Msg.initCancel_more topic)
    refine ⟨⟨hq.sendToAll _, hrm.wf, hem.calm, href, fun p hp k => ?_⟩, hem⟩
    rw [hem.items] at hp
    rw [hem.sent p hp, XPub.subscribed_append_cancel, Finset.mem_erase, h.upstream p hp,
      update_apply]
    by_cases hk : k = topic <;> simp [hk, hone]
  rw [if_neg hone, cancels, if_neg hone]
  have hem : Emits s (Sub.withSubscriptions s subs) [] := h.calm.emits_nil rfl rfl
  refine ⟨⟨hq, hrm.wf, hem.calm, href, fun p hp k => ?_⟩, hem⟩
  rw [hem.items] at hp
  rw [hem.sent p hp, List.append_nil, h.upstream p hp, update_apply]
  split
  · rename_i hk
    rw [hk]
    omega
  · rfl

/-- A publisher that is attached late is told of every filter. -/
theorem Tells.attach (h : s.Tells n) {pipe : PipeId} (hnot : pipe ∉ s.dist.pipes.items)
    (hroom : ∀ n, room = some n → s.subscriptions.keys.length ≤ n) :
    (s.attachNew pipe room).Tells n ∧
      (s.attachNew pipe room).dist.pipes.items = s.dist.pipes.items ++ [pipe] ∧
      ((s.attachNew pipe room).pipes pipe).room = room.map (· - s.subscriptions.keys.length) ∧
      ∀ q, q ≠ pipe → (s.attachNew pipe room).pipes q = s.pipes q := by
  obtain ⟨hcalm, hitems, hself, hothers⟩ := h.calm.attachNew hnot hroom
  refine ⟨⟨⟨h.quiet.moreSend, h.quiet.onlyFirstSubscribe, h.quiet.verboseUnsubs,
    h.quiet.invertMatching⟩, h.wf, hcalm, h.refcount, fun p hp k => ?_⟩, hitems, by rw [hself],
    hothers⟩
  rw [hitems, List.mem_append, List.mem_singleton] at hp
  by_cases heq : p = pipe
  · rw [heq, hself, Upstream.subscribed_map_initSubscribe, TrieWithSize.mem_keys_toFinset h.wf,
      h.refcount, Nat.pos_iff_ne_zero]
  · rw [hothers p heq]
    exact h.upstream p (hp.resolve_right heq) k

/-- No pipe has refused a message, so that nothing but the room changes. -/
theorem Tells.processActivateWrite (h : s.Tells n) {pipe : PipeId}
    (hmem : pipe ∈ s.dist.pipes.items) :
    (s.processActivateWrite pipe room).Tells n ∧
      (s.processActivateWrite pipe room).dist = s.dist ∧
      ∀ p, ((s.processActivateWrite pipe room).pipes p).sent = (s.pipes p).sent := by
  have hactive : s.dist.pipes.index pipe < s.dist.eligible := by
    rw [h.calm.dist.eligible]
    exact h.calm.dist.pipes.index_lt hmem
  have hsame : ∀ p, (update s.pipes pipe { s.pipes pipe with room } p).sent = (s.pipes p).sent ∧
      (update s.pipes pipe { s.pipes pipe with room } p).unflushed = (s.pipes p).unflushed := by
    intro p
    by_cases hp : p = pipe
    · subst hp
      simp only [update_self, and_self]
    · simp only [update_of_ne hp, and_self]
  simp only [XSub.processActivateWrite, if_pos hactive]
  refine ⟨⟨⟨h.quiet.moreSend, h.quiet.onlyFirstSubscribe, h.quiet.verboseUnsubs,
    h.quiet.invertMatching⟩, h.wf, ⟨h.calm.dist, fun p hp => ?_⟩, h.refcount, fun p hp k => ?_⟩,
    trivial, fun p => (hsame p).1⟩
  · exact (hsame p).2.trans (h.calm.flushed p hp)
  · rw [(hsame p).1]
    exact h.upstream p hp k

theorem Tells.detach (h : s.Tells n) {pipe : PipeId} (hmem : pipe ∈ s.dist.pipes.items) :
    (s.xpipeTerminated pipe).Tells n ∧ ∀ q, q ∈ (s.xpipeTerminated pipe).dist.pipes.items ↔
        q ∈ s.dist.pipes.items ∧ q ≠ pipe := by
  obtain ⟨hcalm, hitems⟩ := h.calm.terminated hmem
  exact ⟨⟨⟨h.quiet.moreSend, h.quiet.onlyFirstSubscribe, h.quiet.verboseUnsubs,
    h.quiet.invertMatching⟩, h.wf, hcalm, h.refcount,
    fun p hp => h.upstream p ((hitems p).mp hp).1⟩, hitems⟩

end XSub

end ServerLink

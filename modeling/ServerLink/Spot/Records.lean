import ServerLink.Spot.SpotPubsub

/-!
# ServerLink.Spot.Records

The records of a SPOT instance and the filters of its receiving socket. In every run in
which the socket operations succeed the trie of the socket counts the records, and every
connected publisher has been told of them, provided that no topic that is unsubscribed
from starts with the byte 1 (`xsub_t::xsend` takes such a cancel message for a
subscription), that the counts stay below 2^31, and that no request finds a pipe full
(it is dropped then).
-/

namespace ServerLink

namespace SpotPubsub

open SubscriptionManager List Function SubscriberTable

/-- The records are those of the instance, at most one of a type under a topic. -/
structure Tidy (m : SubscriptionManager) : Prop where
  own : Own m.exactSubscriptions
  nodup : ∀ key, (m.exactSubscriptions.subscribers key).Nodup
  patterns : ∀ key, m.patternSubscriptions.subscribers key = [] ∨
    m.patternSubscriptions.subscribers key = [subscriber .localSocket]
  small : m.size ≤ 2 ^ 31

/-- Pipe 0 stays, every other endpoint has a pipe of its own. -/
structure Wired (items : List PipeId) (endpoints : AList fun _ : Uri => PipeId)
    (nextPipe : PipeId) : Prop where
  publisher : 0 ∈ items
  fresh : ∀ p ∈ items, p < nextPipe
  connected : ∀ endpoint p, endpoints.lookup endpoint = some p → p ∈ items ∧ p ≠ 0
  apart : ∀ endpoint endpoint' p, endpoints.lookup endpoint = some p →
    endpoints.lookup endpoint' = some p → endpoint = endpoint'

/-- What the calls keep. -/
structure Inv (s : SpotPubsub) : Prop where
  tells : s.recvSocket.Tells s.subManager.filters
  tidy : Tidy s.subManager
  wired : Wired s.recvSocket.dist.pipes.items s.connectedEndpoints s.nextPipe

/-- A new pipe has room for the filters that are active, and for `more` besides. -/
def Announces (s : SpotPubsub) (more : Nat) : Prop :=
  s.recvSocket.subscriptions.keys.length + more ≤ sndhwm

instance (s : SpotPubsub) (more : Nat) : Decidable (s.Announces more) :=
  inferInstanceAs (Decidable (_ ≤ _))

/-- A call that runs into neither of the two defects of the counts, and whose requests find room
in every pipe. -/
def Admissible (s : SpotPubsub) : SpotCall → Prop
  | .subscribe topicId =>
    s.subManager.size < 2 ^ 31 ∧ s.recvSocket.Roomy ∧ (s.connects topicId = true → s.Announces 1)
  | .subscribePattern _ => s.subManager.size < 2 ^ 31 ∧ s.recvSocket.Roomy
  | .unsubscribe topicId =>
    topicId.head? ≠ some 1 ∧ (s.subManager.filters topicId = 1 → s.recvSocket.Roomy)
  | .clusterAdd _ => s.Announces 0
  | _ => True

instance (s : SpotPubsub) (c : SpotCall) : Decidable (s.Admissible c) := by
  unfold Admissible
  split <;> infer_instance

/-- The local publisher is sent at most one request. -/
def Requests (s s' : SpotPubsub) : Prop :=
  ∃ msgs, (s'.recvSocket.pipes 0).sent = (s.recvSocket.pipes 0).sent ++ msgs ∧
    msgs.length ≤ 1 ∧ ∀ m ∈ msgs, m.more = false ∧ (XPub.request m).isSome = true

variable {s s' : SpotPubsub} {topicId pattern : TopicId} {type : SubscriberType}

theorem Requests.refl (s : SpotPubsub) : Requests s s :=
  ⟨[], by simp, Nat.zero_le _, by simp⟩

theorem new_inv (inprocEndpoint : Uri) : (new inprocEndpoint).Inv := by
  have hnot : 0 ∉ XSub.new.dist.pipes.items := by simp [XSub.new, Dist.empty, ArrayT.empty]
  have hkeys : ∀ n, some sndhwm = some n → XSub.new.subscriptions.keys.length ≤ n :=
    fun n _ => Nat.zero_le n
  obtain ⟨htells, -⟩ := XSub.new_tells.attach hnot hkeys
  have hitems : (XSub.new.attachNew 0 (some sndhwm)).dist.pipes.items = [0] := rfl
  refine ⟨htells, ⟨?_, fun _ => nodup_nil, fun _ => Or.inl rfl, Nat.zero_le _⟩, ?_⟩
  · intro key x hx
    cases hx
  refine ⟨by simp [new, hitems], by simp [new, hitems], ?_, ?_⟩
  · intro endpoint p h
    cases h
  · intro endpoint endpoint' p h
    cases h

/-! ### The counts -/

variable {m : SubscriptionManager}

theorem Tidy.length_le (h : Tidy m) (key : TopicId) :
    (m.exactSubscriptions.subscribers key).length ≤ 2 := by
  have hsub : m.exactSubscriptions.subscribers key ⊆
      [subscriber .localSocket, subscriber .remoteNode] := by
    intro x hx
    obtain ⟨type, rfl⟩ := h.own key x hx
    cases type <;> simp
  exact (subperm_of_subset (h.nodup key) hsub).length_le

theorem Tidy.filters_le (h : Tidy m) (key : TopicId) : m.filters key ≤ 2 ^ 31 + 2 := by
  have hexact := h.length_le key
  have hpattern : m.patternFilters key ≤ m.patternSubscriptions.keys.length :=
    countP_le_length
  have hsmall := h.small
  rw [size] at hsmall
  rw [filters]
  omega

theorem filters_withRecord (s : SpotPubsub) (topicId : TopicId) (type : SubscriberType) :
    (s.withRecord topicId type).subManager.filters =
      update s.subManager.filters topicId (s.subManager.filters topicId + 1) := by
  rw [withRecord, filters_setExact, filters, length_append, length_singleton]
  congr 1
  omega

theorem filters_withoutRecord (h : s.recorded topicId type = true) :
    (s.withoutRecord topicId type).subManager.filters =
      update s.subManager.filters topicId (s.subManager.filters topicId - 1) := by
  obtain ⟨x, hmem, hsame⟩ := any_eq_true.mp h
  have hpos := length_pos_of_mem hmem
  rw [withoutRecord, filters_setExact, filters, length_eraseP_of_mem hmem hsame]
  congr 1
  omega

/-! ### The tables -/

/-- A record of a type that the topic does not have. -/
theorem Tidy.withRecord (h : Tidy s.subManager) (hnew : s.recorded topicId type = false)
    (hroom : s.subManager.size < 2 ^ 31) : Tidy (s.withRecord topicId type).subManager := by
  have hnot : subscriber type ∉ s.subManager.exactSubscriptions.subscribers topicId := by
    rw [← h.own.any_same, Bool.not_eq_true]
    exact hnew
  refine ⟨fun key x hx => ?_, fun key => ?_, h.patterns, ?_⟩
  · rw [SpotPubsub.withRecord, subscribers_set, update_apply] at hx
    split at hx
    · rcases mem_append.mp hx with hold | hx
      · exact h.own topicId x hold
      · exact ⟨type, mem_singleton.mp hx⟩
    · exact h.own key x hx
  · rw [SpotPubsub.withRecord, subscribers_set, update_apply]
    split
    · refine nodup_append.mpr ⟨h.nodup topicId, nodup_singleton _, ?_⟩
      intro x hx y hy heq
      rw [mem_singleton.mp hy] at heq
      exact hnot (heq ▸ hx)
    · exact h.nodup key
  · rw [size] at hroom
    calc (s.withRecord topicId type).subManager.size
        ≤ (s.subManager.exactSubscriptions.keys.length + 1) +
            s.subManager.patternSubscriptions.keys.length :=
          Nat.add_le_add_right (length_keys_set_le _ _ _) _
      _ ≤ 2 ^ 31 := by omega

theorem Tidy.withoutRecord (h : Tidy s.subManager) (hrec : s.recorded topicId type = true) :
    Tidy (s.withoutRecord topicId type).subManager := by
  have hsub := eraseP_sublist
    (l := s.subManager.exactSubscriptions.subscribers topicId) (p := (·.same (subscriber type)))
  refine ⟨fun key x hx => ?_, fun key => ?_, h.patterns, ?_⟩
  · rw [SpotPubsub.withoutRecord, subscribers_set, update_apply] at hx
    split at hx
    · exact h.own topicId x (hsub.mem hx)
    · exact h.own key x hx
  · rw [SpotPubsub.withoutRecord, subscribers_set, update_apply]
    split
    · exact (h.nodup topicId).sublist hsub
    · exact h.nodup key
  have hmem : topicId ∈ s.subManager.exactSubscriptions.keys := by
    obtain ⟨x, hx, _⟩ := any_eq_true.mp hrec
    exact mem_keys.mpr (ne_nil_of_mem hx)
  calc (s.withoutRecord topicId type).subManager.size
      ≤ s.subManager.size :=
        Nat.add_le_add_right (length_keys_set_le_of_mem hmem _) _
    _ ≤ 2 ^ 31 := h.small

theorem Tidy.pattern_none (h : Tidy s.subManager) (hnew : s.patternRecorded pattern = false) :
    s.subManager.patternSubscriptions.subscribers pattern = [] := by
  refine (h.patterns pattern).resolve_right fun heq => ?_
  rw [patternRecorded, heq] at hnew
  cases hnew

theorem Tidy.withPattern (h : Tidy s.subManager) (hnew : s.patternRecorded pattern = false)
    (hroom : s.subManager.size < 2 ^ 31) : Tidy (s.withPattern pattern).subManager := by
  have hnone := h.pattern_none hnew
  refine ⟨h.own, h.nodup, fun key => ?_, ?_⟩
  · rw [SpotPubsub.withPattern, subscribers_set, update_apply]
    split
    · rw [hnone]
      exact Or.inr rfl
    · exact h.patterns key
  rw [size] at hroom
  calc (s.withPattern pattern).subManager.size
      ≤ s.subManager.exactSubscriptions.keys.length +
          (s.subManager.patternSubscriptions.keys.length + 1) :=
        Nat.add_le_add_left (length_keys_set_le _ _ _) _
    _ ≤ 2 ^ 31 := by omega

/-! ### The pipes -/

variable {items : List PipeId} {endpoints : AList fun _ : Uri => PipeId} {nextPipe : PipeId}

theorem Wired.notMem (h : Wired items endpoints nextPipe) : nextPipe ∉ items := by
  intro hmem
  exact Nat.lt_irrefl _ (h.fresh nextPipe hmem)

theorem Wired.attach (h : Wired items endpoints nextPipe) (endpoint : Uri) :
    Wired (items ++ [nextPipe]) (endpoints.insert endpoint nextPipe) (nextPipe + 1) := by
  refine ⟨mem_append_left _ h.publisher, fun p hp => ?_, fun e p hl => ?_, fun e e' p hl hl' => ?_⟩
  · rcases mem_append.mp hp with hp | hp
    · exact Nat.lt_succ_of_lt (h.fresh p hp)
    · rw [mem_singleton.mp hp]
      exact Nat.lt_succ_self _
  · by_cases he : e = endpoint
    · subst he
      rw [AList.lookup_insert, Option.some_inj] at hl
      subst hl
      exact ⟨by simp, Nat.ne_of_gt (Nat.zero_lt_of_lt (h.fresh 0 h.publisher))⟩
    · rw [AList.lookup_insert_ne he] at hl
      exact ⟨mem_append_left _ (h.connected e p hl).1, (h.connected e p hl).2⟩
  -- A new pipe differs from the pipes of the other endpoints.
  have hold : ∀ e, e ≠ endpoint → (endpoints.insert endpoint nextPipe).lookup e = some p →
      endpoints.lookup e = some p ∧ p ≠ nextPipe := by
    intro e he hl
    rw [AList.lookup_insert_ne he] at hl
    exact ⟨hl, fun heq => h.notMem (heq ▸ (h.connected e p hl).1)⟩
  by_cases he : e = endpoint
  · by_cases he' : e' = endpoint
    · rw [he, he']
    · rw [he, AList.lookup_insert, Option.some_inj] at hl
      exact absurd hl.symm (hold e' he' hl').2
  by_cases he' : e' = endpoint
  · rw [he', AList.lookup_insert, Option.some_inj] at hl'
    exact absurd hl'.symm (hold e he hl).2
  · exact h.apart e e' p (hold e he hl).1 (hold e' he' hl').1

theorem Wired.erase (h : Wired items endpoints nextPipe) (endpoint : Uri) :
    Wired items (endpoints.erase endpoint) nextPipe := by
  have hold : ∀ e p, (endpoints.erase endpoint).lookup e = some p →
      endpoints.lookup e = some p := by
    intro e p hl
    by_cases he : e = endpoint
    · rw [he, AList.lookup_erase] at hl
      cases hl
    · rwa [AList.lookup_erase_ne he] at hl
  exact ⟨h.publisher, h.fresh, fun e p hl => h.connected e p (hold e p hl),
    fun e e' p hl hl' => h.apart e e' p (hold e p hl) (hold e' p hl')⟩

/-- The pipe of an endpoint goes with the endpoint. -/
theorem Wired.detach (h : Wired items endpoints nextPipe) {endpoint : Uri} {pipe : PipeId}
    (hl : endpoints.lookup endpoint = some pipe) {items' : List PipeId}
    (hitems : ∀ q, q ∈ items' ↔ q ∈ items ∧ q ≠ pipe) :
    Wired items' (endpoints.erase endpoint) nextPipe := by
  have hrest := h.erase endpoint
  refine ⟨(hitems 0).mpr ⟨h.publisher, Ne.symm (h.connected endpoint pipe hl).2⟩,
    fun p hp => h.fresh p ((hitems p).mp hp).1, fun e p he => ?_, hrest.apart⟩
  refine ⟨(hitems p).mpr ⟨(hrest.connected e p he).1, fun heq => ?_⟩, (hrest.connected e p he).2⟩
  have hne : e ≠ endpoint := by
    intro heq'
    rw [heq', AList.lookup_erase] at he
    cases he
  rw [AList.lookup_erase_ne hne, heq] at he
  exact hne (h.apart e endpoint pipe he hl)

/-! ### The calls -/

/-- A request that the socket has taken. The record comes before it: `s` is the instance
with its tables changed and its socket as it was. -/
theorem sendRequest_ok {msg : Msg} {msgs : List Msg} {r : XSub}
    (hsend : s.recvSocket.xsend msg = .ok r) (htells : r.Tells s.subManager.filters)
    (htidy : Tidy s.subManager)
    (hwired : Wired s.recvSocket.dist.pipes.items s.connectedEndpoints s.nextPipe)
    (hem : XSub.Emits s.recvSocket r msgs) (hlen : msgs.length ≤ 1)
    (hmsgs : ∀ m ∈ msgs, m.more = false ∧ (XPub.request m).isSome = true) :
    ∃ s', s.sendRequest msg {} = .ok (none, s') ∧ s'.Inv ∧ Requests s s' ∧
      s' = { s with recvSocket := r } := by
  refine ⟨{ s with recvSocket := r }, ?_, ⟨htells, htidy, ?_⟩, ⟨msgs, ?_, hlen, hmsgs⟩, rfl⟩
  · rw [sendRequest_none rfl, hsend]
    rfl
  · rw [hem.items]
    exact hwired
  · exact hem.sent 0 hwired.publisher

theorem initSubscribe_request (topic : TopicId) :
    ∀ m ∈ [Msg.initSubscribe topic], m.more = false ∧ (XPub.request m).isSome = true := by
  intro m hm
  rw [mem_singleton.mp hm, XPub.request_initSubscribe]
  exact ⟨Msg.initSubscribe_more topic, rfl⟩

theorem cancels_request (n : TopicId → Nat) (topic : TopicId) :
    (XSub.cancels n topic).length ≤ 1 ∧
      ∀ m ∈ XSub.cancels n topic, m.more = false ∧ (XPub.request m).isSome = true := by
  rw [XSub.cancels]
  split
  · refine ⟨Nat.le_refl _, fun m hm => ?_⟩
    rw [mem_singleton.mp hm, XPub.request_initCancel]
    exact ⟨Msg.initCancel_more topic, rfl⟩
  · exact ⟨Nat.zero_le _, by simp⟩

/-- A filter that is added to the tables is sent. -/
theorem Inv.sendSubscribe {s1 : SpotPubsub} {topic : TopicId} (h : s.Inv)
    (hroomy : s.recvSocket.Roomy) (hsocket : s1.recvSocket = s.recvSocket)
    (hends : s1.connectedEndpoints = s.connectedEndpoints) (hnext : s1.nextPipe = s.nextPipe)
    (htidy : Tidy s1.subManager)
    (hfilters : s1.subManager.filters =
      update s.subManager.filters topic (s.subManager.filters topic + 1)) :
    ∃ s', s1.sendRequest (.initSubscribe topic) {} = .ok (none, s') ∧ s'.Inv ∧ Requests s s' := by
  have hroom : s.subManager.filters topic + 1 < 2 ^ 32 := by
    have := h.tidy.filters_le topic
    omega
  obtain ⟨r, hsend, htells, hem⟩ := h.tells.subscribe hroomy hroom
  rw [← hfilters] at htells
  rw [← hsocket] at hsend hem
  have hwired := h.wired
  rw [← hsocket, ← hends, ← hnext] at hwired
  obtain ⟨s', hs', hinv, hreq, -⟩ := sendRequest_ok hsend htells htidy hwired hem
    (Nat.le_refl _) (initSubscribe_request topic)
  rw [Requests, hsocket] at hreq
  exact ⟨s', hs', hinv, hreq⟩

theorem Inv.subscribeAs (h : s.Inv) (hroomy : s.recvSocket.Roomy)
    (hroom : s.subManager.size < 2 ^ 31) :
    ∃ s', s.subscribeAs topicId type {} = .ok (none, s') ∧ s'.Inv ∧ Requests s s' := by
  cases hrec : s.recorded topicId type with
  | true => exact ⟨s, subscribeAs_known hrec, h, Requests.refl s⟩
  | false =>
    rw [subscribeAs_new hrec]
    exact h.sendSubscribe hroomy rfl rfl rfl (h.tidy.withRecord hrec hroom)
      (filters_withRecord s topicId type)

/-- The new pipe takes the filters that are active, and one request more if there is room. -/
theorem Inv.connect (h : s.Inv) (endpoint : Uri) {more : Nat} (hnew : s.Announces more) :
    (s.connect endpoint {}).2.Inv ∧
      ((s.connect endpoint {}).2.recvSocket.pipes 0).sent = (s.recvSocket.pipes 0).sent ∧
      (0 < more → s.recvSocket.Roomy → (s.connect endpoint {}).2.recvSocket.Roomy) := by
  have hkeys : ∀ n, some sndhwm = some n → s.recvSocket.subscriptions.keys.length ≤ n := by
    rintro n ⟨rfl⟩
    exact Nat.le_of_add_right_le hnew
  obtain ⟨htells, hitems, hroom, hothers⟩ := h.tells.attach h.wired.notMem hkeys
  refine ⟨⟨htells, h.tidy, ?_⟩, ?_, fun hmore hroomy p hp => ?_⟩
  · have hwired := h.wired.attach endpoint
    rw [← hitems] at hwired
    exact hwired
  · have hne : 0 ≠ s.nextPipe := Nat.ne_of_lt (h.wired.fresh 0 h.wired.publisher)
    exact congrArg Outlet.sent (hothers 0 hne)
  · show (((s.recvSocket.attachNew s.nextPipe (some sndhwm)).pipes p).full) = false
    by_cases heq : p = s.nextPipe
    · rw [heq, Outlet.full, hroom]
      rw [Announces] at hnew
      simp only [Option.map_some, beq_eq_false_iff_ne, ne_eq, Option.some.injEq]
      omega
    · rw [hothers p heq]
      have hp : p ∈ s.recvSocket.dist.pipes.items ++ [s.nextPipe] := hitems ▸ hp
      exact hroomy p (by simpa [heq] using hp)

theorem Inv.subscribe (h : s.Inv) (hadm : s.Admissible (.subscribe topicId)) :
    ∃ rc s', s.subscribe topicId {} = .ok (rc, s') ∧ s'.Inv ∧ Requests s s' := by
  obtain ⟨hroom, hroomy, hnew⟩ := hadm
  cases hres : s.resolve topicId {} with
  | error e => exact ⟨some e, s, subscribe_failed hres, h, Requests.refl s⟩
  | ok r =>
    rw [subscribe_proceeds hres]
    rcases resolve_ok hres with heq | ⟨hconnects, -, endpoint, heq⟩
    · rw [heq]
      exact ⟨none, h.subscribeAs hroomy hroom⟩
    obtain ⟨hinv, hsent, hroomy'⟩ := h.connect endpoint (hnew hconnects)
    have hroomy' := hroomy' Nat.zero_lt_one hroomy
    rw [← heq] at hinv hsent hroomy'
    rw [← resolve_subManager hres] at hroom
    obtain ⟨s', hs', hinv', hreq⟩ := hinv.subscribeAs hroomy' hroom
    rw [Requests, hsent] at hreq
    exact ⟨none, s', hs', hinv', hreq⟩

theorem Inv.subscribePattern (h : s.Inv) (hadm : s.Admissible (.subscribePattern pattern)) :
    ∃ rc s', s.subscribePattern pattern {} = .ok (rc, s') ∧ s'.Inv ∧ Requests s s' := by
  cases hrec : s.patternRecorded pattern with
  | true => exact ⟨_, s, subscribePattern_known hrec, h, Requests.refl s⟩
  | false =>
    rw [subscribePattern_new hrec]
    exact ⟨none, h.sendSubscribe hadm.2 rfl rfl rfl (h.tidy.withPattern hrec hadm.1)
      (filters_setPattern (h.tidy.pattern_none hrec) (by simp))⟩

/-- A record that is found goes, and its cancel message is sent. -/
theorem Inv.sendCancel (h : s.Inv) (hrec : s.recorded topicId type = true)
    (hadm : s.Admissible (.unsubscribe topicId)) :
    ∃ s', (s.withoutRecord topicId type).sendRequest (.initCancel topicId) {} =
        .ok (none, s') ∧ s'.Inv ∧ Requests s s' ∧
      s'.subManager = (s.withoutRecord topicId type).subManager ∧
      s'.recvSocket.dist.pipes.items = s.recvSocket.dist.pipes.items := by
  obtain ⟨r, hsend, htells, hem⟩ := h.tells.cancel hadm.2 hadm.1
  rw [← filters_withoutRecord hrec] at htells
  obtain ⟨hlen, hmsgs⟩ := cancels_request s.subManager.filters topicId
  obtain ⟨s', hs', hinv, hreq, heq⟩ := sendRequest_ok (s := s.withoutRecord topicId type) hsend
    htells (h.tidy.withoutRecord hrec) h.wired hem hlen hmsgs
  exact ⟨s', hs', hinv, hreq, by rw [heq], by rw [heq]; exact hem.items⟩

theorem Inv.unsubscribe (h : s.Inv) (hadm : s.Admissible (.unsubscribe topicId)) :
    ∃ rc s', s.unsubscribe topicId {} = .ok (rc, s') ∧ s'.Inv ∧ Requests s s' := by
  cases hreg : s.registry.lookup topicId with
  | none => exact ⟨_, s, unsubscribe_unregistered hreg, h, Requests.refl s⟩
  | some entry =>
    cases hrec : s.recorded topicId (subscriberType entry.location) with
    | false => exact ⟨_, s, unsubscribe_unknown hreg hrec, h, Requests.refl s⟩
    | true =>
      obtain ⟨s', hs', hinv, hreq, -⟩ := h.sendCancel hrec hadm
      exact ⟨none, s', (unsubscribe_known hreg hrec).trans hs', hinv, hreq⟩

theorem Inv.clusterRemove (h : s.Inv) (endpoint : Uri) :
    (s.clusterRemove endpoint {}).2.Inv ∧
      ((s.clusterRemove endpoint {}).2.recvSocket.pipes 0).sent = (s.recvSocket.pipes 0).sent := by
  cases hl : s.connectedEndpoints.lookup endpoint with
  | none =>
    rw [SpotPubsub.clusterRemove, hl]
    exact ⟨h, rfl⟩
  | some pipe =>
    simp only [SpotPubsub.clusterRemove, hl]
    obtain ⟨htells, hitems⟩ := h.tells.detach (h.wired.connected endpoint pipe hl).1
    exact ⟨⟨htells, h.tidy, h.wired.detach hl hitems⟩, rfl⟩

theorem Inv.keep (h : s.Inv) (hm : s'.subManager = s.subManager)
    (hr : s'.recvSocket = s.recvSocket) (hc : s'.connectedEndpoints = s.connectedEndpoints)
    (hn : s'.nextPipe = s.nextPipe) : s'.Inv ∧ Requests s s' := by
  refine ⟨⟨?_, ?_, ?_⟩, [], by simp [hr], Nat.zero_le _, by simp⟩
  · rw [hr, hm]
    exact h.tells
  · rw [hm]
    exact h.tidy
  · rw [hr, hc, hn]
    exact h.wired

theorem Requests.of_sent (h : (s'.recvSocket.pipes 0).sent = (s.recvSocket.pipes 0).sent) :
    Requests s s' :=
  ⟨[], by simp [h], Nat.zero_le _, by simp⟩

/-- Every admissible call returns and keeps the invariant. -/
theorem Inv.call (h : s.Inv) {c : SpotCall} (hadm : s.Admissible c) :
    ∃ rc s', s.call {} c = .ok (rc, s') ∧ s'.Inv ∧ Requests s s' := by
  cases c with
  | subscribe topicId => exact h.subscribe hadm
  | subscribePattern pattern => exact h.subscribePattern hadm
  | unsubscribe topicId => exact h.unsubscribe hadm
  | topicCreate topicId =>
    refine ⟨(s.topicCreate topicId).1, (s.topicCreate topicId).2, rfl, ?_⟩
    rw [topicCreate]
    split <;> exact h.keep rfl rfl rfl rfl
  | topicDestroy topicId =>
    refine ⟨(s.topicDestroy topicId).1, (s.topicDestroy topicId).2, rfl, ?_⟩
    rw [topicDestroy]
    split
    · exact h.keep rfl rfl rfl rfl
    · split <;> exact h.keep rfl rfl rfl rfl
  | topicRoute topicId endpoint =>
    refine ⟨(s.topicRoute topicId endpoint).1, (s.topicRoute topicId endpoint).2, rfl, ?_⟩
    rw [topicRoute]
    split <;> exact h.keep rfl rfl rfl rfl
  | bind endpoint =>
    refine ⟨(s.bind endpoint {}).1, (s.bind endpoint {}).2, rfl, ?_⟩
    rw [bind]
    split <;> exact h.keep rfl rfl rfl rfl
  | clusterAdd endpoint =>
    refine ⟨(s.clusterAdd endpoint {}).1, (s.clusterAdd endpoint {}).2, rfl, ?_⟩
    rw [clusterAdd]
    split
    · exact h.keep rfl rfl rfl rfl
    · obtain ⟨hinv, hsent, -⟩ := h.connect endpoint hadm
      exact ⟨hinv, .of_sent hsent⟩
  | clusterRemove endpoint =>
    exact ⟨_, _, rfl, (h.clusterRemove endpoint).1, .of_sent (h.clusterRemove endpoint).2⟩

theorem Inv.requestsRead (h : s.Inv) (pipe : PipeId) (msgsRead : Nat) :
    (s.requestsRead pipe msgsRead).Inv ∧
      ((s.requestsRead pipe msgsRead).recvSocket.pipes 0).sent = (s.recvSocket.pipes 0).sent := by
  rw [SpotPubsub.requestsRead]
  split
  · rename_i hmem
    obtain ⟨htells, hdist, hsent⟩ := h.tells.processActivateWrite hmem
    refine ⟨⟨htells, h.tidy, ?_⟩, hsent 0⟩
    rw [hdist]
    exact h.wired
  · exact ⟨h, rfl⟩

/-! ### Whole runs -/

/-- What happens to an instance: a call, or a report of one of the publishers it is connected to. -/
inductive SpotAction
  | call (c : SpotCall)
  | requestsRead (pipe : PipeId) (msgsRead : Nat)
  deriving Repr, DecidableEq

/-- One call, with the socket operations succeeding. -/
def step (s : SpotPubsub) (c : SpotCall) : Except Fault SpotPubsub :=
  (s.call {} c).map Prod.snd

def act (s : SpotPubsub) : SpotAction → Except Fault SpotPubsub
  | .call c => s.step c
  | .requestsRead pipe msgsRead => .ok (s.requestsRead pipe msgsRead)

/-- The calls are admissible. -/
def Acceptable (s : SpotPubsub) : SpotAction → Prop
  | .call c => s.Admissible c
  | .requestsRead _ _ => True

instance (s : SpotPubsub) (a : SpotAction) : Decidable (s.Acceptable a) := by
  unfold Acceptable
  split <;> infer_instance

theorem Inv.act (h : s.Inv) {a : SpotAction} (hadm : s.Acceptable a) :
    ∃ s', s.act a = .ok s' ∧ s'.Inv := by
  cases a with
  | call c =>
    obtain ⟨rc, s', hcall, hinv, -⟩ := h.call hadm
    exact ⟨s', by rw [SpotPubsub.act, SpotPubsub.step, hcall]; rfl, hinv⟩
  | requestsRead pipe msgsRead => exact ⟨_, rfl, (h.requestsRead pipe msgsRead).1⟩

end SpotPubsub

end ServerLink

import ServerLink.Spot.SpotPubsub

/-!
# ServerLink.Spot.FailedCalls

What a call of a SPOT instance leaves behind when it fails. A call changes its table
before it sends the filter, and nothing takes the change back when the send fails: the
tables and the filters then disagree, and the next call finds the record and does not
send. `failsClean_iff` says that this is the only way in which a failed call has an effect.
-/

namespace ServerLink

namespace SpotPubsub

/-- The type under which `subscribe` records the topic. -/
def recordType (s : SpotPubsub) (topicId : TopicId) : SubscriberType :=
  match s.registry.lookup topicId with
  | some ⟨.localTopic, _⟩ => .localSocket
  | _ => .remoteNode

/-- `subscribe` comes to its record: the topic is known or there is a cluster, and a remote
publisher is connected or can be. -/
def Proceeds (s : SpotPubsub) (faults : SocketFaults) (topicId : TopicId) : Prop :=
  match s.registry.lookup topicId with
  | none => s.connectedEndpoints.keys ≠ []
  | some ⟨.localTopic, _⟩ => True
  | some ⟨.remoteTopic, endpoint⟩ =>
    (s.connectedEndpoints.lookup endpoint).isSome ∨ faults.connect = none

/-- The call changes a table, and then has its filter to send. -/
def Sends (s : SpotPubsub) (faults : SocketFaults) : SpotCall → Prop
  | .subscribe topicId =>
    s.Proceeds faults topicId ∧ s.recorded topicId (s.recordType topicId) = false
  | .subscribePattern pattern => s.patternRecorded pattern = false
  | .unsubscribe topicId =>
    ∃ entry, s.registry.lookup topicId = some entry ∧
      s.recorded topicId (subscriberType entry.location) = true
  | _ => False

/-- The filters the receiving socket counts are the recorded subscriptions. -/
def Agrees (s : SpotPubsub) : Prop :=
  ∀ key, s.recvSocket.subscriptions.trie.refcount key = s.subManager.filters key

/-- If the call returns an error, the tables are as before, they still agree with the
filters if they did, and the call can be made again as if for the first time. -/
def FailsClean (s : SpotPubsub) (faults : SocketFaults) (c : SpotCall) : Prop :=
  ∀ e s', s.call faults c = .ok (some e, s') →
    s'.subManager = s.subManager ∧ (s.Agrees → s'.Agrees) ∧
      ∀ faults', s'.call faults' c = s.call faults' c

variable {s s' : SpotPubsub} {faults : SocketFaults} {e : Errno} {topicId pattern : TopicId}

theorem resolve_of_proceeds (h : s.Proceeds faults topicId) :
    ∃ s1, s.resolve topicId faults = .ok (s.recordType topicId, s1) := by
  cases hreg : s.registry.lookup topicId with
  | none =>
    simp only [Proceeds, hreg] at h
    exact ⟨s, by simp only [resolve, recordType, hreg, if_neg h]⟩
  | some entry =>
    obtain ⟨location, endpoint⟩ := entry
    cases location with
    | localTopic => exact ⟨s, by simp only [resolve, recordType, hreg]⟩
    | remoteTopic =>
      simp only [Proceeds, hreg] at h
      by_cases hconn : (s.connectedEndpoints.lookup endpoint).isSome
      · exact ⟨s, by simp only [resolve, recordType, hreg, if_pos hconn]⟩
      · simp only [resolve, recordType, hreg, if_neg hconn, connect, h.resolve_left hconn]
        exact ⟨_, rfl⟩

theorem proceeds_of_resolve {type : SubscriberType} {s1 : SpotPubsub}
    (h : s.resolve topicId faults = .ok (type, s1)) :
    s.Proceeds faults topicId ∧ type = s.recordType topicId := by
  cases hreg : s.registry.lookup topicId with
  | none =>
    simp only [resolve, hreg] at h
    simp only [Proceeds, recordType, hreg]
    split at h
    · cases h
    · rename_i hne
      cases h
      exact ⟨hne, rfl⟩
  | some entry =>
    obtain ⟨location, endpoint⟩ := entry
    cases location with
    | localTopic =>
      simp only [resolve, hreg] at h
      cases h
      simp only [Proceeds, recordType, hreg, and_self]
    | remoteTopic =>
      simp only [resolve, hreg] at h
      simp only [Proceeds, recordType, hreg]
      split at h
      · rename_i hconn
        cases h
        exact ⟨Or.inl hconn, rfl⟩
      cases hfault : faults.connect with
      | some e =>
        rw [connect_fault hfault] at h
        cases h
      | none =>
        simp only [connect, hfault] at h
        cases h
        exact ⟨Or.inr rfl, rfl⟩

/-! ### A call that fails -/

/-- An error without a change, or the send has failed. -/
theorem subscribe_error (h : s.subscribe topicId faults = .ok (some e, s')) :
    s' = s ∨ (faults.send = some e ∧ s.Sends faults (.subscribe topicId)) := by
  cases hres : s.resolve topicId faults with
  | error e' =>
    rw [subscribe_failed hres] at h
    cases h
    exact Or.inl rfl
  | ok r =>
    obtain ⟨type, s1⟩ := r
    rw [subscribe_proceeds hres] at h
    obtain ⟨hproceeds, rfl⟩ := proceeds_of_resolve hres
    have hsame : s1.recorded topicId (s.recordType topicId) =
        s.recorded topicId (s.recordType topicId) := by
      rw [recorded, resolve_subManager hres, recorded]
    cases hrec : s1.recorded topicId (s.recordType topicId) with
    | true =>
      rw [subscribeAs_known hrec] at h
      cases h
    | false =>
      rw [subscribeAs_new hrec] at h
      exact Or.inr ⟨(sendRequest_inv h).1, hproceeds, hsame.symm.trans hrec⟩

theorem subscribePattern_error (h : s.subscribePattern pattern faults = .ok (some e, s')) :
    s' = s ∨ (faults.send = some e ∧ s.Sends faults (.subscribePattern pattern)) := by
  cases hrec : s.patternRecorded pattern with
  | true =>
    rw [subscribePattern_known hrec] at h
    cases h
    exact Or.inl rfl
  | false =>
    rw [subscribePattern_new hrec] at h
    exact Or.inr ⟨(sendRequest_inv h).1, hrec⟩

theorem unsubscribe_error (h : s.unsubscribe topicId faults = .ok (some e, s')) :
    s' = s ∨ (faults.send = some e ∧ s.Sends faults (.unsubscribe topicId)) := by
  cases hreg : s.registry.lookup topicId with
  | none =>
    rw [unsubscribe_unregistered hreg] at h
    cases h
    exact Or.inl rfl
  | some entry =>
    cases hrec : s.recorded topicId (subscriberType entry.location) with
    | false =>
      rw [unsubscribe_unknown hreg hrec] at h
      cases h
      exact Or.inl rfl
    | true =>
      rw [unsubscribe_known hreg hrec] at h
      exact Or.inr ⟨(sendRequest_inv h).1, entry, hreg, hrec⟩

theorem connect_error {endpoint : Uri} (h : s.connect endpoint faults = (some e, s')) : s' = s := by
  rw [connect] at h
  split at h
  · cases h
    rfl
  · cases h

theorem register_error {r r' : TopicRegistry} {entry : TopicEntry}
    (h : r.register topicId entry = (some e, r')) : r' = r := by
  rw [TopicRegistry.register] at h
  split at h
  · cases h
    rfl
  · cases h

theorem registered_error {r : Option Errno × TopicRegistry}
    (h : (r.1, { s with registry := r.2 }) = (some e, s'))
    (hr : ∀ r', r = (some e, r') → r' = s.registry) : s' = s := by
  obtain ⟨rc, registry⟩ := r
  cases h
  rw [hr registry rfl]

/-- Every call that returns an error has changed nothing, or the send has failed. -/
theorem call_error {c : SpotCall} (h : s.call faults c = .ok (some e, s')) :
    s' = s ∨ (faults.send = some e ∧ s.Sends faults c) := by
  cases c with
  | subscribe topicId => exact subscribe_error h
  | subscribePattern pattern => exact subscribePattern_error h
  | unsubscribe topicId => exact unsubscribe_error h
  | topicCreate topicId =>
    have h : s.topicCreate topicId = (some e, s') := Except.ok.inj h
    rw [topicCreate] at h
    split at h
    · cases h
      exact Or.inl rfl
    · exact Or.inl (registered_error h fun _ h => register_error h)
  | topicDestroy topicId =>
    have h : s.topicDestroy topicId = (some e, s') := Except.ok.inj h
    rw [topicDestroy] at h
    split at h
    · cases h
      exact Or.inl rfl
    · split at h <;> cases h
      exact Or.inl rfl
  | topicRoute topicId endpoint =>
    have h : s.topicRoute topicId endpoint = (some e, s') := Except.ok.inj h
    rw [topicRoute] at h
    split at h
    · cases h
      exact Or.inl rfl
    · exact Or.inl (registered_error h fun _ h => register_error h)
  | bind endpoint =>
    have h : s.bind endpoint faults = (some e, s') := Except.ok.inj h
    rw [bind] at h
    split at h
    · cases h
      exact Or.inl rfl
    · split at h <;> cases h
      exact Or.inl rfl
  | clusterAdd endpoint =>
    have h : s.clusterAdd endpoint faults = (some e, s') := Except.ok.inj h
    rw [clusterAdd] at h
    split at h
    · cases h
      exact Or.inl rfl
    · exact Or.inl (connect_error h)
  | clusterRemove endpoint =>
    have h : s.clusterRemove endpoint faults = (some e, s') := Except.ok.inj h
    rw [clusterRemove] at h
    split at h
    · cases h
      exact Or.inl rfl
    · split at h <;> cases h
      exact Or.inl rfl

/-! ### A send that fails -/

theorem subscribers_withRecord (s : SpotPubsub) (topicId : TopicId) (type : SubscriberType) :
    (s.withRecord topicId type).subManager.exactSubscriptions.subscribers topicId =
      s.subManager.exactSubscriptions.subscribers topicId ++ [subscriber type] := by
  simp [withRecord]

theorem subscribers_withPattern (s : SpotPubsub) (pattern : TopicId) :
    (s.withPattern pattern).subManager.patternSubscriptions.subscribers pattern =
      s.subManager.patternSubscriptions.subscribers pattern ++ [subscriber .localSocket] := by
  simp [withPattern]

theorem length_withoutRecord {type : SubscriberType} (h : s.recorded topicId type = true) :
    ((s.withoutRecord topicId type).subManager.exactSubscriptions.subscribers topicId).length + 1 =
      (s.subManager.exactSubscriptions.subscribers topicId).length := by
  obtain ⟨x, hmem, hsame⟩ := List.any_eq_true.mp h
  have hpos := List.length_pos_of_mem hmem
  simp only [withoutRecord, SubscriberTable.subscribers_set, Function.update_self]
  rw [List.length_eraseP_of_mem hmem hsame]
  omega

/-- A call that comes to its send and cannot send leaves a changed table. -/
theorem call_dirty {c : SpotCall} (hsends : s.Sends faults c) (hfault : faults.send = some e) :
    ∃ s', s.call faults c = .ok (some e, s') ∧ s'.subManager ≠ s.subManager := by
  cases c with
  | subscribe topicId =>
    obtain ⟨hproceeds, hrec⟩ := hsends
    obtain ⟨s1, hres⟩ := resolve_of_proceeds hproceeds
    have hsame := resolve_subManager hres
    have hrec1 : s1.recorded topicId (s.recordType topicId) = false := by
      rw [recorded, hsame]
      exact hrec
    refine ⟨_, (subscribe_proceeds hres).trans
      ((subscribeAs_new hrec1).trans (sendRequest_fault hfault _)), fun heq => ?_⟩
    have hlist := subscribers_withRecord s1 topicId (s.recordType topicId)
    rw [heq, hsame] at hlist
    simp at hlist
  | subscribePattern pattern =>
    refine ⟨_, (subscribePattern_new hsends).trans (sendRequest_fault hfault _), fun heq => ?_⟩
    have hlist := subscribers_withPattern s pattern
    rw [heq] at hlist
    simp at hlist
  | unsubscribe topicId =>
    obtain ⟨entry, hreg, hrec⟩ := hsends
    refine ⟨_, (unsubscribe_known hreg hrec).trans (sendRequest_fault hfault _), fun heq => ?_⟩
    have hlen := length_withoutRecord hrec
    rw [heq] at hlen
    omega
  | topicCreate => cases hsends
  | topicDestroy => cases hsends
  | topicRoute => cases hsends
  | bind => cases hsends
  | clusterAdd => cases hsends
  | clusterRemove => cases hsends

/-- **A failed call.** A call that fails has no effect, for any instance and whatever fails
in it, iff the send of the filter does not fail or the call does not come to it. -/
theorem failsClean_iff (s : SpotPubsub) (faults : SocketFaults) (c : SpotCall) :
    s.FailsClean faults c ↔ (faults.send = none ∨ ¬ s.Sends faults c) := by
  constructor
  · intro h
    by_contra hnot
    rw [not_or, not_not] at hnot
    obtain ⟨e, hfault⟩ := Option.ne_none_iff_exists'.mp hnot.1
    obtain ⟨s', hcall, hne⟩ := call_dirty hnot.2 hfault
    exact hne (h e s' hcall).1
  intro h e s' hcall
  rcases call_error hcall with rfl | ⟨hfault, hsends⟩
  · exact ⟨rfl, id, fun _ => rfl⟩
  rcases h with hnone | hnot
  · rw [hnone] at hfault
    cases hfault
  · exact absurd hsends hnot

/-- The topic `a` is local and is subscribed to while the send fails: the record stays, and
the call that is made again succeeds without a filter. -/
theorem subscribe_again_sends_nothing :
    ∃ s s1 s2, (new []).call {} (.topicCreate [97]) = .ok (none, s) ∧
      s.call { send := some .eterm } (.subscribe [97]) = .ok (some .eterm, s1) ∧
      s1.subManager.exactSubscriptions.subscribers [97] = [subscriber .localSocket] ∧
      s1.call {} (.subscribe [97]) = .ok (none, s2) ∧
      s2.recvSocket.subscriptions.trie.refcount [97] = 0 :=
  ⟨_, _, _, rfl, rfl, rfl, rfl, rfl⟩

end SpotPubsub

end ServerLink

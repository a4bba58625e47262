import ServerLink.Core.Dispatch
import ServerLink.Spot.Records

/-!
# ServerLink.Spot.Publish

`spot_pubsub_t::publish` and the way a message takes inside an instance: the topic and the
data are two parts of one message for the XPUB socket, which sends it to the receiving
socket if one of the filters it has read from pipe 0 is a prefix of the topic. The publisher
reads the requests of the receiving socket when it processes its commands, which `send`
does only now and then; a request can be on its way while a message is published.
-/

namespace ServerLink

open List XPub

/-- A SPOT instance with its publisher. -/
structure SpotInstance where
  spot : SpotPubsub
  pub : Publisher
  /-- How many of the requests sent down pipe 0 the publisher has read. -/
  read : Nat

/-- What can happen to an instance: a call, a publisher reports how many requests it has read, the
local publisher gets to know pipe 0, reads a request from it or hears that messages were taken from
it, a message is published. -/
inductive SpotEvent
  | call (c : SpotCall)
  | requestsRead (pipe : PipeId) (msgsRead : Nat)
  | attach (new : NewOutbound)
  | read
  | activateWrite (msgsRead : Int)
  | publish (topicId : TopicId) (data : List UInt8)

namespace SpotInstance

open SubscriptionManager

def new (inprocEndpoint : Uri) : SpotInstance := ⟨.new inprocEndpoint, .new, 0⟩

/-- The first frame, sent with `SL_SNDMORE`. -/
def topicFrame (topicId : TopicId) : Msg := (Msg.initBuffer topicId).setFlags Msg.moreFlag

def dataFrame (data : List UInt8) : Msg := .initBuffer data

/-- The requests that the receiving socket has sent to the publisher. -/
def sent (s : SpotInstance) : List Msg := (s.spot.recvSocket.pipes 0).sent

/-- `publish`. Only local topics are published. -/
def publish (s : SpotInstance) (topicId : TopicId) (data : List UInt8) :
    Option Errno × SpotInstance :=
  match s.spot.registry.lookup topicId with
  | none => (some .enoent, s)
  | some entry =>
    if entry.location ≠ .localTopic then (some .einval, s)
    else
      match s.pub.xsend (topicFrame topicId) with
      | (pub, false) => (some .eagain, { s with pub })
      | (pub, true) =>
        match pub.xsend (dataFrame data) with
        | (pub, false) => (some .eagain, { s with pub })
        | (pub, true) => (none, { s with pub })

def step (s : SpotInstance) : SpotEvent → Except Fault SpotInstance
  | .call c => (s.spot.step c).map fun spot => { s with spot }
  | .requestsRead pipe msgsRead => .ok { s with spot := s.spot.requestsRead pipe msgsRead }
  | .attach new => (s.pub.step (.attach 0 new)).map fun pub => { s with pub }
  | .read =>
    match s.sent[s.read]? with
    | none => .ok s
    | some msg =>
      if s.pub.attached 0 then
        (s.pub.step (.read 0 msg)).map fun pub => { s with pub, read := s.read + 1 }
      else .ok s
  | .activateWrite msgsRead =>
    (s.pub.step (.activateWrite 0 msgsRead)).map fun pub => { s with pub }
  | .publish topicId data => .ok (s.publish topicId data).2

/-- The calls are admissible. -/
def Admissible (s : SpotInstance) : SpotEvent → Prop
  | .call c => s.spot.Admissible c
  | _ => True

instance (s : SpotInstance) (e : SpotEvent) : Decidable (s.Admissible e) := by
  unfold Admissible
  split <;> infer_instance

/-- The filters of the publisher are those it has read. -/
structure Inv (s : SpotInstance) : Prop where
  spot : s.spot.Inv
  reached : s.pub.Reached
  idle : s.pub.moreSend = false
  lossy : s.pub.lossy = true
  noWelcome : s.pub.welcomeMsg = .init
  listening : s.pub.xpub.Listening
  counts : s.pub.xpub.subscriptions.Counts 0
  only : ∀ key p, p ∈ s.pub.xpub.subscriptions.pipesAt key → p = 0
  store : ∀ key, 0 ∈ s.pub.xpub.subscriptions.pipesAt key ↔
    key ∈ subscribed (s.sent.take s.read)
  readLe : s.read ≤ s.sent.length
  bounded : ∀ i, (subscribed (s.sent.take i)).card ≤ 2 ^ 31
  requests : ∀ m ∈ s.sent, m.more = false ∧ (request m).isSome = true

variable {s s' : SpotInstance} {topicId : TopicId} {data : List UInt8}

@[simp] theorem topicFrame_data (topicId : TopicId) : (topicFrame topicId).data = topicId := rfl

theorem topicFrame_more (topicId : TopicId) : (topicFrame topicId).more = true := by
  simp [topicFrame, Msg.more, Msg.setFlags, Msg.initBuffer, Msg.moreFlag]

theorem dataFrame_more (data : List UInt8) : (dataFrame data).more = false := by
  simp [dataFrame, Msg.more, Msg.initBuffer, Msg.moreFlag]

/-! ### The publisher's store -/

/-- What sending leaves alone. -/
structure SameStore (p p' : Publisher) : Prop where
  subscriptions : p'.xpub.subscriptions = p.xpub.subscriptions
  manual : p'.xpub.manual = p.xpub.manual
  moreRecv : p'.xpub.moreRecv = p.xpub.moreRecv
  lossy : p'.lossy = p.lossy
  welcome : p'.welcomeMsg = p.welcomeMsg

theorem SameStore.trans {p p' p'' : Publisher} (h : SameStore p p') (h' : SameStore p' p'') :
    SameStore p p'' :=
  ⟨h'.subscriptions.trans h.subscriptions, h'.manual.trans h.manual,
    h'.moreRecv.trans h.moreRecv, h'.lossy.trans h.lossy, h'.welcome.trans h.welcome⟩

theorem matchFirst_sameStore (p : Publisher) (msg : Msg) : SameStore p (p.matchFirst msg) := by
  simp only [Publisher.matchFirst]
  split <;> exact ⟨rfl, rfl, rfl, rfl, rfl⟩

theorem xsend_sameStore (p : Publisher) (msg : Msg) : SameStore p (p.xsend msg).1 := by
  have hfirst : SameStore p (if p.moreSend then p else p.matchFirst msg) := by
    split
    · exact ⟨rfl, rfl, rfl, rfl, rfl⟩
    · exact matchFirst_sameStore p msg
  have hsend : ∀ q, SameStore q (if q.lossy || q.xpub.dist.checkHwm fun pipe =>
      (q.ends pipe).pipe.checkHwm then (q.sendPart msg, true) else (q, false)).1 := by
    intro q
    split <;> exact ⟨rfl, rfl, rfl, rfl, rfl⟩
  exact hfirst.trans (hsend _)

theorem SameStore.listening {p p' : Publisher} (h : SameStore p p') (hl : p.xpub.Listening) :
    p'.xpub.Listening :=
  ⟨h.manual.trans hl.manual, h.moreRecv.trans hl.moreRecv, h.subscriptions ▸ hl.ok⟩

/-- The publisher holds no more prefixes than the requests have left. -/
theorem Inv.card_prefixes (h : s.Inv) : s.pub.xpub.subscriptions.prefixes.card ≤ 2 ^ 31 := by
  refine (Finset.card_le_card fun key hkey => ?_).trans (h.bounded s.read)
  rw [h.listening.ok.mem_prefixes] at hkey
  obtain ⟨p, hp⟩ := Finset.nonempty_iff_ne_empty.mpr hkey
  rw [h.only key p hp] at hp
  exact (h.store key).mp hp

/-! ### Steps -/

theorem new_inv (inprocEndpoint : Uri) : (new inprocEndpoint).Inv := by
  have hsent : (new inprocEndpoint).sent = [] := rfl
  refine ⟨SpotPubsub.new_inv inprocEndpoint, Publisher.start_reached (.inl rfl), rfl, rfl, rfl,
    XPub.new_listening, MTrie.empty_counts, fun key p hp => ?_, fun key => ?_, ?_, fun i => ?_, ?_⟩
  · exact absurd (Publisher.new_inv.stored key p hp)
      (by simp [Publisher.attached, Publisher.new, XPub.new, Dist.empty, ArrayT.empty])
  · rw [hsent, take_nil]
    refine iff_of_false (fun hp => ?_) (by simp [XPub.subscribed])
    exact absurd (Publisher.new_inv.stored key 0 hp)
      (by simp [Publisher.attached, Publisher.new, XPub.new, Dist.empty, ArrayT.empty])
  · exact Nat.zero_le _
  · rw [hsent, take_nil]
    exact Nat.zero_le _
  · rw [hsent]
    exact fun m hm => absurd hm not_mem_nil

/-- The requests to the publisher leave at most as many filters as are recorded. -/
theorem card_subscribed_le {spot : SpotPubsub} (h : spot.Inv) :
    (subscribed (spot.recvSocket.pipes 0).sent).card ≤ 2 ^ 31 := by
  have hsub : subscribed (spot.recvSocket.pipes 0).sent ⊆
      (spot.subManager.exactSubscriptions.keys ++
        spot.subManager.patternSubscriptions.keys.map patternPrefix).toFinset := by
    intro key hkey
    have hpos := (h.tells.upstream 0 h.wired.publisher key).mp hkey
    rw [mem_toFinset, mem_append]
    by_cases hpattern : 0 < spot.subManager.patternFilters key
    · obtain ⟨pattern, hmem, heq⟩ := patternFilters_pos.mp hpattern
      exact Or.inr (mem_map.mpr ⟨pattern, hmem, heq⟩)
    · refine Or.inl (SubscriberTable.mem_keys.mpr fun hnil => ?_)
      rw [filters, hnil, length_nil] at hpos
      omega
  calc (subscribed (spot.recvSocket.pipes 0).sent).card
      ≤ _ := Finset.card_le_card hsub
    _ ≤ _ := toFinset_card_le _
    _ = spot.subManager.size := by rw [length_append, length_map, size]
    _ ≤ 2 ^ 31 := h.tidy.small

theorem Inv.call (h : s.Inv) {c : SpotCall} (hadm : s.spot.Admissible c) :
    ∃ s', s.step (.call c) = .ok s' ∧ s'.Inv := by
  obtain ⟨rc, spot, hcall, hinv, msgs, hsent, hlen, hmsgs⟩ := h.spot.call hadm
  have hsent' : sent { s with spot } = s.sent ++ msgs := hsent
  refine ⟨{ s with spot }, ?_, ⟨hinv, h.reached, h.idle, h.lossy, h.noWelcome, h.listening,
    h.counts, h.only, fun key => ?_, ?_, fun i => ?_, fun m hm => ?_⟩⟩
  · simp only [step, SpotPubsub.step, hcall]
    rfl
  · rw [hsent', take_append_of_le_length h.readLe]
    exact h.store key
  · rw [hsent', length_append]
    exact Nat.le_add_right_of_le h.readLe
  · -- Either the stream before the call is cut, or it is whole after the call.
    by_cases hi : i ≤ s.sent.length
    · rw [hsent', take_append_of_le_length hi]
      exact h.bounded i
    have hall : (sent { s with spot }).length ≤ i := by
      rw [hsent', length_append]
      omega
    rw [take_of_length_le hall]
    exact card_subscribed_le hinv
  · rw [hsent'] at hm
    rcases mem_append.mp hm with hold | hnew
    · exact h.requests m hold
    · exact hmsgs m hnew

theorem Inv.requestsRead (h : s.Inv) (pipe : PipeId) (msgsRead : Nat) :
    Inv { s with spot := s.spot.requestsRead pipe msgsRead } := by
  obtain ⟨hinv, hsent⟩ := h.spot.requestsRead pipe msgsRead
  have hsent : sent { s with spot := s.spot.requestsRead pipe msgsRead } = s.sent := hsent
  refine ⟨hinv, h.reached, h.idle, h.lossy, h.noWelcome, h.listening, h.counts, h.only, ?_, ?_,
    ?_, ?_⟩
  · rw [hsent]
    exact h.store
  · rw [hsent]
    exact h.readLe
  · rw [hsent]
    exact h.bounded
  · rw [hsent]
    exact h.requests

theorem Inv.keepStore (h : s.Inv) {pub : Publisher} (hreached : pub.Reached)
    (hidle : pub.moreSend = false) (hstore : SameStore s.pub pub) : Inv { s with pub } :=
  ⟨h.spot, hreached, hidle, hstore.lossy.trans h.lossy, hstore.welcome.trans h.noWelcome,
    hstore.listening h.listening, hstore.subscriptions ▸ h.counts, by
      rw [hstore.subscriptions]
      exact h.only, by
      rw [hstore.subscriptions]
      exact h.store, h.readLe, h.bounded, h.requests⟩

theorem Inv.attach (h : s.Inv) (new : NewOutbound) :
    ∃ s', s.step (.attach new) = .ok s' ∧ s'.Inv := by
  have hstep : ∃ pub, s.pub.step (.attach 0 new) = .ok pub ∧ pub.moreSend = s.pub.moreSend ∧
      SameStore s.pub pub := by
    simp only [Publisher.step]
    split
    · exact ⟨s.pub, rfl, rfl, ⟨rfl, rfl, rfl, rfl, rfl⟩⟩
    have hwelcome : s.pub.welcome new.o = .ok new.o := by
      simp [Publisher.welcome, h.noWelcome, Msg.size, Msg.init]
    refine ⟨(s.pub.withDist (s.pub.xpub.dist.attach 0)).setEnd 0
      { new.o with written := (s.pub.ends 0).written }, ?_, rfl, ⟨rfl, rfl, rfl, rfl, rfl⟩⟩
    rw [Publisher.xattachPipe, hwelcome, Publisher.xattachPipe_eq h.reached.inv.welcome]
    rfl
  obtain ⟨pub, heq, hmore, hstore⟩ := hstep
  refine ⟨{ s with pub }, by simp only [step, heq]; rfl, ?_⟩
  exact h.keepStore (h.reached.step (a := .attach 0 new) trivial heq).1 (hmore.trans h.idle) hstore

theorem Inv.activateWrite (h : s.Inv) (msgsRead : Int) :
    ∃ s', s.step (.activateWrite msgsRead) = .ok s' ∧ s'.Inv := by
  have hstep : ∃ pub, s.pub.step (.activateWrite 0 msgsRead) = .ok pub ∧
      pub.moreSend = s.pub.moreSend ∧ SameStore s.pub pub := by
    simp only [Publisher.step]
    split
    · refine ⟨_, rfl, ?_⟩
      split <;> exact ⟨rfl, rfl, rfl, rfl, rfl, rfl⟩
    · exact ⟨s.pub, rfl, rfl, ⟨rfl, rfl, rfl, rfl, rfl⟩⟩
  obtain ⟨pub, heq, hmore, hstore⟩ := hstep
  refine ⟨{ s with pub }, by simp only [step, heq]; rfl, ?_⟩
  exact h.keepStore (h.reached.step (a := .activateWrite 0 msgsRead) trivial heq).1
    (hmore.trans h.idle) hstore

theorem Inv.read (h : s.Inv) : ∃ s', s.step .read = .ok s' ∧ s'.Inv := by
  cases hnext : s.sent[s.read]? with
  | none => exact ⟨s, by simp only [step, hnext], h⟩
  | some msg =>
    by_cases hatt : s.pub.attached 0
    · obtain ⟨hlt, hget⟩ := List.getElem?_eq_some_iff.mp hnext
      obtain ⟨hmore, hreq⟩ := h.requests msg (hget ▸ List.getElem_mem hlt)
      have hroom : s.pub.xpub.subscriptions.prefixes.card + 0 < 2 ^ 32 := by
        have := h.card_prefixes
        omega
      obtain ⟨xpub, hproc, hlis, hcounts, -, hstore, hothers⟩ :=
        processMsg_spec h.listening hmore hreq h.counts hroom h.store
      have hread : s.pub.step (.read 0 msg) = .ok { s.pub with xpub } := by
        simp only [Publisher.step, if_pos hatt, hproc]
        rfl
      refine ⟨{ s with pub := { s.pub with xpub }, read := s.read + 1 }, ?_, ⟨h.spot,
        (h.reached.step (a := .read 0 msg) trivial hread).1, h.idle, h.lossy, h.noWelcome, hlis,
        hcounts, fun key p hp => ?_, fun key => ?_, hlt, h.bounded, h.requests⟩⟩
      · simp only [step, hnext, if_pos hatt, hread]
        rfl
      · by_contra hne
        exact hne (h.only key p ((hothers p hne key).mp hp))
      refine (hstore key).trans ?_
      have htake : s.sent.take (s.read + 1) = s.sent.take s.read ++ [msg] := by
        rw [List.take_add_one, hnext]
        rfl
      have hlast : subscribed (s.sent.take (s.read + 1)) =
          subscribedStep (subscribed (s.sent.take s.read)) msg := by
        rw [htake, subscribed, List.foldl_append]
        rfl
      exact iff_of_eq (congrArg (key ∈ ·) hlast.symm)
    · exact ⟨s, by simp only [step, hnext, if_neg hatt], h⟩

/-- What publishing a local topic does: two parts are sent. -/
theorem Inv.publish_local (h : s.Inv) (data : List UInt8) {entry : TopicEntry}
    (hreg : s.spot.registry.lookup topicId = some entry) (hloc : entry.location = .localTopic) :
    ∃ p1 p2, s.publish topicId data = (none, { s with pub := p2 }) ∧
      s.pub.Sent (topicFrame topicId) p1 ∧ p1.Sent (dataFrame data) p2 ∧ SameStore s.pub p2 := by
  have hsend : ∀ {p : Publisher} (msg : Msg), p.Inv → p.lossy = true →
      ∃ p', p.xsend msg = (p', true) ∧ p.Sent msg p' := by
    intro p msg hp hlossy
    rcases hp.xsend msg with ⟨p', heq, hsent, -⟩ | ⟨d, -, -, hno, -⟩
    · exact ⟨p', heq, hsent⟩
    · rw [hlossy] at hno
      cases hno
  obtain ⟨p1, h1, hsent1⟩ := hsend (topicFrame topicId) h.reached.inv h.lossy
  obtain ⟨p2, h2, hsent2⟩ := hsend (dataFrame data) hsent1.inv (hsent1.lossy.trans h.lossy)
  have hstore1 := xsend_sameStore s.pub (topicFrame topicId)
  have hstore2 := xsend_sameStore p1 (dataFrame data)
  rw [h1] at hstore1
  rw [h2] at hstore2
  refine ⟨p1, p2, ?_, hsent1, hsent2, hstore1.trans hstore2⟩
  simp only [SpotInstance.publish, hreg, hloc, ne_eq, not_true_eq_false, if_false, h1, h2]

theorem publish_other
    (h : ∀ entry, s.spot.registry.lookup topicId = some entry → entry.location ≠ .localTopic) :
    (s.publish topicId data).2 = s := by
  rw [publish]
  split
  · rfl
  · rename_i entry hreg
    rw [if_pos (h entry hreg)]

theorem Inv.publish (h : s.Inv) (topicId : TopicId) (data : List UInt8) :
    (s.publish topicId data).2.Inv := by
  by_cases hlocal : ∃ entry, s.spot.registry.lookup topicId = some entry ∧
      entry.location = .localTopic
  · obtain ⟨entry, hreg, hloc⟩ := hlocal
    obtain ⟨p1, p2, heq, -, hsent, hstore⟩ := h.publish_local data hreg hloc
    rw [heq]
    exact h.keepStore ⟨hsent.inv, hsent.going⟩ (hsent.moreSend.trans (dataFrame_more data)) hstore
  · rw [publish_other fun entry hreg hloc => hlocal ⟨entry, hreg, hloc⟩]
    exact h

theorem Inv.step (h : s.Inv) {e : SpotEvent} (hadm : s.Admissible e) :
    ∃ s', s.step e = .ok s' ∧ s'.Inv := by
  cases e with
  | call c => exact h.call hadm
  | requestsRead pipe msgsRead => exact ⟨_, rfl, h.requestsRead pipe msgsRead⟩
  | attach new => exact h.attach new
  | read => exact h.read
  | activateWrite msgsRead => exact h.activateWrite msgsRead
  | publish topicId data => exact ⟨_, rfl, h.publish topicId data⟩

end SpotInstance

end ServerLink

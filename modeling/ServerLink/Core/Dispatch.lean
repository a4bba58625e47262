import ServerLink.Core.Publisher

/-!
# ServerLink.Core.Dispatch

Which pipes get a message that an XPUB or PUB socket sends, not in manual mode and without
inverted matching.

In every state of the socket the pipes that can be written to are the eligible ones of the
distributor (`Inv`). A pipe is `Marked` for a part if it matches when the first part is sent;
`Sent` says what sending a part does to it. A marked pipe with room takes all parts of the
message, since only the last one is counted.
-/

namespace ServerLink

open Checked Outbound CheckedRun List Publisher Dist

namespace PubAction

/-- The action does not turn manual mode on. -/
def NonManual : PubAction → Prop
  | .setsockopt (.manual value) | .setsockopt (.manualLastValue value) => value = false
  | _ => True

/-- The pipe starts to be terminated. -/
def Ends (pipe : PipeId) : PubAction → Prop
  | .hiccup p _ | .finish p _ _ => p = pipe
  | _ => False

def IsSend : PubAction → Prop
  | .send _ => True
  | _ => False

end PubAction

namespace Publisher

variable {o : Outbound} {d : Dist} {E : PipeId → Prop}

/-- The pipes of the socket and its distributor agree. -/
structure Inv (s : Publisher) : Prop where
  manual : s.xpub.manual = false
  invert : s.invertMatching = false
  welcome : s.xpub.welcomeMsg = .init
  dist : s.xpub.dist.Ok
  more : s.xpub.dist.more = s.moreSend
  store : s.xpub.subscriptions.Ok
  stored : ∀ k p, p ∈ s.xpub.subscriptions.pipesAt k → s.attached p
  ends : ∀ p, s.attached p → (s.ends p).Ok
  /-- A pipe that can be written to is eligible. -/
  awake : ∀ p, s.attached p → (s.ends p).ending = false → (s.ends p).pipe.outActive = true →
    s.xpub.dist.Eligible p
  /-- A pipe that will be activated is not. -/
  asleep : ∀ p, s.attached p → (s.ends p).wakes = true → ¬ s.xpub.dist.Eligible p

theorem new_inv : new.Inv where
  manual := rfl
  invert := rfl
  welcome := rfl
  dist := empty_isOk
  more := rfl
  store := MTrie.empty_ok
  stored k p hp := by simp [new, XPub.new] at hp
  ends p hp := by simp [attached, new, XPub.new, empty, ArrayT.empty] at hp
  awake p hp := by simp [attached, new, XPub.new, empty, ArrayT.empty] at hp
  asleep p hp := by simp [attached, new, XPub.new, empty, ArrayT.empty] at hp

theorem newPub_inv : newPub.Inv where
  manual := rfl
  invert := rfl
  welcome := rfl
  dist := empty_isOk
  more := rfl
  store := MTrie.empty_ok
  stored := new_inv.stored
  ends := new_inv.ends
  awake := new_inv.awake
  asleep := new_inv.asleep

variable {s s' : Publisher} {p q : PipeId} {msg : Msg}

/-! ### Pipes and subscriptions -/

theorem Inv.setEnd (hI : s.Inv) (ho : o.Ok)
    (hawake : o.ending = false → o.pipe.outActive = true → s.xpub.dist.Eligible p)
    (hasleep : o.wakes = true → ¬ s.xpub.dist.Eligible p) : (s.setEnd p o).Inv := by
  refine ⟨hI.manual, hI.invert, hI.welcome, hI.dist, hI.more, hI.store, hI.stored,
    fun q hq => ?_, fun q hq => ?_, fun q hq => ?_⟩
  · rw [ends_setEnd]
    split
    · exact ho
    · exact hI.ends q hq
  · rw [ends_setEnd]
    split
    · rename_i heq
      exact heq ▸ hawake
    · exact hI.awake q hq
  · rw [ends_setEnd]
    split
    · rename_i heq
      exact heq ▸ hasleep
    · exact hI.asleep q hq

/-- The subscriptions of attached pipes and other fields of the socket change. -/
theorem Inv.setStore (hI : s.Inv) {xpub : XPub} (hm : xpub.manual = false)
    (hw : xpub.welcomeMsg = s.xpub.welcomeMsg) (hd : xpub.dist = s.xpub.dist)
    (hok : xpub.subscriptions.Ok)
    (hs : ∀ k q, q ∈ xpub.subscriptions.pipesAt k → s.attached q) :
    Inv { s with xpub } := by
  have hatt : ∀ q, attached { s with xpub } q ↔ s.attached q := by
    intro q
    simp only [attached, hd]
  refine ⟨hm, hI.invert, hw.trans hI.welcome, ?_, ?_, hok, fun k q hq => (hatt q).mpr (hs k q hq),
    fun q hq => hI.ends q ((hatt q).mp hq), fun q hq => ?_, fun q hq => ?_⟩
  · show xpub.dist.Ok
    rw [hd]
    exact hI.dist
  · show xpub.dist.more = _
    rw [hd]
    exact hI.more
  · show _ → _ → xpub.dist.Eligible q
    rw [hd]
    exact hI.awake q ((hatt q).mp hq)
  · show _ → ¬ xpub.dist.Eligible q
    rw [hd]
    exact hI.asleep q ((hatt q).mp hq)

theorem setXPub_eq_ok {x : Except Fault XPub} (h : s.setXPub x = .ok s') :
    ∃ xpub, x = .ok xpub ∧ s' = { s with xpub } := by
  cases x with
  | error e => cases h
  | ok xpub => exact ⟨xpub, rfl, (Except.ok.inj h).symm⟩

theorem welcome_spec {o' : Outbound} (ho : o.Ok) (he : o.ending = false)
    (hact : o.pipe.outActive = true) (h : s.welcome o = .ok o') :
    o'.Ok ∧ o'.ending = false ∧ o'.pipe.outActive = true := by
  unfold welcome at h
  split at h
  · cases h
    exact ⟨ho, he, hact⟩
  split at h
  · cases h
  rename_i o1 hw
  cases h
  have htakes : takes o s.welcomeMsg = true := by
    show (o.write s.welcomeMsg).2 = true
    rw [hw]
  obtain ⟨hpipe, hend⟩ := o.offered_pipe s.welcomeMsg
  rw [hw] at hpipe hend
  refine ⟨(ho.offered s.welcomeMsg).congr ?_ ?_, ?_, ?_⟩
  · rw [flush_pipe, hpipe]
  · rw [flush_ending, hend]
  · rw [flush_ending, ← hend, offered_ending, he]
  · rw [flush_pipe, ← hpipe]
    exact (o.offered_wakes htakes).1

theorem xattachPipe_eq {x : XPub} (h : x.welcomeMsg = .init) (p : PipeId) :
    x.xattachPipe p false [] = .ok { x with dist := x.dist.attach p } := by
  simp [XPub.xattachPipe, h, Msg.size, Msg.init, XPub.readAll]

theorem Inv.join (hI : s.Inv) (hj : s.xpub.dist.Joins p d)
    (hmem : ∀ q, q ∈ d.pipes.items ↔ s.attached q ∨ q = p) (ho : o.Ok) (hw : o.wakes = false) :
    ((s.withDist d).setEnd p o).Inv := by
  have hends := (s.withDist d).ends_setEnd p o
  refine ⟨hI.manual, hI.invert, hI.welcome, hj.ok, hj.more.trans hI.more, hI.store,
    fun k q hq => (hmem q).mpr (.inl (hI.stored k q hq)), fun q hq => ?_, fun q hq he hact => ?_,
    fun q hq hwakes helig => ?_⟩
  · rw [hends]
    split
    · exact ho
    · rename_i heq
      exact hI.ends q (((hmem q).mp hq).resolve_right heq)
  · rw [hends] at he hact
    refine (hj.eligible q).mpr ?_
    by_cases heq : q = p
    · exact .inr heq
    · rw [if_neg heq] at he hact
      exact .inl (hI.awake q (((hmem q).mp hq).resolve_right heq) he hact)
  · rw [hends] at hwakes
    by_cases heq : q = p
    · rw [if_pos heq, hw] at hwakes
      cases hwakes
    · rw [if_neg heq] at hwakes
      exact hI.asleep q (((hmem q).mp hq).resolve_right heq) hwakes
        (((hj.eligible q).mp helig).resolve_right heq)

theorem Inv.xattachPipe_eq_ok (hI : s.Inv) (new : NewOutbound)
    (h : s.xattachPipe p new.o = .ok s') :
    ∃ o, o.Ok ∧ o.pipe.outActive = true ∧ o.written = (s.ends p).written ∧
      s' = (s.withDist (s.xpub.dist.attach p)).setEnd p o := by
  unfold xattachPipe at h
  rw [xattachPipe_eq hI.welcome] at h
  split at h
  · cases h
  rename_i o hw
  obtain ⟨ho, he, hact⟩ := welcome_spec new.ok new.notEnding new.outActive hw
  exact ⟨{ o with written := (s.ends p).written }, ho.congr rfl rfl, hact, rfl,
    (Except.ok.inj h).symm⟩

theorem Inv.pipeTerminated (hI : s.Inv) (hp : s.attached p)
    (h : s.setXPub (s.xpub.xpipeTerminated p) = .ok s') : s'.Inv := by
  obtain ⟨xpub, hterm, rfl⟩ := setXPub_eq_ok h
  obtain ⟨t, topics, hok, hpipes, -, -, heq⟩ :=
    XPub.xpipeTerminated_default hI.manual hI.store p
  cases heq.symm.trans hterm
  obtain ⟨hl, hmem⟩ := hI.dist.pipeTerminated hp
  refine ⟨hI.manual, hI.invert, hI.welcome, hl.ok, hl.more.trans hI.more, hok, fun k q hq => ?_,
    fun q hq => hI.ends q ((hmem q).mp hq).1, fun q hq he hact => ?_, fun q hq hwakes helig => ?_⟩
  · rw [hpipes, Finset.mem_erase] at hq
    exact (hmem q).mpr ⟨hI.stored k q hq.2, hq.1⟩
  · obtain ⟨hq, hne⟩ := (hmem q).mp hq
    exact (hl.eligible q).mpr ⟨hI.awake q hq he hact, hne⟩
  · exact hI.asleep q ((hmem q).mp hq).1 hwakes ((hl.eligible q).mp helig).1

/-- The report of the peer, and `xwrite_activated` if the pipe waits for it. -/
def reported (s : Publisher) (p : PipeId) (msgsRead : Int) : Publisher :=
  let s' := s.setEnd p ((s.ends p).activateWrite msgsRead)
  if (s.ends p).wakes then s'.xwriteActivated p else s'

theorem wakes_activateWrite (o : Outbound) (msgsRead : Int) :
    (o.activateWrite msgsRead).wakes = false := by
  unfold wakes activateWrite wakes
  cases o.pipe.outActive <;> simp

theorem Inv.reported (hI : s.Inv) (hp : s.attached p) {msgsRead : Int}
    (hge : (s.ends p).pipe.peersMsgsRead ≤ msgsRead)
    (hle : msgsRead ≤ (s.ends p).pipe.msgsWritten) : (s.reported p msgsRead).Inv := by
  have ho := ((hI.ends p hp).activateWrite hge hle).1
  have hnot := wakes_activateWrite (s.ends p) msgsRead
  unfold Publisher.reported
  rcases Bool.eq_false_or_eq_true (s.ends p).wakes with hw | hw
  · rw [if_pos hw]
    obtain ⟨hj, hmem⟩ := hI.dist.activated hp (hI.asleep p hp hw)
    refine hI.join hj (fun q => (hmem q).trans ?_) ho hnot
    exact ⟨.inl, fun hq => hq.elim id fun heq => heq ▸ hp⟩
  rw [if_neg (by simp [hw])]
  refine hI.setEnd ho (fun he hact => hI.awake p hp he ?_) fun h => ?_
  · simpa [activateWrite, hw] using hact
  · rw [hnot] at h
    cases h

theorem Inv.hiccup (hI : s.Inv) (hp : s.attached p) {unread : Nat}
    (hle : (unread : Int) ≤ (s.ends p).pipe.msgsWritten - (s.ends p).pipe.peersMsgsRead) :
    (s.setEnd p ((s.ends p).hiccup unread)).Inv := by
  refine hI.setEnd ((hI.ends p hp).hiccup hle).1 (fun he => ?_) fun hw => ?_
  · cases he
  · simp [Outbound.wakes, Outbound.hiccup] at hw

theorem Inv.finish (hI : s.Inv) (hp : s.attached p) {state : PipeState} (hs : state ≠ .active)
    (outActive : Bool) : (s.setEnd p ((s.ends p).finish state outActive)).Inv := by
  refine hI.setEnd ((hI.ends p hp).finish state outActive) (fun he => ?_) fun hw => ?_
  · cases he
  · simp [Outbound.wakes, Outbound.finish, hs] at hw

theorem Inv.xsetsockopt (hI : s.Inv) {option : XPubOption}
    (hn : (PubAction.setsockopt option).NonManual) (h : s.xsetsockopt option = .ok s') :
    s'.Inv ∧ s'.moreSend = s.moreSend ∧ s'.xpub.dist = s.xpub.dist ∧ s'.ends = s.ends ∧
      s'.lossy = if let .nodrop value := option then !value else s.lossy := by
  cases option with
  | subscribe topic | unsubscribe topic =>
    simp only [Publisher.xsetsockopt, hI.manual, Bool.false_eq_true, if_false] at h
    cases h
    exact ⟨hI, rfl, rfl, rfl, rfl⟩
  | manual value | manualLastValue value =>
    obtain rfl : value = false := hn
    cases h
    exact ⟨⟨rfl, hI.invert, hI.welcome, hI.dist, hI.more, hI.store, hI.stored, hI.ends, hI.awake,
      hI.asleep⟩, rfl, rfl, rfl, rfl⟩
  | verbose value | verboser value | nodrop value | onlyFirstSubscribe value | welcomeMsg data =>
    cases h
    exact ⟨⟨hI.manual, hI.invert, hI.welcome, hI.dist, hI.more, hI.store, hI.stored, hI.ends,
      hI.awake, hI.asleep⟩, rfl, rfl, rfl, rfl⟩

theorem xrecv_dist (x : XPub) : x.xrecv.2.dist = x.dist ∧ x.xrecv.2.manual = x.manual ∧
    x.xrecv.2.welcomeMsg = x.welcomeMsg ∧ x.xrecv.2.subscriptions = x.subscriptions := by
  unfold XPub.xrecv
  split
  · exact ⟨rfl, rfl, rfl, rfl⟩
  · split
    · split <;> exact ⟨rfl, rfl, rfl, rfl⟩
    · exact ⟨rfl, rfl, rfl, rfl⟩

/-! ### Sending a part -/

/-- The pipe gets the part at hand: it matched the first part of the message, or matches this
one if it is the first. -/
def Marked (s : Publisher) (msg : Msg) (q : PipeId) : Prop :=
  if s.moreSend = true then s.xpub.dist.Matching q
  else q ∈ s.xpub.subscriptions.matchPipes msg.data ∧ s.xpub.dist.Eligible q

/-- The same socket with other marks in the distributor. -/
structure Marks (s : Publisher) (msg : Msg) (d : Dist) : Prop where
  ok : d.Ok
  more : d.more = s.moreSend
  mem : ∀ q, q ∈ d.pipes.items ↔ s.attached q
  matching : ∀ q, d.Matching q ↔ s.Marked msg q
  eligible : ∀ q, d.Eligible q ↔ s.xpub.dist.Eligible q

theorem Inv.marks (hI : s.Inv) (msg : Msg) :
    ∃ d, (if s.moreSend then s else s.matchFirst msg) = s.withDist d ∧ s.Marks msg d := by
  rcases Bool.eq_false_or_eq_true s.moreSend with hmore | hmore
  · rw [if_pos hmore]
    exact ⟨s.xpub.dist, rfl, hI.dist, hI.more, fun _ => Iff.rfl, fun q => by simp [Marked, hmore],
      fun _ => Iff.rfl⟩
  have hpipes : ∀ q ∈ s.xpub.subscriptions.matchPipes msg.data,
      q ∈ s.xpub.dist.unmatch.pipes.items := by
    intro q hq
    obtain ⟨k, -, hk⟩ := MTrie.mem_matchPipes.mp hq
    exact hI.stored k q hk
  have hmatched := hI.dist.unmatch.matchAll (hI.more.trans hmore) hpipes
  refine ⟨_, ?_, hmatched.ok, hmatched.more.trans hI.more, hmatched.mem, fun q => ?_,
    hmatched.eligible⟩
  · simp [matchFirst, hmore, hI.manual, hI.invert, withDist]
  · rw [hmatched.matching]
    simp only [not_matching_unmatch, false_or, Marked, hmore, Bool.false_eq_true, if_false]
    exact Iff.rfl

theorem Inv.withDist (hI : s.Inv) (hm : s.Marks msg d) : (s.withDist d).Inv :=
  ⟨hI.manual, hI.invert, hI.welcome, hm.ok, hm.more, hI.store,
    fun k q hq => (hm.mem q).mpr (hI.stored k q hq), fun q hq => hI.ends q ((hm.mem q).mp hq),
    fun q hq he hact => (hm.eligible q).mpr (hI.awake q ((hm.mem q).mp hq) he hact),
    fun q hq hw helig => hI.asleep q ((hm.mem q).mp hq) hw ((hm.eligible q).mp helig)⟩

/-- What sending a part does. -/
structure Sent (s : Publisher) (msg : Msg) (s' : Publisher) : Prop where
  inv : s'.Inv
  attached : ∀ q, s'.attached q ↔ s.attached q
  offered : ∀ q, s.Marked msg q → s'.ends q = offered (s.ends q) msg
  others : ∀ q, ¬ s.Marked msg q → s'.ends q = s.ends q
  moreSend : s'.moreSend = msg.more
  matching : msg.more = true →
    ∀ q, s'.xpub.dist.Matching q ↔ s.Marked msg q ∧ takes (s.ends q) msg = true
  lossy : s'.lossy = s.lossy

theorem Inv.sendPart (hI : s.Inv) (hm : s.Marks msg d) :
    s.Sent msg ((s.withDist d).sendPart msg) := by
  obtain ⟨ho, hmore⟩ : d.Offered s.ends msg d.Matching (d.sendToMatching s.ends msg) ∧
      (d.sendToMatching s.ends msg).1.more = msg.more := hm.ok.sendToMatching
  have hdist : ((s.withDist d).sendPart msg).xpub.dist =
      if msg.more then (d.sendToMatching s.ends msg).1
      else (d.sendToMatching s.ends msg).1.unmatch := rfl
  have hatt : ∀ q, ((s.withDist d).sendPart msg).attached q ↔ s.attached q := by
    intro q
    refine Iff.trans ?_ ((ho.mem q).trans (hm.mem q))
    unfold attached
    rw [hdist]
    split <;> exact Iff.rfl
  have helig : ∀ q, ((s.withDist d).sendPart msg).xpub.dist.Eligible q ↔
      s.xpub.dist.Eligible q ∧ (s.Marked msg q → takes (s.ends q) msg = true) := by
    intro q
    refine Iff.trans ?_ ((ho.eligible q).trans ?_)
    · rw [hdist]
      split <;> exact Iff.rfl
    · rw [hm.eligible, hm.matching]
  have hoffered : ∀ q, s.Marked msg q →
      ((s.withDist d).sendPart msg).ends q = offered (s.ends q) msg := by
    intro q hq
    exact ho.offered q ((hm.matching q).mpr hq)
  have hothers : ∀ q, ¬ s.Marked msg q → ((s.withDist d).sendPart msg).ends q = s.ends q := by
    intro q hq
    exact ho.others q fun h => hq ((hm.matching q).mp h)
  refine ⟨⟨hI.manual, hI.invert, hI.welcome, ?_, ?_, hI.store,
    fun k q hq => (hatt q).mpr (hI.stored k q hq), fun q hq => ?_, fun q hq he hact => ?_,
    fun q hq hw => ?_⟩, hatt, hoffered, hothers, rfl, fun hmsg q => ?_, rfl⟩
  · rw [hdist]
    split
    · exact ho.ok
    · exact ho.ok.unmatch
  · rw [hdist]
    split
    · exact hmore
    · exact hmore
  · by_cases hmark : s.Marked msg q
    · rw [hoffered q hmark]
      exact (hI.ends q ((hatt q).mp hq)).offered msg
    · rw [hothers q hmark]
      exact hI.ends q ((hatt q).mp hq)
  · -- A pipe that still can be written to has not refused the part.
    have hq := (hatt q).mp hq
    refine (helig q).mpr ?_
    by_cases hmark : s.Marked msg q
    · rw [hoffered q hmark] at he hact
      rw [offered_ending] at he
      cases htakes : takes (s.ends q) msg with
      | true =>
        obtain ⟨hout, -⟩ := takes_iff.mp htakes
        exact ⟨hI.awake q hq he hout, fun _ => rfl⟩
      | false =>
        rw [(hI.ends q hq).offered_outActive he htakes] at hact
        cases hact
    · rw [hothers q hmark] at he hact
      exact ⟨hI.awake q hq he hact, fun h => absurd h hmark⟩
  · intro h
    obtain ⟨h, htakes⟩ := (helig q).mp h
    by_cases hmark : s.Marked msg q
    · rw [hoffered q hmark, ((s.ends q).offered_wakes (htakes hmark)).2] at hw
      cases hw
    · rw [hothers q hmark] at hw
      exact hI.asleep q ((hatt q).mp hq) hw h
  · rw [hdist, if_pos hmsg, ho.matching, hm.matching]
    exact ⟨fun h => ⟨h.1, h.2 h.1⟩, fun h => ⟨h.1, fun _ => h.2⟩⟩

/-- `xsend` sends the part or, if a pipe is full and messages must not be dropped, changes
nothing but the marks. -/
theorem Inv.xsend (hI : s.Inv) (msg : Msg) :
    (∃ s', s.xsend msg = (s', true) ∧ s.Sent msg s' ∧
      (s.lossy = false → ∀ q, s.Marked msg q → (s.ends q).pipe.checkHwm = true)) ∨
    (∃ d, s.xsend msg = (s.withDist d, false) ∧ s.Marks msg d ∧ s.lossy = false ∧
      ∃ q, s.Marked msg q ∧ (s.ends q).pipe.checkHwm = false) := by
  obtain ⟨d, heq, hm⟩ := hI.marks msg
  have hcheck := hm.ok.checkHwm_iff fun q => (s.ends q).pipe.checkHwm
  unfold Publisher.xsend
  rw [heq]
  by_cases hgo : (s.lossy || d.checkHwm fun q => (s.ends q).pipe.checkHwm) = true
  · rw [if_pos (by exact hgo)]
    refine .inl ⟨_, rfl, hI.sendPart hm, fun hlossy q hq => ?_⟩
    rw [hlossy, Bool.false_or] at hgo
    exact hcheck.mp hgo q ((hm.matching q).mpr hq)
  rw [if_neg (by exact hgo)]
  simp only [Bool.or_eq_true, not_or, Bool.not_eq_true] at hgo
  refine .inr ⟨d, rfl, hm, hgo.1, ?_⟩
  by_contra hnone
  push Not at hnone
  have hall := hcheck.mpr fun q hq => by
    simpa using hnone q ((hm.matching q).mp hq)
  rw [hgo.2] at hall
  cases hall

/-! ### What happens between two parts -/

/-- What an action other than sending does; the pipes in `E` start to be terminated. -/
structure Quiet (s : Publisher) (E : PipeId → Prop) (s' : Publisher) : Prop where
  moreSend : s'.moreSend = s.moreSend
  written : ∀ q, (s'.ends q).written = (s.ends q).written
  matching : ∀ q, s'.xpub.dist.Matching q → s.xpub.dist.Matching q
  /-- A matching pipe does not become full. -/
  room : ∀ q, s'.xpub.dist.Matching q →
    (s.ends q).pipe.checkHwm = true → (s'.ends q).pipe.checkHwm = true
  kept : ∀ q, s.attached q → (s.ends q).ending = false → ¬ E q →
    s'.attached q ∧ (s'.ends q).ending = false ∧
      (s.xpub.dist.Matching q → s'.xpub.dist.Matching q)
  outActive : ∀ q, s'.attached q → (s'.ends q).ending = false →
    (s.attached q → (s.ends q).ending = false → (s.ends q).pipe.outActive = true) →
    (s'.ends q).pipe.outActive = true

theorem quiet_of_eq (hm : s'.moreSend = s.moreSend) (hd : s'.xpub.dist = s.xpub.dist)
    (he : s'.ends = s.ends) : s.Quiet E s' := by
  refine ⟨hm, fun q => by rw [he], fun q => by rw [hd]; exact id, fun q _ => by rw [he]; exact id,
    fun q hq hend _ => ?_, fun q hq hend h => ?_⟩
  · unfold attached
    rw [hd, he]
    exact ⟨hq, hend, id⟩
  · unfold attached at hq h
    rw [he] at hend ⊢
    exact h (hd ▸ hq) hend

theorem quiet_setEnd (hw : o.written = (s.ends p).written)
    (hroom : (s.ends p).pipe.checkHwm = true → o.pipe.checkHwm = true)
    (hend : (s.ends p).ending = false → o.ending = false ∨ E p)
    (hact : o.ending = false → (s.ends p).ending = false ∧
      ((s.ends p).pipe.outActive = true → o.pipe.outActive = true)) :
    s.Quiet E (s.setEnd p o) := by
  refine ⟨rfl, fun q => ?_, fun q => id, fun q _ => ?_, fun q hq he hE => ⟨hq, ?_, id⟩,
    fun q hq he h => ?_⟩
  · rw [ends_setEnd]
    split
    · rename_i heq
      rw [hw, heq]
    · rfl
  · rw [ends_setEnd]
    split
    · rename_i heq
      exact heq ▸ hroom
    · exact id
  · rw [ends_setEnd]
    split
    · rename_i heq
      subst heq
      exact (hend he).resolve_right hE
    · exact he
  rw [ends_setEnd] at he ⊢
  split at he
  · rename_i heq
    subst heq
    rw [if_pos rfl]
    obtain ⟨he', hact⟩ := hact he
    exact hact (h hq he')
  · rename_i heq
    rw [if_neg heq]
    exact h hq he

theorem quiet_join (hj : s.xpub.dist.Joins p d)
    (hmem : ∀ q, q ∈ d.pipes.items ↔ s.attached q ∨ q = p)
    (hw : o.written = (s.ends p).written) (hact : o.pipe.outActive = true)
    (hold : s.attached p → o.ending = (s.ends p).ending ∧
      ((s.ends p).pipe.checkHwm = true → o.pipe.checkHwm = true)) :
    s.Quiet E ((s.withDist d).setEnd p o) := by
  have hends := (s.withDist d).ends_setEnd p o
  refine ⟨rfl, fun q => ?_, fun q => (hj.matching q).mp, fun q hq => ?_, fun q hq he _ => ?_,
    fun q hq he h => ?_⟩
  · rw [hends]
    split
    · rename_i heq
      rw [hw, heq]
    · rfl
  · rw [hends]
    split
    · rename_i heq
      subst heq
      exact (hold ((hj.matching q).mp hq).1).2
    · exact id
  · refine ⟨(hmem q).mpr (.inl hq), ?_, (hj.matching q).mpr⟩
    rw [hends]
    split
    · rename_i heq
      subst heq
      exact (hold hq).1.trans he
    · exact he
  · rw [hends] at he ⊢
    split at he
    · rename_i heq
      rw [if_pos heq]
      exact hact
    · rename_i heq
      rw [if_neg heq]
      exact h (((hmem q).mp hq).resolve_right heq) he

theorem quiet_reported (hI : s.Inv) (hp : s.attached p) {msgsRead : Int}
    (hge : (s.ends p).pipe.peersMsgsRead ≤ msgsRead)
    (hle : msgsRead ≤ (s.ends p).pipe.msgsWritten) : s.Quiet E (s.reported p msgsRead) := by
  have hroom := ((hI.ends p hp).activateWrite hge hle).2
  unfold reported
  rcases Bool.eq_false_or_eq_true (s.ends p).wakes with hw | hw
  · rw [if_pos hw]
    obtain ⟨hj, hmem⟩ := hI.dist.activated hp (hI.asleep p hp hw)
    refine quiet_join hj (fun q => (hmem q).trans ?_) rfl ?_ fun _ => ⟨rfl, hroom⟩
    · exact ⟨.inl, fun hq => hq.elim id fun heq => heq ▸ hp⟩
    · simp [activateWrite, hw]
  · rw [if_neg (by simp [hw])]
    refine quiet_setEnd rfl hroom .inl fun he => ⟨he, fun hact => ?_⟩
    simp [activateWrite, hact]

theorem quiet_pipeTerminated (hI : s.Inv) (hp : s.attached p) (he : (s.ends p).ending = true)
    {xpub : XPub} (hd : xpub.dist = s.xpub.dist.pipeTerminated p) :
    s.Quiet E { s with xpub } := by
  obtain ⟨hl, hmem⟩ := hI.dist.pipeTerminated hp
  refine ⟨rfl, fun _ => rfl, fun q hq => ?_, fun _ _ => id, fun q hq he' _ => ?_,
    fun q hq he' h => ?_⟩
  · rw [hd] at hq
    exact ((hl.matching q).mp hq).1
  · have hne : q ≠ p := by
      rintro rfl
      rw [he] at he'
      cases he'
    unfold attached
    rw [hd]
    exact ⟨(hmem q).mpr ⟨hq, hne⟩, he', fun hm => (hl.matching q).mpr ⟨hm, hne⟩⟩
  · unfold attached at hq
    rw [hd] at hq
    exact h ((hmem q).mp hq).1 he'

/-- Every action other than sending keeps the invariant and is quiet. -/
theorem Inv.step_quiet (hI : s.Inv) {a : PubAction} (hn : a.NonManual) (hs : ¬ a.IsSend) :
    Ensures (step s a) fun s' => s'.Inv ∧ s.Quiet a.Ends s' ∧
      (a ≠ .setsockopt (.nodrop false) → s.lossy = false → s'.lossy = false) := by
  have hsame : ∀ {E : PipeId → Prop}, Ensures (.ok s : Except Fault Publisher) fun s' =>
      s'.Inv ∧ s.Quiet E s' ∧
        (a ≠ .setsockopt (.nodrop false) → s.lossy = false → s'.lossy = false) :=
    .ok ⟨hI, quiet_of_eq rfl rfl rfl, fun _ => id⟩
  cases a with
  | attach p new =>
    refine .ite (fun _ => hsame) fun hp s' h => ?_
    obtain ⟨o, ho, hact, hw, rfl⟩ := hI.xattachPipe_eq_ok new h
    obtain ⟨hj, hmem⟩ := hI.dist.attach hp
    exact ⟨hI.join hj hmem ho (by simp [wakes, hact]),
      quiet_join hj hmem hw hact fun h => absurd h hp, fun _ => id⟩
  | read p msg =>
    refine .ite (fun hp s' h => ?_) fun _ => hsame
    obtain ⟨xpub, hproc, rfl⟩ := setXPub_eq_ok h
    obtain ⟨hd, hm, hw, hok, hmem⟩ := XPub.processMsg_default hI.manual hI.store hproc
    refine ⟨hI.setStore hm hw hd hok fun k q hq => ?_, quiet_of_eq rfl hd rfl, fun _ => id⟩
    rcases hmem k q hq with rfl | hq
    · exact hp
    · exact hI.stored k q hq
  | activateWrite p msgsRead =>
    refine .ite (fun hc => .ok ⟨hI.reported hc.1 hc.2.1 hc.2.2,
      quiet_reported hI hc.1 hc.2.1 hc.2.2, fun _ hl => ?_⟩) fun _ => hsame
    split <;> exact hl
  | hiccup p unread =>
    exact .ite (fun hc => .ok ⟨hI.hiccup hc.1 hc.2, quiet_setEnd rfl
      ((hI.ends p hc.1).hiccup hc.2).2 (fun _ => .inr rfl) fun he => (by cases he), fun _ => id⟩)
      fun _ => hsame
  | finish p state outActive =>
    exact .ite (fun hc => .ok ⟨hI.finish hc.1 hc.2 outActive, quiet_setEnd rfl id
      (fun _ => .inr rfl) fun he => (by cases he), fun _ => id⟩) fun _ => hsame
  | pipeTerminated p =>
    refine .ite (fun hc s' h => ?_) fun _ => hsame
    have hinv := hI.pipeTerminated hc.1 h
    obtain ⟨xpub, hterm, rfl⟩ := setXPub_eq_ok h
    obtain ⟨t, topics, -, -, -, -, heq⟩ :=
      XPub.xpipeTerminated_default hI.manual hI.store p
    cases heq.symm.trans hterm
    exact ⟨hinv, quiet_pipeTerminated hI hc.1 hc.2 rfl, fun _ => id⟩
  | setsockopt option =>
    intro s' h
    obtain ⟨hinv, hm, hd, he, hl⟩ := hI.xsetsockopt hn h
    refine ⟨hinv, quiet_of_eq hm hd he, fun hne hlossy => ?_⟩
    rw [hl]
    cases option with
    | nodrop value =>
      cases value with
      | true => rfl
      | false => exact absurd rfl hne
    | _ => exact hlossy
  | recv =>
    obtain ⟨hd, hm, hw, ht⟩ := xrecv_dist s.xpub
    refine .ok ⟨hI.setStore (hm.trans hI.manual) hw hd ?_ fun k q hq => ?_,
      quiet_of_eq rfl hd rfl, fun _ => id⟩
    · rw [ht]
      exact hI.store
    · rw [ht] at hq
      exact hI.stored k q hq
  | send msg => exact absurd trivial hs

/-! ### Runs -/

/-- In the middle of a message the matching pipes are not full. -/
def Going (s : Publisher) : Prop :=
  s.moreSend = true → ∀ q, s.xpub.dist.Matching q → (s.ends q).pipe.checkHwm = true

theorem Going.quiet (h : s.Going) (hq : s.Quiet E s') : s'.Going := by
  intro hmore q hm
  exact hq.room q hm (h (hq.moreSend.symm.trans hmore) q (hq.matching q hm))

theorem Sent.going (hs : s.Sent msg s') : s'.Going := by
  intro hmore q hm
  have hmsg := hs.moreSend.symm.trans hmore
  obtain ⟨hmark, htakes⟩ := (hs.matching hmsg q).mp hm
  rw [hs.offered q hmark, offered_checkHwm _ hmsg]
  exact (takes_iff.mp htakes).2.2

/-- A part is refused only if it is the first of its message. -/
theorem Going.first_of_refused (h : s.Going)
    (hfull : ∃ q, s.Marked msg q ∧ (s.ends q).pipe.checkHwm = false) : s.moreSend = false := by
  obtain ⟨q, hmark, hq⟩ := hfull
  by_contra hmore
  rw [Bool.not_eq_false] at hmore
  unfold Marked at hmark
  rw [if_pos hmore] at hmark
  rw [h hmore q hmark] at hq
  cases hq

/-- Messages must not be dropped, and no pipe has ever refused one. -/
structure Lossless (s : Publisher) : Prop where
  lossy : s.lossy = false
  outActive : ∀ q, s.attached q → (s.ends q).ending = false → (s.ends q).pipe.outActive = true

theorem Lossless.sent (h : s.Lossless) (hI : s.Inv) (hs : s.Sent msg s')
    (hroom : ∀ q, s.Marked msg q → (s.ends q).pipe.checkHwm = true) : s'.Lossless := by
  refine ⟨hs.lossy.trans h.lossy, fun q hq he => ?_⟩
  have hq := (hs.attached q).mp hq
  by_cases hmark : s.Marked msg q
  · rw [hs.offered q hmark] at he ⊢
    rw [offered_ending] at he
    exact ((s.ends q).offered_wakes ((hI.ends q hq).takes he (hroom q hmark) msg)).1
  · rw [hs.others q hmark] at he ⊢
    exact h.outActive q hq he

/-- What holds in every state. -/
structure Reached (s : Publisher) : Prop where
  inv : s.Inv
  going : s.Going

/-- Messages are lost only after `nodrop` was switched off. -/
theorem Reached.step (hR : s.Reached) {a : PubAction} (hn : a.NonManual) (h : step s a = .ok s') :
    s'.Reached ∧ (a ≠ .setsockopt (.nodrop false) → s.Lossless → s'.Lossless) := by
  by_cases hs : a.IsSend
  · cases a with
    | send msg =>
      rcases hR.inv.xsend msg with ⟨s1, heq, hsent, hroom⟩ | ⟨d, heq, hm, -, hfull⟩
      · simp only [Publisher.step, heq] at h
        cases h
        exact ⟨⟨hsent.inv, hsent.going⟩, fun _ hl => hl.sent hR.inv hsent (hroom hl.lossy)⟩
      simp only [Publisher.step, heq] at h
      cases h
      refine ⟨⟨hR.inv.withDist hm, fun hmore => ?_⟩, fun _ hl => ⟨hl.lossy, fun q hq => ?_⟩⟩
      · cases (hR.going.first_of_refused hfull).symm.trans hmore
      · exact hl.outActive q ((hm.mem q).mp hq)
    | _ => exact hs.elim
  · obtain ⟨hI, hq, hlossy⟩ := hR.inv.step_quiet hn hs _ h
    exact ⟨⟨hI, hR.going.quiet hq⟩, fun hne hl => ⟨hlossy hne hl.lossy,
      fun q hatt he => hq.outActive q hatt he (hl.outActive q)⟩⟩

/-! ### Sending a message -/

/-- The parts of a message are sent one after the other; after each part other things may
happen. The result is `none` if a part is not sent. -/
def sendParts (s : Publisher) : List (Msg × List PubAction) → Except Fault (Option Publisher)
  | [] => .ok (some s)
  | (msg, as) :: rest =>
    match s.xsend msg with
    | (_, false) => .ok none
    | (s', true) =>
      match run step s' as with
      | .error e => .error e
      | .ok s'' => s''.sendParts rest

/-- The pipe is in the middle of a message: it has taken the parts `w` and takes the next. -/
structure Taking (s : Publisher) (p : PipeId) (w : List Msg) : Prop where
  moreSend : s.moreSend = true
  attached : s.attached p
  notEnding : (s.ends p).ending = false
  matching : s.xpub.dist.Matching p
  room : (s.ends p).pipe.checkHwm = true
  written : (s.ends p).written = w

/-- The pipe is not one of those that get the message. -/
structure Skipping (s : Publisher) (p : PipeId) (w : List Msg) : Prop where
  moreSend : s.moreSend = true
  matching : ¬ s.xpub.dist.Matching p
  written : (s.ends p).written = w

variable {w : List Msg}

theorem Taking.quiet (h : s.Taking p w) (hq : s.Quiet E s') (hE : ¬ E p) : s'.Taking p w := by
  obtain ⟨hatt, hend, hmatch⟩ := hq.kept p h.attached h.notEnding hE
  have hm := hmatch h.matching
  exact ⟨hq.moreSend.trans h.moreSend, hatt, hend, hm, hq.room p hm h.room,
    (hq.written p).trans h.written⟩

theorem Skipping.quiet (h : s.Skipping p w) (hq : s.Quiet E s') : s'.Skipping p w :=
  ⟨hq.moreSend.trans h.moreSend, fun hm => h.matching (hq.matching p hm),
    (hq.written p).trans h.written⟩

theorem Sent.taken (hs : s.Sent msg s') (hI : s.Inv) (hp : s.attached p)
    (hmark : s.Marked msg p) (he : (s.ends p).ending = false)
    (hroom : (s.ends p).pipe.checkHwm = true) :
    (s'.ends p).written = (s.ends p).written ++ [msg] ∧
      (msg.more = false → (s'.ends p).flushed = (s'.ends p).written.length) ∧
      (msg.more = true → s'.Taking p ((s.ends p).written ++ [msg])) := by
  have htakes := (hI.ends p hp).takes he hroom msg
  have hw : (s'.ends p).written = (s.ends p).written ++ [msg] := by
    rw [hs.offered p hmark, offered_written, if_pos htakes]
  refine ⟨hw, fun hmore => ?_, fun hmore => ?_⟩
  · rcases (s.ends p).offered_cases msg with ⟨-, flushed, heq, hf⟩ | ⟨hno, -⟩
    · rw [hs.offered p hmark, heq, hf hmore]
      simp
    · rw [htakes] at hno
      cases hno
  · refine ⟨hs.moreSend.trans hmore, (hs.attached p).mpr hp, ?_,
      (hs.matching hmore p).mpr ⟨hmark, htakes⟩, ?_, hw⟩
    · rw [hs.offered p hmark, offered_ending, he]
    · rw [hs.offered p hmark, offered_checkHwm _ hmore, hroom]

theorem Sent.skipped (hs : s.Sent msg s') (hmark : ¬ s.Marked msg p) :
    (s'.ends p).written = (s.ends p).written ∧
      (msg.more = true → s'.Skipping p (s.ends p).written) := by
  have hw : (s'.ends p).written = (s.ends p).written := by rw [hs.others p hmark]
  exact ⟨hw, fun hmore => ⟨hs.moreSend.trans hmore,
    fun hm => hmark ((hs.matching hmore p).mp hm).1, hw⟩⟩

/-- A message of one or more parts, with what happens after each part but the last. -/
structure Sending where
  init : List (Msg × List PubAction)
  last : Msg
  init_more : ∀ x ∈ init, x.1.more = true
  last_more : last.more = false
  between : ∀ x ∈ init, ∀ a ∈ x.2, a.NonManual ∧ ¬ a.IsSend

namespace Sending

def parts (m : Sending) : List Msg := m.init.map Prod.fst ++ [m.last]

def first (m : Sending) : Msg := ((m.init.map Prod.fst).head?).getD m.last

def steps (m : Sending) : List (Msg × List PubAction) := m.init ++ [(m.last, [])]

theorem steps_eq (m : Sending) : ∃ as rest, m.steps = (m.first, as) :: rest := by
  unfold steps first
  cases m.init with
  | nil => exact ⟨[], [], rfl⟩
  | cons x init => exact ⟨x.2, init ++ [(m.last, [])], rfl⟩

/-- The pipe starts to be terminated before the last part. -/
def Ends (m : Sending) (p : PipeId) : Prop := ∃ x ∈ m.init, ∃ a ∈ x.2, a.Ends p

end Sending

theorem Reached.between {as : List PubAction} (hR : s.Reached)
    (has : ∀ a ∈ as, a.NonManual ∧ ¬ a.IsSend) (hr : run Publisher.step s as = .ok s') :
    s'.Reached ∧ ((∀ a ∈ as, ¬ a.Ends p) → s.Taking p w → s'.Taking p w) ∧
      (s.Skipping p w → s'.Skipping p w) := by
  induction as generalizing s with
  | nil =>
    cases hr
    exact ⟨hR, fun _ => id, id⟩
  | cons a as ih =>
    cases hs : Publisher.step s a with
    | error e => simp [run, hs] at hr
    | ok s1 =>
      rw [run_cons_ok _ hs] at hr
      obtain ⟨hn, hsend⟩ := has a mem_cons_self
      obtain ⟨-, hq, -⟩ := hR.inv.step_quiet hn hsend _ hs
      obtain ⟨hR', ht, hk⟩ := ih (hR.step hn hs).1 (fun b hb => has b (mem_cons_of_mem _ hb)) hr
      refine ⟨hR', fun hE htaking => ?_, fun hskip => hk (hskip.quiet hq)⟩
      exact ht (fun b hb => hE b (mem_cons_of_mem _ hb)) (htaking.quiet hq (hE a mem_cons_self))

theorem Reached.sendParts_cons {as : List PubAction} {rest : List (Msg × List PubAction)}
    (hR : s.Reached) (h : s.sendParts ((msg, as) :: rest) = .ok (some s')) :
    ∃ s1 s2, s.Sent msg s1 ∧ run Publisher.step s1 as = .ok s2 ∧ s2.sendParts rest = .ok (some s') ∧
      (s.lossy = false → ∀ q, s.Marked msg q → (s.ends q).pipe.checkHwm = true) := by
  rw [sendParts] at h
  rcases hR.inv.xsend msg with ⟨s1, heq, hsent, hroom⟩ | ⟨d, heq, -⟩
  · rw [heq] at h
    dsimp only at h
    cases hr : run Publisher.step s1 as with
    | error e =>
      rw [hr] at h
      cases h
    | ok s2 =>
      rw [hr] at h
      exact ⟨s1, s2, hsent, hr, h, hroom⟩
  · rw [heq] at h
    cases Except.ok.inj h

/-- A pipe that is marked when the first part is sent and has room takes every part. -/
theorem Reached.sendParts_taken (m : Sending) (hR : s.Reached) (hp : s.attached p)
    (hmark : s.Marked m.first p) (he : (s.ends p).ending = false)
    (hroom : (s.ends p).pipe.checkHwm = true) (hE : ¬ m.Ends p)
    (h : s.sendParts m.steps = .ok (some s')) :
    (s'.ends p).written = (s.ends p).written ++ m.parts ∧
      (s'.ends p).flushed = (s'.ends p).written.length := by
  obtain ⟨init, last, hinit, hlast, hbetween⟩ := m
  -- On the parts that are left: the first of them is taken, and then the others.
  induction init generalizing s with
  | nil =>
    obtain ⟨s1, s2, hsent, hr, hrest, -⟩ := hR.sendParts_cons h
    cases hr
    cases hrest
    obtain ⟨hw, hf, -⟩ := hsent.taken hR.inv hp hmark he hroom
    exact ⟨hw, hf hlast⟩
  | cons x init ih =>
    obtain ⟨s1, s2, hsent, hr, hrest, -⟩ := hR.sendParts_cons h
    obtain ⟨-, -, ht⟩ := hsent.taken hR.inv hp hmark he hroom
    obtain ⟨hR2, hkeep, -⟩ := Reached.between (p := p) ⟨hsent.inv, hsent.going⟩
      (hbetween _ mem_cons_self) hr
    have ht2 := hkeep (fun a ha hend => hE ⟨_, mem_cons_self, a, ha, hend⟩)
      (ht (hinit _ mem_cons_self))
    have hmark2 : ∀ msg, s2.Marked msg p := by
      intro msg
      simp only [Marked, ht2.moreSend, if_true]
      exact ht2.matching
    obtain ⟨hw, hf⟩ := ih hR2 ht2.attached ht2.notEnding ht2.room
      (fun x hx => hinit x (mem_cons_of_mem _ hx))
      (fun x hx => hbetween x (mem_cons_of_mem _ hx)) (hmark2 _)
      (fun hend => hE (by
        obtain ⟨x, hx, hend⟩ := hend
        exact ⟨x, mem_cons_of_mem _ hx, hend⟩)) hrest
    refine ⟨?_, hf⟩
    rw [hw, ht2.written]
    simp [Sending.parts]

/-- A pipe that is not marked when the first part is sent gets no part. -/
theorem Reached.sendParts_skipped (m : Sending) (hR : s.Reached)
    (hmark : ¬ s.Marked m.first p) (h : s.sendParts m.steps = .ok (some s')) :
    (s'.ends p).written = (s.ends p).written := by
  obtain ⟨init, last, hinit, hlast, hbetween⟩ := m
  induction init generalizing s with
  | nil =>
    obtain ⟨s1, s2, hsent, hr, hrest, -⟩ := hR.sendParts_cons h
    cases hr
    cases hrest
    exact (hsent.skipped hmark).1
  | cons x init ih =>
    obtain ⟨s1, s2, hsent, hr, hrest, -⟩ := hR.sendParts_cons h
    obtain ⟨-, hk⟩ := hsent.skipped hmark
    obtain ⟨hR2, -, hkeep⟩ := Reached.between (p := p) ⟨hsent.inv, hsent.going⟩
      (hbetween _ mem_cons_self) hr
    have hk2 := hkeep (hk (hinit _ mem_cons_self))
    have hmark2 : ∀ msg, ¬ s2.Marked msg p := by
      intro msg
      simp only [Marked, hk2.moreSend, if_true]
      exact hk2.matching
    rw [ih hR2 (fun x hx => hinit x (mem_cons_of_mem _ hx))
      (fun x hx => hbetween x (mem_cons_of_mem _ hx)) (hmark2 _) hrest, hk2.written]

/-! ### Dispatch -/

/-- The pipe is subscribed to a prefix of the frame. -/
def Matches (s : Publisher) (msg : Msg) (p : PipeId) : Prop :=
  ∃ topic, topic <+: msg.data ∧ p ∈ s.xpub.subscriptions.pipesAt topic

/-- `XPUB_NODROP` is set first and not cleared again. -/
def NodropFromStart (as : List PubAction) : Prop :=
  as.head? = some (.setsockopt (.nodrop true)) ∧ .setsockopt (.nodrop false) ∉ as

theorem marked_first (hm : s.moreSend = false) :
    s.Marked msg p ↔ s.Matches msg p ∧ s.xpub.dist.Eligible p := by
  simp only [Marked, hm, Bool.false_eq_true, if_false, MTrie.mem_matchPipes]
  exact Iff.rfl

theorem start_reached {start : Publisher} (h : start = new ∨ start = newPub) : start.Reached := by
  rcases h with rfl | rfl
  · exact ⟨new_inv, nofun⟩
  · exact ⟨newPub_inv, nofun⟩

theorem run_reached {as : List PubAction} (hR : s.Reached) (has : ∀ a ∈ as, a.NonManual)
    (hr : run step s as = .ok s') :
    s'.Reached ∧ (.setsockopt (.nodrop false) ∉ as → s.Lossless → s'.Lossless) := by
  induction as generalizing s with
  | nil =>
    cases hr
    exact ⟨hR, fun _ => id⟩
  | cons a as ih =>
    cases hs : step s a with
    | error e => simp [run, hs] at hr
    | ok s1 =>
      rw [run_cons_ok _ hs] at hr
      obtain ⟨hR1, hl1⟩ := hR.step (has a mem_cons_self) hs
      obtain ⟨hR', hl'⟩ := ih hR1 (fun b hb => has b (mem_cons_of_mem _ hb)) hr
      refine ⟨hR', fun hnot hl => ?_⟩
      exact hl' (fun hmem => hnot (mem_cons_of_mem _ hmem))
        (hl1 (fun heq => hnot (heq ▸ mem_cons_self)) hl)

/-- A socket that must not drop messages from the start never has. -/
theorem lossless_of_nodrop {start : Publisher} (h : start = new ∨ start = newPub)
    {as : List PubAction} (has : ∀ a ∈ as, a.NonManual) (hn : NodropFromStart as)
    (hr : run step start as = .ok s) : s.Lossless := by
  obtain ⟨hhead, hnot⟩ := hn
  cases as with
  | nil => cases hhead
  | cons a as =>
    cases hhead
    have hR := start_reached h
    have hstep : step start (.setsockopt (.nodrop true)) = .ok { start with lossy := false } := rfl
    have hR1 := (hR.step (a := .setsockopt (.nodrop true)) trivial hstep).1
    refine (run_reached hR1 (fun b hb => has b (mem_cons_of_mem _ hb)) hr).2
      (fun hmem => hnot (mem_cons_of_mem _ hmem)) ⟨rfl, fun q hq => ?_⟩
    rcases h with rfl | rfl <;>
      simp [attached, new, newPub, XPub.new, empty, ArrayT.empty] at hq

/-- In every state an XPUB or PUB socket can reach, a message that is sent successfully is
written once, part by part, to every pipe that matches its first part, is not full and is not
terminated meanwhile, and if messages must not be dropped, to the full ones as well; and it is
not written to any pipe that does not match. A part that is refused is the first one, and is
written to no pipe. -/
theorem dispatch {start : Publisher} (hstart : start = new ∨ start = newPub)
    {as : List PubAction} (has : ∀ a ∈ as, a.NonManual)
    (hr : run step start as = .ok s) :
    (∀ m : Sending, s.moreSend = false → s.sendParts m.steps = .ok (some s') → ∀ p,
      (s.attached p → s.Matches m.first p → (s.ends p).ending = false → ¬ m.Ends p →
        (s.ends p).pipe.checkHwm = true ∨ NodropFromStart as →
        (s'.ends p).written = (s.ends p).written ++ m.parts ∧
          (s'.ends p).flushed = (s'.ends p).written.length) ∧
      (¬ s.Matches m.first p → (s'.ends p).written = (s.ends p).written)) ∧
    ∀ msg, s.xsend msg = (s', false) → s.moreSend = false ∧ s'.ends = s.ends := by
  have hR := (run_reached (start_reached hstart) has hr).1
  refine ⟨fun m hmore hsend p => ⟨fun hp hmatch he hE hroom => ?_, fun hmatch => ?_⟩,
    fun msg hsend => ?_⟩
  · obtain ⟨hmark, hroom⟩ : s.Marked m.first p ∧ (s.ends p).pipe.checkHwm = true := by
      rcases hroom with hroom | hn
      · have hact : (s.ends p).pipe.outActive = true := by
          by_contra hact
          rw [(hR.inv.ends p hp).stopped he (by simpa using hact)] at hroom
          cases hroom
        exact ⟨(marked_first hmore).mpr ⟨hmatch, hR.inv.awake p hp he hact⟩, hroom⟩
      have hl := lossless_of_nodrop hstart has hn hr
      have hmark := (marked_first hmore).mpr ⟨hmatch, hR.inv.awake p hp he (hl.outActive p hp he)⟩
      obtain ⟨bs, rest, hsteps⟩ := m.steps_eq
      rw [hsteps] at hsend
      obtain ⟨s1, s2, -, -, -, hroom⟩ := hR.sendParts_cons hsend
      exact ⟨hmark, hroom hl.lossy p hmark⟩
    exact hR.sendParts_taken m hp hmark he hroom hE hsend
  · exact hR.sendParts_skipped m (fun hmark => hmatch ((marked_first hmore).mp hmark).1) hsend
  · rcases hR.inv.xsend msg with ⟨s1, heq, -⟩ | ⟨d, heq, -, -, hfull⟩
    · rw [heq] at hsend
      cases (Prod.mk.inj hsend).2
    · rw [heq] at hsend
      cases hsend
      exact ⟨hR.going.first_of_refused hfull, rfl⟩

/-- A new pipe with the given high watermark. -/
def newEnd (hwm : Int) (h : 0 ≤ hwm ∧ hwm < 2 ^ 31) : NewOutbound where
  o := { pipe := Pipe.new 0 1 0 hwm }
  ok := ⟨h.2, Int.le_refl 0, fun _ => h.1, fun _ => rfl, nofun⟩
  notEnding := rfl
  outActive := rfl

/-- Two subscribers, one of them twice to what is sent, and a message of two parts between
which a third pipe comes. -/
def subscribers : List PubAction :=
  [.attach 0 (newEnd 1 (by decide)), .attach 1 (newEnd 0 (by decide)),
    .read 0 (.initSubscribe [97]), .read 0 (.initSubscribe []), .read 1 (.initSubscribe [98])]

def twoParts : Sending where
  init := [((Msg.initBuffer [97, 1]).setFlags Msg.moreFlag, [.attach 2 (newEnd 0 (by decide))])]
  last := .initBuffer [2]
  init_more := by decide
  last_more := by decide
  between x hx a ha := by
    obtain rfl := mem_singleton.mp hx
    obtain rfl := mem_singleton.mp ha
    exact ⟨trivial, id⟩

theorem dispatch_twoParts : ∃ s s', run step new subscribers = .ok s ∧
    s.sendParts twoParts.steps = .ok (some s') ∧
    (s'.ends 0).written = (s.ends 0).written ++ twoParts.parts ∧
    (s'.ends 1).written = (s.ends 1).written := by
  have hnm : ∀ a ∈ subscribers, a.NonManual := by simp [subscribers, PubAction.NonManual]
  obtain ⟨s, hr, hmore, hatt, htopic, hout, hend, hroom⟩ :
      ∃ s, run step new subscribers = .ok s ∧ s.moreSend = false ∧ s.attached 0 ∧
        0 ∈ s.xpub.subscriptions.pipesAt [97] ∧
        (∀ topic ∈ ([97, 1] : List UInt8).inits, 1 ∉ s.xpub.subscriptions.pipesAt topic) ∧
        (s.ends 0).ending = false ∧ (s.ends 0).pipe.checkHwm = true :=
    ⟨_, rfl, rfl, by decide, by decide, by decide, rfl, rfl⟩
  have hreach : reaches step new subscribers
      (fun s => (s.sendParts twoParts.steps).toOption.join.isSome) = true := by
    decide +kernel
  obtain ⟨s1, hr1, hsent⟩ := of_reaches hreach
  cases hr.symm.trans hr1
  obtain ⟨s', hs'⟩ : ∃ s', s.sendParts twoParts.steps = .ok (some s') := by
    cases hs : s.sendParts twoParts.steps with
    | error e => simp [hs, Except.toOption] at hsent
    | ok r =>
      obtain ⟨s', rfl⟩ := Option.isSome_iff_exists.mp (by simpa [hs, Except.toOption] using hsent)
      exact ⟨s', rfl⟩
  have h := (dispatch (.inl rfl) hnm hr).1 twoParts hmore hs'
  refine ⟨s, s', hr, hs', ((h 0).1 hatt ⟨[97], by decide, htopic⟩ hend ?_ (.inl hroom)).1,
    (h 1).2 ?_⟩
  · simp [Sending.Ends, twoParts, PubAction.Ends]
  · intro ⟨topic, hprefix, hmem⟩
    exact hout topic ((mem_inits _ _).mpr hprefix) hmem

end Publisher

end ServerLink

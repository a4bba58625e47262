import ServerLink.Spot.Publish

/-!
# ServerLink.Spot.Interleaving

Calls of `publish` from several threads. A call takes the lock of the instance shared with
other calls of `publish`, looks its topic up and sends two frames, each of them in one
step; the calls that change the instance take the lock alone. Nothing keeps the frames of
two calls apart: `frames_paired` says that they stay in pairs as long as no call sends its
topic while another one is between its two frames.
-/

namespace ServerLink

open Checked CheckedRun List

/-- Where a call of `publish` stands. -/
inductive PublishPhase
  /-- It holds the lock, and the topic is local. -/
  | ready
  /-- It has sent the topic. -/
  | topicSent
  | returned (rc : Option Errno)
  deriving Repr, DecidableEq

/-- A call of `publish`. -/
structure PublishCall where
  topicId : TopicId
  data : List UInt8
  phase : PublishPhase
  deriving Repr, DecidableEq

/-- A frame that has entered the publisher's socket. -/
structure EnteredFrame where
  call : Nat
  msg : Msg
  /-- The socket has matched the pipes against this frame. -/
  matched : Bool
  deriving Repr, DecidableEq

/-- An instance and the calls of `publish`, each with a number. -/
structure Publishing where
  spot : SpotPubsub
  pub : Publisher
  calls : Nat → Option PublishCall
  /-- The calls that hold the lock. -/
  holders : Finset Nat
  entered : List EnteredFrame

/-- What can happen: a call is made, sends its topic or its data, a call that takes the lock
alone, an event at one of the publisher's pipes. -/
inductive PublishEvent
  | publish (call : Nat) (topicId : TopicId) (data : List UInt8)
  | sendTopic (call : Nat)
  | sendData (call : Nat)
  | exclusive (c : SpotCall)
  | pipe (a : PubAction)

/-- The action is one at a pipe. -/
def PubAction.AtPipe : PubAction → Prop
  | .send _ | .setsockopt _ | .recv => False
  | _ => True

instance (a : PubAction) : Decidable a.AtPipe := by
  unfold PubAction.AtPipe
  split <;> infer_instance

namespace Publishing

open SpotInstance

def new (inprocEndpoint : Uri) : Publishing where
  spot := .new inprocEndpoint
  pub := .new
  calls := fun _ => none
  holders := ∅
  entered := []

def setCall (s : Publishing) (call : Nat) (c : PublishCall) : Publishing :=
  { s with calls := Function.update s.calls call (some c) }

/-- The call returns and gives up the lock. -/
def finish (s : Publishing) (call : Nat) (c : PublishCall) (rc : Option Errno) : Publishing :=
  { s.setCall call { c with phase := .returned rc } with holders := s.holders.erase call }

/-- The start of `publish`: the lock, and the look at the registry. -/
def publish (s : Publishing) (call : Nat) (topicId : TopicId) (data : List UInt8) :
    Publishing :=
  match s.spot.registry.lookup topicId with
  | none => s.setCall call ⟨topicId, data, .returned (some .enoent)⟩
  | some entry =>
    if entry.location ≠ .localTopic then s.setCall call ⟨topicId, data, .returned (some .einval)⟩
    else { s.setCall call ⟨topicId, data, .ready⟩ with holders := insert call s.holders }

/-- `_pub_socket->send`. -/
def send (s : Publishing) (call : Nat) (msg : Msg) : Publishing × Bool :=
  match s.pub.xsend msg with
  | (pub, true) => ({ s with pub, entered := s.entered ++ [⟨call, msg, !s.pub.moreSend⟩] }, true)
  | (pub, false) => ({ s with pub }, false)

def sendTopic (s : Publishing) (call : Nat) (c : PublishCall) : Publishing :=
  match s.send call (topicFrame c.topicId) with
  | (s, true) => s.setCall call { c with phase := .topicSent }
  | (s, false) => s.finish call c (some .eagain)

def sendData (s : Publishing) (call : Nat) (c : PublishCall) : Publishing :=
  match s.send call (dataFrame c.data) with
  | (s, true) => s.finish call c none
  | (s, false) => s.finish call c (some .eagain)

def step (s : Publishing) : PublishEvent → Except Fault Publishing
  | .publish call topicId data =>
    match s.calls call with
    | none => .ok (s.publish call topicId data)
    | some _ => .ok s
  | .sendTopic call =>
    match s.calls call with
    | none => .ok s
    | some c => .ok (if c.phase = .ready then s.sendTopic call c else s)
  | .sendData call =>
    match s.calls call with
    | none => .ok s
    | some c => .ok (if c.phase = .topicSent then s.sendData call c else s)
  | .exclusive c =>
    if s.holders = ∅ then (s.spot.step c).map fun spot => { s with spot } else .ok s
  | .pipe a => if a.AtPipe then (s.pub.step a).map fun pub => { s with pub } else .ok s

/-- A call is between its two frames. -/
def between (s : Publishing) (call : Nat) : Bool :=
  (s.calls call).any fun c => c.phase == .topicSent

/-- A topic is sent while no call is between its two frames. -/
def Alone (s : Publishing) : PublishEvent → Prop
  | .sendTopic _ => ∀ call ∈ s.holders, s.between call = false
  | _ => True

instance (s : Publishing) (e : PublishEvent) : Decidable (s.Alone e) := by
  unfold Alone
  split <;> infer_instance

/-! ### The frames of a call -/

/-- A call with its arguments. -/
abbrev Published := Nat × TopicId × List UInt8

/-- The frame with the topic: the pipes are matched against it. -/
def topicEntered (p : Published) : EnteredFrame := ⟨p.1, topicFrame p.2.1, true⟩

/-- The frame with the data: it goes where the topic went. -/
def dataEntered (p : Published) : EnteredFrame := ⟨p.1, dataFrame p.2.2, false⟩

/-- The calls that have sent both frames, and the one that has sent its topic. -/
structure Inv (s : Publishing) (done : List Published) (current : Option Published) : Prop where
  lossy : s.pub.lossy = true
  moreSend : s.pub.moreSend = current.isSome
  entered : s.entered =
    (done.flatMap fun p => [topicEntered p, dataEntered p]) ++ current.toList.map topicEntered
  between : ∀ call topicId data,
    s.calls call = some ⟨topicId, data, .topicSent⟩ ↔ current = some (call, topicId, data)
  returned : ∀ call topicId data,
    s.calls call = some ⟨topicId, data, .returned none⟩ ↔ (call, topicId, data) ∈ done
  nodup : (done.map Prod.fst).Nodup
  holds : ∀ call c, s.calls call = some c → c.phase = .topicSent ∨ c.phase = .ready →
    call ∈ s.holders

theorem new_inv (inprocEndpoint : Uri) : (new inprocEndpoint).Inv [] none where
  lossy := rfl
  moreSend := rfl
  entered := rfl
  between := by simp [new]
  returned := by simp [new]
  nodup := nodup_nil
  holds := by simp [new]

variable {s s' : Publishing} {done : List Published} {current : Option Published} {call : Nat}

/-- A publisher that may drop messages takes every frame. -/
theorem xsend_lossy {p : Publisher} (h : p.lossy = true) (msg : Msg) :
    ∃ p', p.xsend msg = (p', true) ∧ p'.lossy = true ∧ p'.moreSend = msg.more := by
  have hfirst : (if p.moreSend then p else p.matchFirst msg).lossy = true := by
    split
    · exact h
    · exact (matchFirst_sameStore p msg).lossy.trans h
  refine ⟨(if p.moreSend then p else p.matchFirst msg).sendPart msg, ?_, hfirst, rfl⟩
  rw [Publisher.xsend, if_pos (by rw [hfirst, Bool.true_or])]

theorem step_atPipe {p : Publisher} {a : PubAction} (ha : a.AtPipe) :
    Ensures (p.step a) fun p' => p'.lossy = p.lossy ∧ p'.moreSend = p.moreSend := by
  have hsame : Ensures (.ok p : Except Fault Publisher) fun p' =>
      p'.lossy = p.lossy ∧ p'.moreSend = p.moreSend := .ok ⟨rfl, rfl⟩
  have hset : ∀ {q : Publisher} {x : Except Fault XPub}, Ensures (q.setXPub x) fun p' =>
      p'.lossy = q.lossy ∧ p'.moreSend = q.moreSend := by
    intro q x p' hx
    obtain ⟨xpub, -, rfl⟩ := Publisher.setXPub_eq_ok hx
    exact ⟨rfl, rfl⟩
  cases a with
  | attach pipe new =>
    refine .ite (fun _ => hsame) fun _ => ?_
    rw [Publisher.xattachPipe]
    split
    · exact .error _ _
    · exact hset
  | read pipe msg => exact .ite (fun _ => hset) fun _ => hsame
  | activateWrite pipe msgsRead =>
    refine .ite (fun _ => .ok ?_) fun _ => hsame
    split <;> exact ⟨rfl, rfl⟩
  | hiccup pipe unread => exact .ite (fun _ => .ok ⟨rfl, rfl⟩) fun _ => hsame
  | finish pipe state outActive => exact .ite (fun _ => .ok ⟨rfl, rfl⟩) fun _ => hsame
  | pipeTerminated pipe => exact .ite (fun _ => hset) fun _ => hsame
  | setsockopt option => cases ha
  | recv => cases ha
  | send msg => cases ha

/-! ### Steps -/

theorem calls_setCall (s : Publishing) (call : Nat) (c : PublishCall) (i : Nat) :
    (s.setCall call c).calls i = if i = call then some c else s.calls i := by
  simp [setCall, Function.update_apply]

theorem Inv.send (h : s.Inv done current) (call : Nat) (msg : Msg) :
    ∃ pub, s.send call msg = ({ s with pub, entered := s.entered ++
        [⟨call, msg, !current.isSome⟩] }, true) ∧
      pub.lossy = true ∧ pub.moreSend = msg.more := by
  obtain ⟨pub, hsend, hlossy, hmore⟩ := xsend_lossy h.lossy msg
  exact ⟨pub, by rw [Publishing.send, hsend, h.moreSend], hlossy, hmore⟩

/-- A call that is made for the first time. -/
theorem Inv.made (h : s.Inv done current) (hnone : s.calls call = none) {c : PublishCall}
    {holders : Finset Nat} (hphase : c.phase ≠ .topicSent ∧ c.phase ≠ .returned none)
    (hholders : s.holders ⊆ holders) (hcall : c.phase = .ready → call ∈ holders) :
    Inv { s.setCall call c with holders } done current := by
  refine ⟨h.lossy, h.moreSend, h.entered, fun i t d => ?_, fun i t d => ?_, h.nodup,
    fun i c' hc' hp => ?_⟩
  · refine Iff.trans ?_ (h.between i t d)
    rw [calls_setCall]
    split
    · rename_i heq
      rw [heq, hnone]
      exact iff_of_false (fun hc => hphase.1 (by rw [Option.some.inj hc])) (by simp)
    · rfl
  · refine Iff.trans ?_ (h.returned i t d)
    rw [calls_setCall]
    split
    · rename_i heq
      rw [heq, hnone]
      exact iff_of_false (fun hc => hphase.2 (by rw [Option.some.inj hc])) (by simp)
    · rfl
  · have hc' : (s.setCall call c).calls i = some c' := hc'
    rw [calls_setCall] at hc'
    split at hc'
    · rename_i heq
      cases hc'
      rw [heq]
      exact hcall (hp.resolve_left hphase.1)
    · exact hholders (h.holds i c' hc' hp)

theorem Inv.publish (h : s.Inv done current) (hnone : s.calls call = none) (topicId : TopicId)
    (data : List UInt8) : (s.publish call topicId data).Inv done current := by
  rw [Publishing.publish]
  split
  · exact h.made hnone (by simp) (Finset.Subset.refl _) (by simp)
  · split
    · exact h.made hnone (by simp) (Finset.Subset.refl _) (by simp)
    · exact h.made hnone (by simp) (Finset.subset_insert _ _) (fun _ => Finset.mem_insert_self _ _)

/-- The topic of a call enters while no call is between its frames. -/
theorem Inv.sendTopic (h : s.Inv done none) {c : PublishCall} (hc : s.calls call = some c)
    (hready : c.phase = .ready) :
    (s.sendTopic call c).Inv done (some (call, c.topicId, c.data)) := by
  obtain ⟨pub, hsend, hlossy, hmore⟩ := h.send call (topicFrame c.topicId)
  rw [Publishing.sendTopic, hsend]
  refine ⟨hlossy, hmore.trans (topicFrame_more _), ?_, fun i t d => ?_, fun i t d => ?_, h.nodup,
    fun i c' hc' hp => ?_⟩
  · show s.entered ++ _ = _
    rw [h.entered]
    simp [topicEntered]
  · rw [calls_setCall]
    split
    · rename_i heq
      simp [heq, eq_comm]
    · rename_i hne
      refine iff_of_false (fun hi => ?_) (by simpa using fun heq _ _ => hne heq.symm)
      cases (h.between i t d).mp hi
  · rw [calls_setCall]
    split
    · rename_i heq
      refine iff_of_false (by simp) (fun hmem => ?_)
      rw [← h.returned, heq, hc] at hmem
      rw [Option.some.inj hmem] at hready
      cases hready
    · exact h.returned i t d
  · rw [calls_setCall] at hc'
    split at hc'
    · rename_i heq
      rw [heq]
      exact h.holds call c hc (Or.inr hready)
    · exact h.holds i c' hc' hp

/-- The data of the call whose topic came last enters. -/
theorem Inv.sendData (h : s.Inv done current) {c : PublishCall} (hc : s.calls call = some c)
    (hphase : c.phase = .topicSent) :
    (s.sendData call c).Inv (done ++ [(call, c.topicId, c.data)]) none := by
  have hcurrent : current = some (call, c.topicId, c.data) :=
    (h.between _ _ _).mp (by rw [hc, ← hphase])
  have hnot : ∀ t d, (call, t, d) ∉ done := by
    intro t d hmem
    rw [← h.returned, hc] at hmem
    rw [Option.some.inj hmem] at hphase
    cases hphase
  obtain ⟨pub, hsend, hlossy, hmore⟩ := h.send call (dataFrame c.data)
  rw [Publishing.sendData, hsend]
  refine ⟨hlossy, hmore.trans (dataFrame_more _), ?_, fun i t d => ?_, fun i t d => ?_, ?_,
    fun i c' hc' hp => ?_⟩
  · show s.entered ++ _ = _
    rw [h.entered, hcurrent]
    simp [dataEntered]
  · refine iff_of_false (fun hi => ?_) (by simp)
    have hi : (setCall _ call _).calls i = _ := hi
    rw [calls_setCall] at hi
    split at hi
    · cases hi
    · rename_i hne
      rw [h.between, hcurrent, Option.some.injEq, Prod.mk.injEq] at hi
      exact hne hi.1.symm
  · show (setCall _ call _).calls i = _ ↔ _
    rw [calls_setCall, mem_append, mem_singleton]
    split
    · rename_i heq
      subst heq
      simp [hnot, eq_comm]
    · rename_i hne
      rw [h.returned]
      simp [hne]
  · rw [map_append, map_singleton]
    refine nodup_append.mpr ⟨h.nodup, nodup_singleton _, fun i hi j hj heq => ?_⟩
    obtain ⟨⟨i', t, d⟩, hmem, hi'⟩ := mem_map.mp hi
    obtain rfl : i' = call := hi'.trans (heq.trans (mem_singleton.mp hj))
    exact hnot t d hmem
  · have hc' : (setCall _ call _).calls i = some c' := hc'
    rw [calls_setCall] at hc'
    split at hc'
    · cases hc'
      rcases hp with hp | hp <;> cases hp
    · rename_i hne
      exact Finset.mem_erase.mpr ⟨hne, h.holds i c' hc' hp⟩

theorem Inv.keep (h : s.Inv done current) {spot : SpotPubsub} {pub : Publisher}
    (hlossy : pub.lossy = s.pub.lossy) (hmore : pub.moreSend = s.pub.moreSend) :
    Inv { s with spot, pub } done current :=
  ⟨hlossy.trans h.lossy, hmore.trans h.moreSend, h.entered, h.between, h.returned, h.nodup, h.holds⟩

/-- Alone, no call is between its frames. -/
theorem Inv.current_none (h : s.Inv done current)
    (halone : ∀ call ∈ s.holders, s.between call = false) : current = none := by
  cases hcur : current with
  | none => rfl
  | some p =>
    obtain ⟨i, t, d⟩ := p
    have hi := (h.between i t d).mpr hcur
    have hb := halone i (h.holds i _ hi (Or.inl rfl))
    rw [Publishing.between, hi] at hb
    cases hb

/-- As long as no two threads publish at once, what arrives are whole messages. -/
theorem Inv.step (h : s.Inv done current) {e : PublishEvent} (halone : s.Alone e) :
    Ensures (s.step e) fun s' => ∃ done' current', s'.Inv done' current' := by
  have hsame : Ensures (.ok s : Except Fault Publishing) fun s' =>
      ∃ done' current', s'.Inv done' current' := .ok ⟨done, current, h⟩
  cases e with
  | publish call topicId data =>
    rw [Publishing.step]
    split
    · rename_i hnone
      exact .ok ⟨done, current, h.publish hnone topicId data⟩
    · exact hsame
  | sendTopic call =>
    rw [Publishing.step]
    split
    · exact hsame
    rename_i c hc
    split
    · rename_i hready
      obtain rfl := h.current_none halone
      exact .ok ⟨done, _, h.sendTopic hc hready⟩
    · exact hsame
  | sendData call =>
    rw [Publishing.step]
    split
    · exact hsame
    rename_i c hc
    split
    · rename_i hphase
      exact .ok ⟨_, none, h.sendData hc hphase⟩
    · exact hsame
  | exclusive c =>
    exact .ite (fun _ => .map fun _ _ => ⟨done, current, h.keep rfl rfl⟩) fun _ => hsame
  | pipe a =>
    refine .ite (fun ha => .map fun pub hpub => ?_) fun _ => hsame
    obtain ⟨hlossy, hmore⟩ := step_atPipe ha pub hpub
    exact ⟨done, current, h.keep hlossy hmore⟩

/-! ### Whole runs -/

/-- The frames that have entered are those of calls that have returned, one pair each, with
the topic first; the pipes have been matched against the topics and not against the data.
Only while a call is between its frames is there a topic without data, at the end. -/
def Paired (s : Publishing) : Prop :=
  ∃ (done : List Published) (current : Option Published),
    s.entered = (done.flatMap fun p => [topicEntered p, dataEntered p]) ++
        current.toList.map topicEntered ∧
      (done.map Prod.fst).Nodup ∧
      (∀ call topicId data, (call, topicId, data) ∈ done ↔
        s.calls call = some ⟨topicId, data, .returned none⟩) ∧
      ∀ call topicId data, current = some (call, topicId, data) ↔
        s.calls call = some ⟨topicId, data, .topicSent⟩

theorem Inv.paired (h : s.Inv done current) : s.Paired :=
  ⟨done, current, h.entered, h.nodup, fun call t d => (h.returned call t d).symm,
    fun call t d => (h.between call t d).symm⟩

/-- **Concurrent publishes.** In every run in which a topic is sent only while no other call
is between its two frames, the frames stay in pairs. -/
theorem frames_paired {inprocEndpoint : Uri} {events : List PublishEvent}
    (halone : CheckedRun.Along step Alone (new inprocEndpoint) events)
    (hrun : run step (new inprocEndpoint) events = .ok s) : s.Paired := by
  obtain ⟨done, current, h⟩ := run_inv_along (I := fun s => ∃ done current, Inv s done current)
    (fun _ _ _ ⟨_, _, h⟩ halone => h.step halone _) ⟨[], none, new_inv inprocEndpoint⟩ halone hrun
  exact h.paired

/-- Two local topics. -/
def twoTopics : List PublishEvent :=
  [.exclusive (.topicCreate [97]), .exclusive (.topicCreate [98])]

/-- Two calls overlap, but not between the frames of one. -/
theorem frames_paired_overlapping :
    ∃ s, run step (new []) (twoTopics ++ [.publish 0 [97] [1], .publish 1 [98] [2],
        .sendTopic 0, .sendData 0, .sendTopic 1, .sendData 1]) = .ok s ∧ s.Paired := by
  have hreach : reaches step (new []) (twoTopics ++ [.publish 0 [97] [1],
      .publish 1 [98] [2], .sendTopic 0, .sendData 0, .sendTopic 1, .sendData 1])
      (fun _ => true) = true := by
    decide +kernel
  obtain ⟨s, hrun, -⟩ := of_reaches hreach
  exact ⟨s, hrun, frames_paired (by decide +kernel) hrun⟩

/-- The frames of two calls are mixed: the topic of the second goes where the topic of the
first went, and the data of the second is taken for a topic. -/
theorem frames_mixed :
    ∃ s, run step (new []) (twoTopics ++ [.publish 0 [97] [1], .publish 1 [98] [2],
        .sendTopic 0, .sendTopic 1, .sendData 0, .sendData 1]) = .ok s ∧
      s.calls 0 = some ⟨[97], [1], .returned none⟩ ∧
      s.calls 1 = some ⟨[98], [2], .returned none⟩ ∧
      s.entered = [⟨0, topicFrame [97], true⟩, ⟨1, topicFrame [98], false⟩,
        ⟨0, dataFrame [1], false⟩, ⟨1, dataFrame [2], true⟩] :=
  exists_run (by decide +kernel)

end Publishing

end ServerLink

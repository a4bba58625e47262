import ServerLink.Core.Disconnect

/-!
# ServerLink.Core.Identity

The ids a ROUTER gives its peers are unique. Peers choose ids, the user sets some
(`CONNECT_ROUTING_ID`), and the socket makes automatic ones, for peers without an id and for
peers whose id is taken over. All of them are keys of one table, but only the ids of peers are
looked up before they are entered; for the others the code asserts that they are not there yet.
A step is safe when the id it is about to enter is free (`Distinct`).
-/

namespace ServerLink

open CheckedRun

namespace Router

/-- The automatic id that comes next is not in the table. -/
def IntegralFree (s : Router) : Prop := s.table.outPipes s.table.integralId.1 = none

instance (s : Router) : Decidable s.IntegralFree := inferInstanceAs (Decidable (_ = none))

/-- What `identify_peer` asserts of the id it enters. -/
def IdFree (s : Router) (pipe : PipeId) (locallyInitiated : Bool) : Prop :=
  if locallyInitiated && s.table.connectRoutingId ≠ [] then
    s.table.outPipes s.table.connectRoutingId = none
  else if s.rawSocket then s.IntegralFree
  else
    ∀ msg ∈ (s.queue.pipes pipe).read.1,
      if msg.size = 0 then s.IntegralFree
      else s.handover = true → (s.table.outPipes msg.data).isSome → s.IntegralFree

instance (s : Router) (pipe : PipeId) (locallyInitiated : Bool) :
    Decidable (s.IdFree pipe locallyInitiated) :=
  inferInstanceAs (Decidable (ite _ _ _))

variable {s : Router} {pipe : PipeId} {id : Blob}

theorem enter_free {t : RoutingTable} (h : t.outPipes id = none) :
    t.enter pipe id = .ok { t with
      routingId := Function.update t.routingId pipe id
      outPipes := Function.update t.outPipes id (some ⟨pipe, true⟩) } := by
  simp only [RoutingTable.enter, RoutingTable.addOutPipe, h]

theorem identified_free (pipe : PipeId) (h : s.table.outPipes id = none) :
    ∃ s', s.identified pipe id = .ok (true, s') := by
  unfold identified
  rw [enter_free h]
  exact ⟨_, rfl⟩

theorem identifyIntegral_free (pipe : PipeId) (h : s.IntegralFree) :
    ∃ s', s.identifyIntegral pipe = .ok (true, s') :=
  identified_free pipe h

/-- The id of the old pipe becomes free, and its new id is not the one that is taken over. -/
theorem handOver_free {old : OutPipe} (h : s.IntegralFree) (hold : s.table.outPipes id = some old) :
    ∃ s', s.handOver old.pipe = .ok s' ∧ s'.table.outPipes id = none := by
  have hne : id ≠ s.table.integralId.1 := by
    intro heq
    rw [heq, h] at hold
    cases hold
  have hfree : (s.table.integralId.2.eraseOutPipe old.pipe).outPipes s.table.integralId.1 =
      none := by
    simp only [RoutingTable.eraseOutPipe]
    rw [show s.table.integralId.2.outPipes _ = none from h]
    rfl
  have hgone : (s.table.integralId.2.eraseOutPipe old.pipe).outPipes id = none := by
    simp only [RoutingTable.eraseOutPipe]
    rw [show s.table.integralId.2.outPipes id = some old from hold]
    simp
  unfold handOver
  rw [enter_free hfree]
  dsimp only
  split
  · exact ⟨_, rfl, (Function.update_of_ne hne _ _).trans hgone⟩
  · exact ⟨_, rfl, (Function.update_of_ne hne _ _).trans hgone⟩

theorem identifyBy_free (h : s.handover = true → (s.table.outPipes id).isSome → s.IntegralFree) :
    ∃ r, s.identifyBy pipe id = .ok r := by
  unfold identifyBy
  cases hold : s.table.outPipes id with
  | none =>
    obtain ⟨s', heq⟩ := identified_free pipe hold
    exact ⟨_, heq⟩
  | some old =>
    dsimp only
    split
    · exact ⟨_, rfl⟩
    rename_i hh
    have hh : s.handover = true := by simpa using hh
    obtain ⟨s', heq, hfree⟩ := handOver_free (h hh (by rw [hold]; rfl)) hold
    rw [heq]
    obtain ⟨s'', heq'⟩ := identified_free pipe hfree
    exact ⟨_, heq'⟩

/-- `identify_peer` fails no assertion when the id it enters is free. -/
theorem identifyPeer_free {locallyInitiated : Bool} (h : s.IdFree pipe locallyInitiated) :
    ∃ r, s.identifyPeer pipe locallyInitiated = .ok r := by
  unfold IdFree at h
  unfold identifyPeer
  split
  · rename_i hli
    rw [if_pos hli] at h
    dsimp only
    rw [h]
    obtain ⟨s', heq⟩ := identified_free pipe
      (s := { s with table := { s.table with connectRoutingId := [] } }) h
    exact ⟨_, heq⟩
  rename_i hli
  rw [if_neg hli] at h
  split
  · rename_i hraw
    rw [if_pos hraw] at h
    obtain ⟨s', heq⟩ := identifyIntegral_free pipe h
    exact ⟨_, heq⟩
  rename_i hraw
  rw [if_neg hraw] at h
  dsimp only
  cases hr : (s.queue.pipes pipe).read.1 with
  | none => exact ⟨_, rfl⟩
  | some msg =>
    have h := h msg hr
    dsimp only
    split
    · rename_i hsize
      rw [if_pos hsize] at h
      obtain ⟨s', heq⟩ := identifyIntegral_free pipe
        (s := { s with queue := s.queue.modify pipe (·.read.2) }) h
      exact ⟨_, heq⟩
    · rename_i hsize
      rw [if_neg hsize] at h
      exact identifyBy_free (s := { s with queue := s.queue.modify pipe (·.read.2) }) h

/-! ### Other assertions -/

/-- The computation does not fail one of the assertions about routing ids. -/
def KeepsIds {α : Type} (x : Except Fault α) : Prop := ∀ e, x = .error e → ¬ IdFault e

theorem KeepsIds.ok {α : Type} (a : α) : KeepsIds (.ok a) := nofun

theorem KeepsIds.error {α : Type} {e : Fault} (h : ¬ IdFault e) :
    KeepsIds (.error e : Except Fault α) := fun _ he => Except.error.inj he ▸ h

theorem KeepsIds.map {α β : Type} {x : Except Fault α} (h : KeepsIds x) (f : α → β) :
    KeepsIds (x.map f) := by
  cases x with
  | error e => exact .error (h e rfl)
  | ok a => exact .ok _

theorem recvLoop_keepsIds (fuel : Nat) (b : FairQueue) : KeepsIds (b.recvLoop fuel) := by
  induction fuel generalizing b with
  | zero => exact .ok _
  | succ fuel ih =>
    unfold FairQueue.recvLoop
    split
    · exact .ok _
    split
    · exact .error (by simp [IdFault])
    split
    · exact .ok _
    · split
      · exact .error (by simp [IdFault])
      · exact ih _

theorem recvUser_keepsIds (fuel : Nat) (b : FairQueue) : KeepsIds (b.recvUser fuel) := by
  induction fuel generalizing b with
  | zero => exact .ok _
  | succ fuel ih =>
    unfold FairQueue.recvUser
    split
    · rename_i e heq
      exact .error (recvLoop_keepsIds _ b e heq)
    · exact .ok _
    · split
      · exact ih _
      · exact .ok _

theorem endMessage_keepsIds (s : Router) : KeepsIds s.endMessage := by
  unfold endMessage
  split
  · split
    · exact .error (by simp [IdFault])
    · split
      · exact .ok _
      · exact .error (by simp [IdFault])
  · exact .ok _

theorem handOut_keepsIds (s : Router) (frame : RecvFrame) : KeepsIds (s.handOut frame) := by
  unfold handOut
  split
  · exact .ok _
  split
  · rename_i e heq
    exact .error (endMessage_keepsIds _ e heq)
  · exact .ok _

theorem xrecv_keepsIds (s : Router) : KeepsIds s.xrecv := by
  unfold xrecv
  split
  · refine .map ?_ _
    unfold recvPrefetched
    split <;> exact handOut_keepsIds _ _
  split
  · rename_i e heq
    exact .error (recvUser_keepsIds _ _ e heq)
  · exact .ok _
  split
  · dsimp only
    split
    · exact .ok _
    · exact (endMessage_keepsIds _).map _
  · exact .ok _

theorem xhasIn_keepsIds (s : Router) : KeepsIds s.xhasIn := by
  unfold xhasIn
  split
  · exact .ok _
  split
  · rename_i e heq
    exact .error (recvUser_keepsIds _ _ e heq)
  · exact .ok _
  · exact .ok _

/-! ### Runs -/

/-- The id that the step enters, if it enters one that was not looked up, is free. -/
def Distinct (s : Dropping Router) : RouterAction → Prop
  | .attach pipe held locallyInitiated =>
    s.socket.attached pipe = false →
      IdFree { s.socket with
        queue := s.socket.queue.modify pipe fun _ => { parts := held.flatMap MultipartMsg.parts } }
        pipe locallyInitiated
  | .activateRead pipe =>
    pipe ∈ s.socket.anonymousPipes →
      IdFree { s.socket with
        queue := s.socket.queue.modify pipe fun i => { i with inActive := true } } pipe false
  | _ => True

instance (s : Dropping Router) (a : RouterAction) : Decidable (Distinct s a) := by
  unfold Distinct
  split <;> infer_instance

theorem step_keepsIds {s : Dropping Router} {a : RouterAction} (h : Distinct s a) :
    KeepsIds (step s a) := by
  cases a with
  | attach pipe held locallyInitiated =>
    simp only [step]
    split
    · exact .ok _
    rename_i hatt
    obtain ⟨⟨r, s'⟩, heq⟩ := identifyPeer_free (h (by simpa using hatt))
    refine .map ?_ _
    unfold xattachPipe
    rw [heq]
    cases r <;> exact .ok _
  | activateRead pipe =>
    simp only [step]
    split
    · refine .map ?_ _
      unfold activateRead
      split
      · rename_i hanon
        split
        · obtain ⟨⟨r, s'⟩, heq⟩ := identifyPeer_free (h hanon)
          unfold identifyActivated
          rw [heq]
          cases r <;> exact .ok _
        · exact .ok _
      · exact .ok _
    · exact .ok _
  | event pipe e => exact .ok _
  | disconnect pipe => exact .ok _
  | pipeTerminated pipe =>
    simp only [step]
    split <;> exact .ok _
  | setConnectRoutingId id => exact .ok _
  | setHandover value => exact .ok _
  | setRaw => exact .ok _
  | xrecv =>
    simp only [step]
    split
    · rename_i e heq
      exact .error (xrecv_keepsIds _ e heq)
    · exact .ok _
    · exact .ok _
  | xhasIn => exact (xhasIn_keepsIds _).map _

/-- In every run in which each id that is entered without being looked up is free, no assertion
about the uniqueness of routing ids fails. -/
theorem ids_unique (id : BitVec 32) {as : List RouterAction}
    (ha : CheckedRun.Along step Distinct ⟨new id, ∅⟩ as) :
    ∀ e, run step ⟨new id, ∅⟩ as = .error e → ¬ IdFault e :=
  run_fault_along (fun _ _ h => step_keepsIds h) ha

/-- Two peers, one of which takes over the id of a third, and a local connection with an id of
its own. -/
def handoverPeers : List RouterAction :=
  [.setHandover true, .attach 0 [.ofData [] [7]] false, .attach 1 [.ofData [] [7]] false,
    .setConnectRoutingId [9], .attach 2 [] true, .attach 3 [.ofData [] []] false]

theorem ids_unique_handover :
    CheckedRun.Along step Distinct ⟨new 5, ∅⟩ handoverPeers ∧
      ∀ e, run step ⟨new 5, ∅⟩ handoverPeers = .error e → ¬ IdFault e := by
  have ha : CheckedRun.Along step Distinct ⟨new 5, ∅⟩ handoverPeers := by decide
  exact ⟨ha, ids_unique 5 ha⟩

/-- A peer takes the automatic id that comes next, and then a peer without an id connects: the
assertion of `add_out_pipe` fails. The one of `identify_peer` fails when the user sets the id of
a peer for a connection. -/
theorem automatic_id_taken :
    run step ⟨new 5, ∅⟩
        [.attach 0 [.ofData [] [0, 0, 0, 0, 5]] false, .attach 1 [.ofData [] []] false] =
      .error .routerOutPipe ∧
    run step ⟨new 5, ∅⟩
        [.attach 0 [.ofData [] [7]] false, .setConnectRoutingId [7], .attach 1 [] true] =
      .error .routerConnectId :=
  ⟨rfl, rfl⟩

end Router

end ServerLink

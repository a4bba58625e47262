import ServerLink.Core.XPubEffects
import ServerLink.Lib.Run
import ServerLink.Pipe.Distribution

/-!
# ServerLink.Core.Attribution

An XPUB socket in manual mode. The user receives every request and answers it with the options
`SUBSCRIBE` and `UNSUBSCRIBE`, which act on the last pipe: the one whose request was received
last.

The pipes of the requests wait in a queue of their own, which is emptied along with the queue of
pending messages. `Attributed` keeps beside the socket where every pending message comes from
(`origins`), and the pipe the options should act on (`target`). The two queues stay aligned
(`Inv.tracked`) as long as

* user messages, which have no entry in the queue of pipes, are received only while this queue
  is empty;
* no other pipe that has requested something terminates while there is a last pipe, which is
  cleared then;
* a new pipe does not get the address of one that is still in the queue.
-/

namespace ServerLink

open Checked CheckedRun XPub List

/-- Where a pending message comes from: it is a user message, a request of a pipe, or a request
of a pipe that has terminated. -/
inductive Origin
  | user
  | pipe (p : PipeId)
  | gone
  deriving Repr, DecidableEq

namespace Origin

/-- The pipe has terminated. -/
def forget (p : PipeId) : Origin → Origin
  | .pipe q => if q = p then .gone else .pipe q
  | o => o

/-- The pipe that the options should act on when the message has been received. -/
def target (last : Option PipeId) : Origin → Option PipeId
  | .user => last
  | .pipe p => some p
  | .gone => none

/-- The element of the queue of pipes for a request. -/
def Tracks (attached : PipeId → Prop) : Origin → Option PipeId → Prop
  | .user, _ => False
  | .pipe p, q => q = some p ∧ attached p
  | .gone, q => ∀ p, q = some p → ¬ attached p

end Origin

/-- A socket in manual mode, the origins of its pending messages, and the pipe of the request
received last if it is still attached. -/
structure Attributed where
  pub : XPub
  origins : List Origin
  target : Option PipeId

inductive ManualAction
  | attach (pipe : PipeId)
  | read (pipe : PipeId) (msg : Msg)
  | pipeTerminated (pipe : PipeId)
  | recv
  | subscribe (topic : List UInt8)
  | unsubscribe (topic : List UInt8)

namespace Attributed

def new (onlyFirstSubscribe : Bool) : Attributed :=
  ⟨{ XPub.new with manual := true, onlyFirstSubscribe }, [], none⟩

/-- Whether the message is a request of the pipe. -/
def originOf (s : Attributed) (pipe : PipeId) (msg : Msg) : Origin :=
  if (s.pub.requestOf msg).isSome then .pipe pipe else .user

/-- The pipe has terminated, and the user will be told about its subscriptions. -/
def terminated (s : Attributed) (pipe : PipeId) (pub : XPub) : Attributed where
  pub := pub
  origins := s.origins.map (Origin.forget pipe) ++
    replicate (pub.pending.length - s.pub.pending.length) .gone
  target := if s.target = some pipe then none else s.target

/-- A message has been received. -/
def received (s : Attributed) (pub : XPub) : Attributed where
  pub := pub
  origins := s.origins.tail
  target := (s.origins.head?.map (Origin.target s.target)).getD s.target

/-- A new pipe is attached once, and pipes that are not attached are not heard of. -/
def step (s : Attributed) : ManualAction → Except Fault Attributed
  | .attach pipe =>
    if pipe ∈ s.pub.dist.pipes.items then .ok s
    else (s.pub.xattachPipe pipe false []).map fun pub => { s with pub }
  | .read pipe msg =>
    if pipe ∈ s.pub.dist.pipes.items then
      (s.pub.processMsg pipe msg).map fun pub =>
        { s with pub, origins := s.origins ++ [s.originOf pipe msg] }
    else .ok s
  | .pipeTerminated pipe =>
    if pipe ∈ s.pub.dist.pipes.items then
      (s.pub.xpipeTerminated pipe).map (s.terminated pipe)
    else .ok s
  | .recv =>
    match s.pub.xrecv with
    | (none, _) => .ok s
    | (some _, pub) => .ok (s.received pub)
  | .subscribe topic => (s.pub.subscribe topic).map fun pub => { s with pub }
  | .unsubscribe topic => (s.pub.unsubscribe topic).map fun pub => { s with pub }

/-- What keeps the queues aligned, and the last pipe. -/
def Admissible (s : Attributed) : ManualAction → Prop
  | .attach pipe => some pipe ∉ s.pub.pendingPipes
  | .pipeTerminated pipe =>
    s.pub.lastPipe = none ∨ s.pub.lastPipe = some pipe ∨
      ∀ key ∈ s.pub.manualSubscriptions.prefixes, pipe ∉ s.pub.manualSubscriptions.pipesAt key
  | .recv => s.origins.head? = some .user → s.pub.pendingPipes = []
  | _ => True

instance (s : Attributed) (a : ManualAction) : Decidable (s.Admissible a) := by
  unfold Admissible
  split <;> infer_instance

/-- The origins of the requests among the pending messages. -/
def requests (s : Attributed) : List Origin := s.origins.filter (· ≠ .user)

structure Inv (s : Attributed) : Prop where
  manual : s.pub.manual = true
  type : s.pub.type = .xpub
  welcome : s.pub.welcomeMsg = .init
  store : s.pub.subscriptions.Ok
  manualStore : s.pub.manualSubscriptions.Ok
  dist : s.pub.dist.Ok
  length : s.origins.length = s.pub.pending.length
  tracked : List.Forall₂ (Origin.Tracks (· ∈ s.pub.dist.pipes.items)) s.requests s.pub.pendingPipes
  last : s.pub.lastPipe = s.target
  attached : ∀ p, s.target = some p → p ∈ s.pub.dist.pipes.items

variable {s : Attributed} {pipe : PipeId} {msg : Msg} {pub : XPub}

theorem new_inv (onlyFirstSubscribe : Bool) : (new onlyFirstSubscribe).Inv where
  manual := rfl
  type := rfl
  welcome := rfl
  store := MTrie.empty_ok
  manualStore := MTrie.empty_ok
  dist := Dist.empty_isOk
  length := rfl
  tracked := .nil
  last := rfl
  attached := nofun

/-! ### The queue of pipes -/

/-- The elements of the queue are judged by the pipes that are attached; those of terminated
pipes may be so long as their addresses are not used again. -/
theorem Tracks.attach {attached attached' : PipeId → Prop} {o : Origin} {q : Option PipeId}
    (h : o.Tracks attached q) (hkeep : ∀ p, attached p → attached' p)
    (hold : ∀ p, q = some p → attached' p → attached p) : o.Tracks attached' q := by
  cases o with
  | user => exact h
  | pipe p => exact ⟨h.1, hkeep p h.2⟩
  | gone => exact fun p hp ha => h p hp (hold p hp ha)

/-- What `xrecv` makes of the element of the queue. -/
theorem Tracks.filter_hasPipe {d : Dist} (hd : d.Ok) {o : Origin} {q : Option PipeId}
    (h : o.Tracks (· ∈ d.pipes.items) q) (last : Option PipeId) :
    q.filter d.hasPipe = o.target last := by
  cases o with
  | user => exact h.elim
  | pipe p =>
    obtain ⟨rfl, hp⟩ := h
    simp [Origin.target, hd.hasPipe_iff, hp]
  | gone =>
    cases q with
    | none => rfl
    | some p =>
      have hnot := h p rfl
      simp [Origin.target, hd.hasPipe_iff, hnot]

theorem tracked_attach {attached attached' : PipeId → Prop} {os : List Origin}
    {qs : List (Option PipeId)} (h : List.Forall₂ (Origin.Tracks attached) os qs)
    (hkeep : ∀ p, attached p → attached' p)
    (hold : ∀ p, some p ∈ qs → attached' p → attached p) :
    List.Forall₂ (Origin.Tracks attached') os qs := by
  induction h with
  | nil => exact .nil
  | cons ho hos ih =>
    refine .cons (Tracks.attach ho hkeep fun p hp => hold p (by simp [hp])) (ih fun p hp => ?_)
    exact hold p (mem_cons_of_mem _ hp)

theorem Tracks.forget {attached : PipeId → Prop} {o : Origin} {q : Option PipeId}
    (h : o.Tracks attached q) (pipe : PipeId) :
    (o.forget pipe).Tracks (fun p => attached p ∧ p ≠ pipe) q := by
  cases o with
  | user => exact h
  | gone => exact fun p hp ha => h p hp ha.1
  | pipe p =>
    by_cases hp : p = pipe
    · simp only [Origin.forget, if_pos hp]
      intro p' hp' ha
      cases h.1.symm.trans hp'
      exact ha.2 hp
    · simp only [Origin.forget, if_neg hp]
      exact ⟨h.1, h.2, hp⟩

/-- The notifications of the end of a pipe come with null pointers. -/
theorem tracked_gone (attached : PipeId → Prop) (topics : List (List UInt8)) :
    List.Forall₂ (Origin.Tracks attached)
      ((replicate topics.length Origin.gone).filter (· ≠ .user))
      (topics.map fun _ => none) := by
  induction topics with
  | nil => exact .nil
  | cons topic topics ih => exact .cons nofun ih

theorem filter_map_forget (pipe : PipeId) (os : List Origin) :
    (os.map (Origin.forget pipe)).filter (· ≠ .user) =
      (os.filter (· ≠ .user)).map (Origin.forget pipe) := by
  rw [filter_map]
  congr 1
  refine filter_congr fun o _ => ?_
  cases o with
  | pipe p => by_cases hp : p = pipe <;> simp [Origin.forget, hp]
  | user => simp [Origin.forget]
  | gone => simp [Origin.forget]

/-! ### The steps -/

theorem Inv.attach (h : s.Inv) (hnew : pipe ∉ s.pub.dist.pipes.items)
    (hadm : some pipe ∉ s.pub.pendingPipes)
    (hpub : s.pub.xattachPipe pipe false [] = .ok pub) : { s with pub }.Inv := by
  have hsize : s.pub.welcomeMsg.size = 0 := by
    rw [h.welcome]
    rfl
  obtain rfl : { s.pub with dist := s.pub.dist.attach pipe } = pub := by
    simpa [xattachPipe, readAll, hsize] using hpub
  obtain ⟨hj, hmem⟩ := h.dist.attach hnew
  refine { h with dist := hj.ok, tracked := ?_, attached := fun p hp => ?_ }
  · refine tracked_attach h.tracked (fun p hp => (hmem p).mpr (.inl hp)) fun p hp ha => ?_
    refine ((hmem p).mp ha).resolve_right ?_
    intro heq
    exact hadm (heq ▸ hp)
  · exact (hmem p).mpr (.inl (h.attached p hp))

theorem Inv.read_request (h : s.Inv) (hp : pipe ∈ s.pub.dist.pipes.items) {subscribe : Bool}
    {topic : List UInt8} (hreq : s.pub.requestOf msg = some (subscribe, topic))
    (hpub : s.pub.processMsg pipe msg = .ok pub) :
    { s with pub, origins := s.origins ++ [Origin.pipe pipe] }.Inv := by
  rw [processMsg_request hreq] at hpub
  obtain ⟨t, hr, rfl⟩ := applyRequest_manual (by exact h.manual) (by exact h.manualStore) hpub
  refine { h with manualStore := hr.ok, length := ?_, tracked := ?_ }
  · simp [noted, h.length]
  have hone : [Origin.pipe pipe].filter (· ≠ Origin.user) = [.pipe pipe] := rfl
  dsimp only [requests, noted]
  rw [filter_append, hone]
  exact rel_append h.tracked (.cons ⟨rfl, hp⟩ .nil)

theorem Inv.read_user (h : s.Inv) (hreq : s.pub.requestOf msg = none)
    (hpub : s.pub.processMsg pipe msg = .ok pub) :
    { s with pub, origins := s.origins ++ [Origin.user] }.Inv := by
  rw [processMsg_user hreq, if_neg (by simp [h.type])] at hpub
  cases hpub
  refine { h with length := ?_, tracked := ?_ }
  · simp [h.length]
  have hnone : [Origin.user].filter (· ≠ Origin.user) = [] := rfl
  dsimp only [requests, noted]
  rw [filter_append, hnone, append_nil]
  exact h.tracked

/-- The requests of the pipe are those of a terminated one from now on. -/
theorem Inv.tracked_forget (h : s.Inv) (pipe : PipeId) :
    List.Forall₂ (Origin.Tracks fun p => p ∈ s.pub.dist.pipes.items ∧ p ≠ pipe)
      ((s.origins.map (Origin.forget pipe)).filter (· ≠ .user)) s.pub.pendingPipes := by
  rw [filter_map_forget, forall₂_map_left_iff]
  exact h.tracked.imp fun o q ho => Tracks.forget ho pipe

theorem Inv.pipeTerminated (h : s.Inv) (hp : pipe ∈ s.pub.dist.pipes.items)
    (hadm : s.Admissible (.pipeTerminated pipe)) (hpub : s.pub.xpipeTerminated pipe = .ok pub) :
    (s.terminated pipe pub).Inv := by
  obtain ⟨t, manual, topics, hok, hmok, -, -, htopics, heq⟩ :=
    xpipeTerminated_manual h.manual h.type h.store h.manualStore pipe
  cases heq.symm.trans hpub
  obtain ⟨hl, hmem⟩ := h.dist.pipeTerminated hp
  have hlen : (s.pub.pending ++ topics.map fun topic => notification false topic false).length
      - s.pub.pending.length = topics.length := by
    simp
  refine { h with
    store := hok
    manualStore := hmok
    dist := hl.ok
    length := ?_
    tracked := ?_
    last := ?_
    attached := fun p hp => ?_ }
  · dsimp only [terminated]
    simp [h.length]
  · dsimp only [terminated, requests]
    rw [hlen, filter_append]
    refine rel_append ?_ ?_
    · exact (h.tracked_forget pipe).imp fun o q ho =>
        Tracks.attach ho (fun p hp => (hmem p).mpr hp) fun p _ hp => (hmem p).mp hp
    · exact tracked_gone _ topics
  · dsimp only [terminated]
    rw [h.last]
    rcases hadm with hnone | hlast | hno
    · simp [h.last ▸ hnone]
    · simp [h.last ▸ hlast]
    have hnil : topics = [] := by
      refine eq_nil_iff_forall_not_mem.mpr fun key hkey => ?_
      have hkp := (htopics key).mp hkey
      exact hno key (h.manualStore.mem_prefixes.mpr (Finset.ne_empty_of_mem hkp)) hkp
    by_cases ht : s.target = some pipe <;> simp [hnil, ht]
  · dsimp only [terminated] at hp ⊢
    split at hp
    · cases hp
    rename_i hne
    refine (hmem p).mpr ⟨h.attached p hp, ?_⟩
    intro heq
    exact hne (heq ▸ hp)

/-- A user message leaves the last pipe alone if there is no element it could take. -/
theorem Inv.recv_user (h : s.Inv) {front : Pending} {rest : List Pending} {os : List Origin}
    (hp : s.pub.pending = front :: rest) (ho : s.origins = .user :: os) :
    (s.received { s.pub with pending := rest }).Inv := by
  have htracked := h.tracked
  refine { h with length := ?_, tracked := ?_, last := ?_, attached := ?_ }
  · simpa [received, ho, hp] using h.length
  · simpa [received, requests, ho] using htracked
  · simp [received, ho, Origin.target, h.last]
  · simpa [received, ho, Origin.target] using h.attached

/-- The pipe of a request is found in the queue, and it is the target if it is attached. -/
theorem Inv.recv_request (h : s.Inv) {front : Pending} {rest : List Pending} {o : Origin}
    {os : List Origin} (hp : s.pub.pending = front :: rest) (ho : s.origins = o :: os)
    (hne : o ≠ .user) :
    ∃ q qs, s.pub.pendingPipes = q :: qs ∧
      (s.received { s.pub with
        lastPipe := q.filter s.pub.dist.hasPipe
        pendingPipes := qs
        pending := rest }).Inv := by
  have htracked := h.tracked
  unfold requests at htracked
  rw [ho, filter_cons_of_pos (by simpa using hne), forall₂_cons_left_iff] at htracked
  obtain ⟨q, qs, hq, hqs, heq⟩ := htracked
  have hlast := Tracks.filter_hasPipe h.dist hq s.target
  have htarget : (s.received { s.pub with
      lastPipe := q.filter s.pub.dist.hasPipe
      pendingPipes := qs
      pending := rest }).target = o.target s.target := by
    simp [received, ho]
  refine ⟨q, qs, heq, { h with length := ?_, tracked := ?_, last := ?_, attached := ?_ }⟩
  · simpa [received, ho, hp] using h.length
  · simpa [received, requests, ho] using hqs
  · exact hlast.trans htarget.symm
  · intro p hpt
    rw [htarget, ← hlast, Option.filter_eq_some_iff] at hpt
    exact h.dist.hasPipe_iff.mp hpt.2

theorem Inv.recv (h : s.Inv) (hadm : s.Admissible .recv) {front : Pending}
    (hrecv : s.pub.xrecv = (some front, pub)) : (s.received pub).Inv := by
  cases hp : s.pub.pending with
  | nil =>
    rw [xrecv_nil hp] at hrecv
    cases hrecv
  | cons n rest =>
    obtain ⟨o, os, ho⟩ : ∃ o os, s.origins = o :: os := by
      refine exists_cons_of_length_pos ?_
      rw [h.length, hp]
      exact Nat.succ_pos _
    by_cases huser : o = .user
    · subst huser
      rw [xrecv_manual_nil h.manual hp (hadm (by simp [ho]))] at hrecv
      cases hrecv
      exact h.recv_user hp ho
    obtain ⟨q, qs, heq, hI⟩ := h.recv_request hp ho huser
    rw [xrecv_manual_cons h.manual hp heq] at hrecv
    cases hrecv
    exact hI

theorem Inv.read (h : s.Inv) (hp : pipe ∈ s.pub.dist.pipes.items)
    (hpub : s.pub.processMsg pipe msg = .ok pub) :
    { s with pub, origins := s.origins ++ [s.originOf pipe msg] }.Inv := by
  unfold originOf
  cases hreq : s.pub.requestOf msg with
  | none => exact h.read_user hreq hpub
  | some r => exact h.read_request hp hreq hpub

theorem Inv.step (h : s.Inv) {a : ManualAction} (hadm : s.Admissible a) :
    Ensures (s.step a) Inv := by
  cases a with
  | attach pipe =>
    exact .ite (fun _ => .ok h) fun hnew => .map fun _ hpub => h.attach hnew hadm hpub
  | read pipe msg => exact .ite (fun hp => .map fun _ hpub => h.read hp hpub) fun _ => .ok h
  | pipeTerminated pipe =>
    exact .ite (fun hp => .map fun _ hpub => h.pipeTerminated hp hadm hpub) fun _ => .ok h
  | recv =>
    rw [Attributed.step]
    split
    · exact .ok h
    · exact .ok (h.recv hadm ‹_›)
  | subscribe topic =>
    refine .map fun pub hpub => ?_
    obtain ⟨t, hok, heq, -⟩ := subscribe_effect h.store topic
    cases heq.symm.trans hpub
    exact { h with store := hok }
  | unsubscribe topic =>
    refine .map fun pub hpub => ?_
    obtain ⟨t, hok, rfl, -⟩ := unsubscribe_effect h.store hpub
    exact { h with store := hok }

/-- In every run that meets the conditions above, `SUBSCRIBE` and `UNSUBSCRIBE` act on the pipe
whose request was received last, if it is attached, and on none otherwise. (`UNSUBSCRIBE`
returns unless the counter of prefixes is wrong.) -/
theorem acts_on_target {onlyFirstSubscribe : Bool} {as : List ManualAction} {s : Attributed}
    (hadm : CheckedRun.Along Attributed.step Admissible (new onlyFirstSubscribe) as)
    (hr : run Attributed.step (new onlyFirstSubscribe) as = .ok s)
    (topic : List UInt8) :
    (∀ p, s.target = some p → p ∈ s.pub.dist.pipes.items) ∧
    (∃ pub, s.pub.subscribe topic = .ok pub ∧ ∀ key p, p ∈ pub.subscriptions.pipesAt key ↔
        p ∈ s.pub.subscriptions.pipesAt key ∨ (key = topic ∧ s.target = some p)) ∧
    ∀ pub, s.pub.unsubscribe topic = .ok pub → ∀ key p, p ∈ pub.subscriptions.pipesAt key ↔
        p ∈ s.pub.subscriptions.pipesAt key ∧ ¬ (key = topic ∧ s.target = some p) := by
  have hI := run_inv_along (fun s a s' hI hadm => hI.step hadm s')
    (new_inv onlyFirstSubscribe) hadm hr
  refine ⟨hI.attached, ?_, fun pub hpub => ?_⟩
  · obtain ⟨t, -, hpub, hmem⟩ := subscribe_effect hI.store topic
    rw [← hI.last]
    exact ⟨_, hpub, hmem⟩
  · obtain ⟨t, -, rfl, hmem⟩ := unsubscribe_effect hI.store hpub
    rw [← hI.last]
    exact hmem

/-- Two peers subscribe, one sends a user message, and the other one goes away: the user
subscribes the first one to another topic. -/
theorem acts_on_target_first : ∃ s pub, run Attributed.step (new false) [.attach 1, .attach 2,
      .read 1 (.initSubscribe [97]), .read 1 (.initBuffer [2]), .recv, .recv,
      .read 2 (.initSubscribe [97]), .read 2 (.initCancel [97]), .pipeTerminated 2] = .ok s ∧
    s.target = some 1 ∧ s.pub.subscribe [98] = .ok pub ∧
    1 ∈ pub.subscriptions.pipesAt [98] := by
  have hreach : reaches Attributed.step (new false) [.attach 1, .attach 2,
      .read 1 (.initSubscribe [97]), .read 1 (.initBuffer [2]), .recv, .recv,
      .read 2 (.initSubscribe [97]), .read 2 (.initCancel [97]), .pipeTerminated 2]
      (fun s => s.target = some 1) = true := by decide +kernel
  obtain ⟨s, hr, htarget⟩ := of_reaches hreach
  obtain ⟨-, ⟨pub, hpub, hmem⟩, -⟩ := acts_on_target (by decide +kernel) hr [98]
  have htarget := of_decide_eq_true htarget
  exact ⟨s, pub, hr, htarget, hpub, (hmem [98] 1).mpr (.inr ⟨rfl, htarget⟩)⟩

/-- A user message comes first. Receiving it takes the pipe of the request behind it, and the
answer to the request of pipe 1 subscribes pipe 2. -/
theorem target_after_user_message : ∃ s, run Attributed.step (new false) [.attach 1, .attach 2,
      .read 1 (.initBuffer [2]), .read 1 (.initSubscribe [97]), .read 2 (.initSubscribe [98]),
      .recv, .recv, .subscribe [97]] = .ok s ∧
    s.target = some 1 ∧ s.pub.subscriptions.pipesAt [97] = {2} :=
  exists_run (by decide +kernel)

end Attributed

end ServerLink

import ServerLink.Core.RouterRecv
import ServerLink.Pipe.Schedule

/-!
# ServerLink.Core.Polling

Polling does not change what a ROUTER receives. When nothing happens at the pipes, what will be
received is determined: `Router.upcoming` are the frames the socket makes of what the fair queue
will hand out (`FairQueue.rest`), with those in its prefetch buffers first. Receiving takes the
first frame off that list and polling leaves the list as it is, whatever it does to the buffers;
so any calls return the frames of the list in order, as many as there are
calls of `xrecv`.
-/

namespace ServerLink

open List Function

namespace FairQueue

/-! ### What is no routing id -/

variable {b b' : FairQueue}

/-- The parts that are not routing ids. -/
def userRest (b : FairQueue) : List (PipeId × Msg) := b.rest.filter fun x => !x.2.isRoutingId

/-- The loop that passes over routing ids returns the first part that is none. -/
theorem Steady.recvUser_userRest (fuel : Nat) (h : b.Steady) (hf : b.held < fuel)
    {r : Option (PipeId × Msg)} (heq : b.recvUser fuel = .ok (r, b')) :
    (∃ x, r = some x ∧ b.userRest = x :: b'.userRest) ∨
      (r = none ∧ b.userRest = [] ∧ b'.userRest = []) := by
  induction fuel generalizing b with
  | zero => omega
  | succ fuel ih =>
    rcases h.recvpipe with ⟨p, m, b1, hrecv, ht, hs⟩ | ⟨b1, hrecv, hfound, hs, -⟩
    · have hrest := h.rest_took hrecv ht hs
      have hlt := ht.held_lt h.ok
      rw [FairQueue.recvUser, hrecv] at heq
      dsimp only at heq
      cases hid : m.isRoutingId with
      | true =>
        rw [hid, if_pos rfl] at heq
        have huser : b.userRest = b1.userRest := by simp [userRest, hrest, hid]
        rw [huser]
        exact ih hs (by omega) heq
      | false =>
        rw [hid, if_neg Bool.false_ne_true] at heq
        cases heq
        exact .inl ⟨_, rfl, by simp [userRest, hrest, hid]⟩
    · rw [FairQueue.recvUser, hrecv] at heq
      cases heq
      refine .inr ⟨rfl, ?_, ?_⟩
      · rw [userRest, rest_of_none hrecv]
        rfl
      · rw [userRest, rest_of_inactive hfound.none]
        rfl

end FairQueue

namespace Router

/-! ### The frames -/

/-- The frames of parts that come next: every message gets a frame with the id of its pipe. -/
def framed (t : RoutingTable) : Bool → List (PipeId × Msg) → List RecvFrame
  | _, [] => []
  | true, (p, m) :: rest => ⟨p, m, false⟩ :: framed t m.more rest
  | false, (p, m) :: rest =>
    ⟨p, idFrame (t.routingId p) m.metadata, true⟩ :: ⟨p, m, false⟩ :: framed t m.more rest

/-- The frames the next calls of `xrecv` return. -/
def upcoming (s : Router) : List RecvFrame :=
  if s.prefetched then
    (if s.routingIdSent then [] else [⟨s.currentIn.getD 0, s.prefetchedId, true⟩]) ++
      ⟨s.currentIn.getD 0, s.prefetchedMsg, false⟩ ::
        framed s.table s.prefetchedMsg.more s.queue.userRest
  else framed s.table s.moreIn s.queue.userRest

variable {s s' : Router}

/-- The socket is not about to terminate a pipe. -/
structure Settled (s : Router) : Prop where
  recv : s.Recv
  calm : s.terminateCurrentIn = false

theorem endMessage_calm (h : s.terminateCurrentIn = false) :
    s.endMessage = .ok { s with currentIn := none } := by
  rw [endMessage, if_neg (by simp [h])]

theorem Recv.of_xrecv (h : s.Recv) {r : Option RecvFrame} (heq : s.xrecv = .ok (r, s')) :
    s'.Recv := by
  rcases h.xrecv with ⟨frame, s1, heq1, hr⟩ | ⟨queue, heq1, hr⟩
  · cases heq1.symm.trans heq
    exact hr.received.recv
  · cases heq1.symm.trans heq
    exact hr.recv

theorem Recv.of_xhasIn (h : s.Recv) {r : Bool} (heq : s.xhasIn = .ok (r, s')) : s'.Recv := by
  obtain ⟨r1, s1, heq1, hr, -⟩ := h.xhasIn
  cases heq1.symm.trans heq
  exact hr.recv

/-- A call of `xrecv` that returns the first frame of the list. -/
def TakesFirst (s : Router) : Prop :=
  ∃ frame s', s.xrecv = .ok (some frame, s') ∧ s'.terminateCurrentIn = false ∧
    s.upcoming = frame :: s'.upcoming

theorem Settled.takes_id (h : s.Settled) (hp : s.prefetched = true)
    (hs : s.routingIdSent = false) : s.TakesFirst := by
  have hmore := (h.recv.ahead hp hs).1
  refine ⟨⟨s.currentIn.getD 0, s.prefetchedId, true⟩,
    { s with routingIdSent := true, prefetchedId := .init, moreIn := true }, ?_, h.calm, ?_⟩
  · rw [Router.xrecv, if_pos hp, recvPrefetched, if_pos (by simp [hs]), handOut, if_pos hmore]
    rfl
  · simp [upcoming, hp, hs]

theorem Settled.takes_msg (h : s.Settled) (hp : s.prefetched = true)
    (hs : s.routingIdSent = true) : s.TakesFirst := by
  cases hmore : s.prefetchedMsg.more with
  | true =>
    refine ⟨⟨s.currentIn.getD 0, s.prefetchedMsg, false⟩,
      { s with prefetched := false, prefetchedMsg := .init, moreIn := true }, ?_, h.calm, ?_⟩
    · rw [Router.xrecv, if_pos hp, recvPrefetched, if_neg (by simp [hs]), handOut, if_pos hmore]
      rfl
    · simp [upcoming, hp, hs, hmore]
  | false =>
    have hend := endMessage_calm
      (s := { s with prefetched := false, prefetchedMsg := .init, moreIn := false }) h.calm
    refine ⟨⟨s.currentIn.getD 0, s.prefetchedMsg, false⟩,
      { s with
        prefetched := false, prefetchedMsg := .init, moreIn := false, currentIn := none,
        routingIdSent := false }, ?_, h.calm, ?_⟩
    · rw [Router.xrecv, if_pos hp, recvPrefetched, if_neg (by simp [hs]), handOut,
        if_neg (by simp [hmore]), hend]
      rfl
    · simp [upcoming, hp, hs, hmore]

/-- A part is read: the next one of the message, or the first one, which is kept. -/
theorem Settled.takes_read (h : s.Settled) (hp : s.prefetched = false) {queue : FairQueue}
    {p : PipeId} {m : Msg} (heq : s.queue.recvUser (s.queue.held + 1) = .ok (some (p, m), queue))
    (hrest : s.queue.userRest = (p, m) :: queue.userRest) : s.TakesFirst := by
  rw [TakesFirst, Router.xrecv, if_neg (by simp [hp]), heq]
  dsimp only
  by_cases hmi : s.moreIn = true
  · rw [if_pos hmi]
    by_cases hmore : m.more = true
    · rw [if_pos hmore]
      refine ⟨_, _, rfl, h.calm, ?_⟩
      simp [upcoming, hp, hmi, hrest, framed]
    have hend := endMessage_calm (s := { s with queue, moreIn := m.more }) h.calm
    rw [if_neg hmore, hend]
    refine ⟨_, _, rfl, h.calm, ?_⟩
    simp [upcoming, hp, hmi, hrest, framed]
  · rw [if_neg hmi]
    refine ⟨_, _, rfl, h.calm, ?_⟩
    simp [upcoming, hp, hmi, hrest, framed]

theorem Settled.xrecv (h : s.Settled) :
    (∃ frame s', s.xrecv = .ok (some frame, s') ∧ s'.Settled ∧ s.upcoming = frame :: s'.upcoming) ∨
    ∃ s', s.xrecv = .ok (none, s') ∧ s'.Settled ∧ s.upcoming = [] ∧ s'.upcoming = [] := by
  have htakes : s.TakesFirst → ∃ frame s', s.xrecv = .ok (some frame, s') ∧ s'.Settled ∧
      s.upcoming = frame :: s'.upcoming := by
    intro ⟨frame, s', heq, hcalm, hup⟩
    exact ⟨frame, s', heq, ⟨h.recv.of_xrecv heq, hcalm⟩, hup⟩
  cases hp : s.prefetched with
  | true =>
    cases hs : s.routingIdSent with
    | false => exact .inl (htakes (h.takes_id hp hs))
    | true => exact .inl (htakes (h.takes_msg hp hs))
  | false =>
    have hfuel := Nat.lt_succ_self s.queue.held
    rcases h.recv.steady.recvUser _ hfuel with ⟨p, m, queue, heq, -⟩ | ⟨queue, heq, -⟩
    · rcases h.recv.steady.recvUser_userRest _ hfuel heq with ⟨x, hx, hrest⟩ | ⟨hx, -⟩
      · cases hx
        exact .inl (htakes (h.takes_read hp heq hrest))
      · cases hx
    rcases h.recv.steady.recvUser_userRest _ hfuel heq with ⟨x, hx, -⟩ | ⟨-, hrest, hrest'⟩
    · cases hx
    have hx : s.xrecv = .ok (none, { s with queue }) := by
      rw [Router.xrecv, if_neg (by simp [hp]), heq]
    refine .inr ⟨_, hx, ⟨h.recv.of_xrecv hx, h.calm⟩, ?_, ?_⟩
    · simp [upcoming, hp, hrest, framed]
    · simp [upcoming, hp, hrest', framed]

theorem Settled.xhasIn (h : s.Settled) :
    ∃ r s', s.xhasIn = .ok (r, s') ∧ s'.Settled ∧ s'.upcoming = s.upcoming := by
  by_cases hcond : (s.moreIn || s.prefetched) = true
  · exact ⟨true, s, by rw [Router.xhasIn, if_pos hcond], h, rfl⟩
  obtain ⟨hmi, hp⟩ := Bool.or_eq_false_iff.mp (Bool.eq_false_iff.mpr hcond)
  have hfuel := Nat.lt_succ_self s.queue.held
  suffices hs : ∃ r s', s.xhasIn = .ok (r, s') ∧ s'.terminateCurrentIn = false ∧
      s'.upcoming = s.upcoming by
    obtain ⟨r, s', heq, hcalm, hup⟩ := hs
    exact ⟨r, s', heq, ⟨h.recv.of_xhasIn heq, hcalm⟩, hup⟩
  rw [Router.xhasIn, if_neg hcond]
  rcases h.recv.steady.recvUser _ hfuel with ⟨p, m, queue, heq, -⟩ | ⟨queue, heq, -⟩
  · rcases h.recv.steady.recvUser_userRest _ hfuel heq with ⟨x, hx, hrest⟩ | ⟨hx, -⟩
    · cases hx
      rw [heq]
      refine ⟨_, _, rfl, h.calm, ?_⟩
      simp [upcoming, hp, hmi, hrest, framed]
    · cases hx
  · rcases h.recv.steady.recvUser_userRest _ hfuel heq with ⟨x, hx, -⟩ | ⟨-, hrest, hrest'⟩
    · cases hx
    · rw [heq]
      refine ⟨_, _, rfl, h.calm, ?_⟩
      simp [upcoming, hp, hrest, hrest']

/-! ### Calls -/

/-- The frames that calls of `xrecv` return, with polls between them. -/
def collect (s : Router) : List RecvCall → Except Fault (List RecvFrame)
  | [] => .ok []
  | .xrecv :: calls =>
    match s.xrecv with
    | .error e => .error e
    | .ok (r, s) => (s.collect calls).map (r.toList ++ ·)
  | .xhasIn :: calls =>
    match s.xhasIn with
    | .error e => .error e
    | .ok (_, s) => s.collect calls

/-- The calls return the frames of the list. -/
theorem Settled.collect_eq (h : s.Settled) (calls : List RecvCall) :
    s.collect calls = .ok (s.upcoming.take (calls.count .xrecv)) := by
  induction calls generalizing s with
  | nil => simp [collect]
  | cons call calls ih =>
    cases call with
    | xrecv =>
      rw [count_cons_self]
      rcases h.xrecv with ⟨frame, s', heq, h', hup⟩ | ⟨s', heq, h', hup, hup'⟩
      · rw [collect, heq]
        dsimp only
        rw [ih h', hup, take_succ_cons]
        rfl
      rw [collect, heq]
      dsimp only
      rw [ih h', hup, hup', take_nil, take_nil]
      rfl
    | xhasIn =>
      obtain ⟨r, s', heq, h', hup⟩ := h.xhasIn
      rw [count_cons_of_ne (by simp), collect, heq]
      dsimp only
      rw [ih h', hup]

end Router

namespace Router

/-- The frames of a message: the routing id of the pipe, and the parts. -/
def framesOf (t : RoutingTable) (x : PipeId × MultipartMsg) : List RecvFrame :=
  ⟨x.1, idFrame (t.routingId x.1) x.2.head.metadata, true⟩ :: x.2.parts.map fun m => ⟨x.1, m, false⟩

/-- In the middle of a message its other parts come without a frame before them. -/
theorem framed_more (t : RoutingTable) (p : PipeId) {last : Msg} (hlast : last.more = false)
    (rest : List (PipeId × Msg)) : ∀ {init : List Msg}, (∀ m ∈ init, m.more = true) →
      framed t true ((init ++ [last]).map (p, ·) ++ rest) =
        ((init ++ [last]).map fun m => ⟨p, m, false⟩) ++ framed t false rest
  | [], _ => by simp [framed, hlast]
  | m :: init, hinit => by
      have ih := framed_more t p hlast rest (fun m' hm' => hinit m' (mem_cons_of_mem m hm'))
      have hm := hinit m mem_cons_self
      rw [cons_append, map_cons, cons_append, framed, hm, ih]
      rfl

theorem framed_block (t : RoutingTable) (x : PipeId × MultipartMsg) (rest : List (PipeId × Msg)) :
    framed t false (block x ++ rest) = framesOf t x ++ framed t false rest := by
  obtain ⟨p, ⟨init, last, hinit, hlast, hplain, hid⟩⟩ := x
  cases init with
  | nil => simp [block, framesOf, MultipartMsg.parts, MultipartMsg.head, framed, hlast]
  | cons m init =>
    have ht := framed_more t p hlast rest (fun m' hm' => hinit m' (mem_cons_of_mem m hm'))
    have hm := hinit m mem_cons_self
    simp only [block, framesOf, MultipartMsg.parts, MultipartMsg.head, headD_cons,
      cons_append, map_cons, framed, hm, ht]

theorem framed_flatMap_block (t : RoutingTable) : ∀ order : List (PipeId × MultipartMsg),
    framed t false (order.flatMap block) = order.flatMap (framesOf t)
  | [] => rfl
  | x :: order => by
      rw [flatMap_cons, framed_block, framed_flatMap_block t order, flatMap_cons]

/-- A message is passed over as a whole or not at all. -/
theorem filter_block (x : PipeId × MultipartMsg) :
    ((block x).filter fun y => !y.2.isRoutingId) = if x.2.isRoutingId then [] else block x := by
  obtain ⟨p, x⟩ := x
  by_cases hid : x.isRoutingId = true
  · have halone := x.routingId_alone x.last (by simp) hid
    have hlast : x.last.isRoutingId = true := hid
    rw [if_pos hid]
    simp [block, MultipartMsg.parts, halone, hlast]
  rw [if_neg hid, filter_eq_self]
  intro y hy
  obtain ⟨m, hm, rfl⟩ := mem_map.mp hy
  have hno : m.isRoutingId ≠ true := by
    intro hm'
    -- a routing id would be the only part
    have halone := x.routingId_alone m hm hm'
    rw [MultipartMsg.parts, halone] at hm
    rw [mem_singleton.mp hm] at hm'
    exact hid hm'
  simpa using hno

theorem filter_flatMap_block : ∀ order : List (PipeId × MultipartMsg),
    ((order.flatMap block).filter fun y => !y.2.isRoutingId) =
      (order.filter fun x => !x.2.isRoutingId).flatMap block
  | [] => rfl
  | x :: order => by
      rw [flatMap_cons, filter_append, filter_block, filter_flatMap_block order]
      cases hid : x.2.isRoutingId with
      | true => simp [hid]
      | false => simp [hid]

/-- A new socket with these pipes, all of them active. -/
def withPipes (id : BitVec 32) (pipes : ArrayT PipeId) (contents : PipeId → List MultipartMsg) :
    Router :=
  { new id with queue := .ofContents pipes contents }

theorem settled_withPipes (id : BitVec 32) {pipes : ArrayT PipeId} (h : pipes.Ok)
    (contents : PipeId → List MultipartMsg) : (withPipes id pipes contents).Settled where
  recv := (recv_new id).setQueue (FairQueue.steady_ofContents h contents).ok rfl (by simp [new])
    (by simp [new])
  calm := rfl

/-- Whatever is polled between them, calls of `xrecv` return the same frames. From a state in
which no message is half received, these are the frames of one message after the other, as the fair
queue hands them out without the routing ids, and the messages of each pipe come in order. If the
fair queue serves all pipes, no message of any pipe is missing. -/
theorem polling_unobservable {s : Router} (h : s.Settled) :
    (∀ calls, s.collect calls = s.collect (calls.filter (· = .xrecv))) ∧
    ∀ contents, s.prefetched = false → s.moreIn = false → s.queue.Contains contents →
      ∃ order : List (PipeId × MultipartMsg), s.queue.userRest = order.flatMap block ∧
        (∀ calls, s.collect calls =
          .ok ((order.flatMap (framesOf s.table)).take (calls.count .xrecv))) ∧
        (∀ x ∈ order, x.1 ∈ s.queue.fq.pipes.items) ∧
        (∀ p, (order.filter (·.1 = p)).map (·.2) <+:
          (contents p).filter fun x => !x.isRoutingId) ∧
        (s.queue.Served → ∀ p ∈ s.queue.fq.pipes.items, (order.filter (·.1 = p)).map (·.2) =
          (contents p).filter fun x => !x.isRoutingId) := by
  refine ⟨fun calls => ?_, fun contents hp hm hc => ?_⟩
  · rw [h.collect_eq, h.collect_eq, count_filter (by simp)]
  have hmore := (h.recv.between hp).symm.trans hm
  obtain ⟨order, horder⟩ := h.recv.steady.exists_schedule hmore hc
  have hrest : s.queue.userRest = (order.filter fun x => !x.2.isRoutingId).flatMap block := by
    rw [FairQueue.userRest, horder.rest, filter_flatMap_block]
  have hfilter : ∀ p, ((order.filter fun x => !x.2.isRoutingId).filter (·.1 = p)).map (·.2) =
      ((order.filter (·.1 = p)).map (·.2)).filter fun x => !x.isRoutingId := by
    intro p
    rw [filter_comm, filter_map]
    rfl
  refine ⟨order.filter fun x => !x.2.isRoutingId, hrest, fun calls => ?_,
    fun x hx => horder.mem x (mem_filter.mp hx).1, fun p => ?_, fun hserved p hp' => ?_⟩
  · rw [h.collect_eq, upcoming, if_neg (by simp [hp]), hm, hrest, framed_flatMap_block]
  · rw [hfilter]
    exact (horder.inOrder p).filter _
  · rw [hfilter, horder.complete h.recv.steady hserved hc hp']

/-- The message with the routing id of a peer, as the library writes it. -/
def routingIdMsg (id : List UInt8) : MultipartMsg where
  init := []
  last := (Msg.initBuffer id).setFlags Msg.routingIdFlag
  init_more := by simp
  last_more := by simp [Msg.more, Msg.setFlags, Msg.initBuffer, Msg.moreFlag, Msg.routingIdFlag]
  plain m hm := by
    rw [mem_singleton.mp hm]
    rcases Msg.typeOfSize_hasData id.length with h | h <;>
      simp [Msg.isDelimiter, Msg.setFlags, Msg.initBuffer, h]
  routingId_alone _ _ _ := rfl

/-- Two pipes with messages of one and of two parts, and a routing id before them. -/
def twoPipes : Router :=
  withPipes 5 ((ArrayT.empty.pushBack 0).pushBack 1) fun p =>
    if p = 0 then [routingIdMsg [9], .ofData [] [1], .ofData [[2]] [3]] else [.ofData [[4]] [5]]

/-- The routing id is passed over, and all three messages are received. -/
theorem polling_unobservable_twoPipes :
    twoPipes.queue.Served ∧ ∀ calls, twoPipes.collect calls =
      .ok (([(1, .ofData [[4]] [5]), (0, .ofData [] [1]), (0, .ofData [[2]] [3])].flatMap
        (framesOf twoPipes.table)).take (calls.count .xrecv)) := by
  have hpipes : ((ArrayT.empty.pushBack (0 : PipeId)).pushBack 1).Ok :=
    (ArrayT.empty_ok.pushBack (by simp [ArrayT.empty])).pushBack (by simp [ArrayT.empty])
  have hs : twoPipes.Settled := settled_withPipes 5 hpipes _
  refine ⟨FairQueue.served_ofContents hpipes _, fun calls => ?_⟩
  obtain ⟨order, hrest, horder, -⟩ := (polling_unobservable hs).2 _ rfl rfl fun _ _ => rfl
  rw [horder calls, ← framed_flatMap_block, ← hrest, ← framed_flatMap_block]
  rfl

end Router

end ServerLink

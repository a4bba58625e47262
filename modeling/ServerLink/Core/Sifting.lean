import ServerLink.Pipe.Schedule
import ServerLink.Core.XSubRecv
import ServerLink.Core.Sub

/-!
# ServerLink.Core.Sifting

A SUB socket filters whole messages. When nothing happens at the pipes, the fair queue will hand
out a fixed sequence of parts (`FairQueue.rest`); `sifted` is what a filter leaves of it that looks
at the first part of each message only. Receiving takes the first part off what is left, and
polling leaves it as it is, whether the part that comes next is still in its pipe or was fetched
ahead.
-/

namespace ServerLink

open Function List

/-! ### What a filter leaves -/

/-- Where the reader is: before a message, inside one that is passed on, or inside one that is
not. -/
inductive SiftPhase
  | between
  | passing
  | dropping
  deriving Repr, DecidableEq

/-- The parts of the messages whose first part is accepted. -/
def sifted (accepts : Msg → Bool) : SiftPhase → List (PipeId × Msg) → List (PipeId × Msg)
  | _, [] => []
  | .between, x :: rest =>
    if accepts x.2 then x :: sifted accepts (if x.2.more then .passing else .between) rest
    else sifted accepts (if x.2.more then .dropping else .between) rest
  | .passing, x :: rest => x :: sifted accepts (if x.2.more then .passing else .between) rest
  | .dropping, _x :: rest => sifted accepts (if _x.2.more then .dropping else .between) rest

/-- The phase after a part that is passed on. -/
def phaseAfter (more : Bool) : SiftPhase := if more then .passing else .between

variable {accepts : Msg → Bool}

@[simp] theorem sifted_nil (phase : SiftPhase) : sifted accepts phase [] = [] := by
  cases phase <;> rfl

theorem sifted_accepted {x : PipeId × Msg} (h : accepts x.2 = true) (rest : List (PipeId × Msg)) :
    sifted accepts .between (x :: rest) = x :: sifted accepts (phaseAfter x.2.more) rest := by
  rw [sifted, if_pos h]
  rfl

theorem sifted_rejected {x : PipeId × Msg} (h : accepts x.2 = false)
    (rest : List (PipeId × Msg)) : sifted accepts .between (x :: rest) =
      sifted accepts (if x.2.more then .dropping else .between) rest := by
  rw [sifted, if_neg (by simp [h])]

theorem sifted_passing (x : PipeId × Msg) (rest : List (PipeId × Msg)) :
    sifted accepts .passing (x :: rest) = x :: sifted accepts (phaseAfter x.2.more) rest := rfl

theorem sifted_passing_parts (p : PipeId) {init : List Msg} {last : Msg}
    (hinit : ∀ m ∈ init, m.more = true) (hlast : last.more = false) (rest : List (PipeId × Msg)) :
    sifted accepts .passing ((init ++ [last]).map (p, ·) ++ rest) =
      (init ++ [last]).map (p, ·) ++ sifted accepts .between rest := by
  induction init with
  | nil => simp [sifted, hlast]
  | cons m init ih =>
    have ih := ih fun m' hm' => hinit m' (mem_cons_of_mem _ hm')
    simp only [cons_append, map_cons, sifted_passing,
      hinit m mem_cons_self, phaseAfter, if_true, ih]

theorem sifted_dropping_parts (p : PipeId) {init : List Msg} {last : Msg}
    (hinit : ∀ m ∈ init, m.more = true) (hlast : last.more = false) (rest : List (PipeId × Msg)) :
    sifted accepts .dropping ((init ++ [last]).map (p, ·) ++ rest) =
      sifted accepts .between rest := by
  induction init with
  | nil => simp [sifted, hlast]
  | cons m init ih =>
    have ih := ih fun m' hm' => hinit m' (mem_cons_of_mem _ hm')
    simp only [cons_append, map_cons, sifted, hinit m mem_cons_self, if_true, ih]

theorem sifted_block (x : PipeId × MultipartMsg) (rest : List (PipeId × Msg)) :
    sifted accepts .between (block x ++ rest) =
      (if accepts x.2.head then block x else []) ++ sifted accepts .between rest := by
  obtain ⟨p, ⟨init, last, hinit, hlast, hplain, hid⟩⟩ := x
  cases init with
  | nil =>
    by_cases hacc : accepts last = true
    · simp [block, MultipartMsg.parts, MultipartMsg.head, sifted, hacc, hlast]
    · simp [block, MultipartMsg.parts, MultipartMsg.head, sifted, hacc, hlast]
  | cons m init =>
    have hmore := hinit m mem_cons_self
    have hinit' : ∀ m' ∈ init, m'.more = true := fun m' hm' =>
      hinit m' (mem_cons_of_mem _ hm')
    simp only [block, MultipartMsg.parts, MultipartMsg.head, headD_cons, cons_append, map_cons]
    cases hacc : accepts m with
    | true =>
      rw [sifted_accepted hacc, hmore, phaseAfter, if_pos rfl,
        sifted_passing_parts p hinit' hlast, if_pos rfl]
      rfl
    | false =>
      rw [sifted_rejected hacc, hmore, if_pos rfl, sifted_dropping_parts p hinit' hlast,
        if_neg Bool.false_ne_true, nil_append]

/-- Whole messages are left. -/
theorem sifted_flatMap_block (order : List (PipeId × MultipartMsg)) :
    sifted accepts .between (order.flatMap block) =
      (order.filter fun x => accepts x.2.head).flatMap block := by
  induction order with
  | nil => rfl
  | cons x order ih =>
    rw [flatMap_cons, sifted_block, ih, filter_cons]
    split
    · rw [flatMap_cons]
    · rw [nil_append]

namespace FairQueue

variable {b b' : FairQueue} {p : PipeId} {m : Msg}

/-! ### The loops -/

/-- `recv` takes the first part, or there is none. -/
theorem Steady.recv_rest (h : b.Steady) :
    (∃ frame b', b.recv = .ok (some frame, b') ∧ b'.Steady ∧ b'.held < b.held ∧
      b'.fq.more = frame.msg.more ∧ b.rest = (frame.pipe, frame.msg) :: b'.rest) ∨
    (∃ b', b.recv = .ok (none, b') ∧ b'.Steady ∧ b.fq.more = false ∧ b'.fq.more = false ∧
      b.rest = [] ∧ b'.rest = []) := by
  rcases h.recvpipe with ⟨p, m, b', heq, ht, hs⟩ | ⟨b', heq, hf, hs, hmore⟩
  · exact .inl ⟨⟨p, m, !(b.pipes p).midway⟩, b', by rw [FairQueue.recv, heq], hs,
      ht.held_lt h.ok, ht.more, h.rest_took heq ht hs⟩
  · exact .inr ⟨b', by rw [FairQueue.recv, heq], hs, hmore, hf.more.trans hmore,
      rest_of_none heq, rest_of_inactive hf.none⟩

theorem Steady.skipRest_sifted (accepts : Msg → Bool) {fuel : Nat} (h : b.Steady)
    (hmore : b.fq.more = true) (hfuel : b.held ≤ fuel) :
    ∃ b', skipRest fuel b = .ok b' ∧ b'.Steady ∧ b'.fq.more = false ∧ b'.held ≤ b.held ∧
      sifted accepts .dropping b.rest = sifted accepts .between b'.rest := by
  induction fuel generalizing b with
  | zero =>
    rcases h.recv_rest with ⟨frame, b', -, -, hlt, -⟩ | ⟨-, -, -, hno, -⟩
    · omega
    · rw [hmore] at hno
      cases hno
  | succ fuel ih =>
    rcases h.recv_rest with ⟨frame, b', heq, hs, hlt, hm, hrest⟩ | ⟨-, -, -, hno, -⟩
    · rw [skipRest, heq, hrest]
      dsimp only
      cases hfm : frame.msg.more with
      | false =>
        refine ⟨b', rfl, hs, hm.trans hfm, Nat.le_of_lt hlt, ?_⟩
        simp [sifted, hfm]
      | true =>
        obtain ⟨b'', heq', hs', hm', hle, hsift⟩ := ih hs (hm.trans hfm) (by omega)
        refine ⟨b'', heq', hs', hm', by omega, ?_⟩
        simp [sifted, hfm, hsift]
    · rw [hmore] at hno
      cases hno

/-- The loop finds the first part that is left by the filter. -/
theorem Steady.fetch_sifted (accepts : Msg → Bool) {fuel : Nat} (h : b.Steady)
    (hbetween : b.fq.more = false) (hfuel : b.held < fuel) :
    (∃ frame b', b.fetch accepts fuel = .ok (some frame, b') ∧ b'.Steady ∧
      b'.fq.more = frame.msg.more ∧ sifted accepts .between b.rest =
        (frame.pipe, frame.msg) :: sifted accepts (phaseAfter frame.msg.more) b'.rest) ∨
    (∃ b', b.fetch accepts fuel = .ok (none, b') ∧ b'.Steady ∧ b'.fq.more = false ∧
      sifted accepts .between b.rest = [] ∧ b'.rest = []) := by
  induction fuel generalizing b with
  | zero => omega
  | succ fuel ih =>
    rcases h.recv_rest with ⟨frame, b', heq, hs, hlt, hm, hrest⟩ |
      ⟨b', heq, hs, -, hm, hrest, hrest'⟩
    · rw [fetch, heq, hrest]
      dsimp only
      cases hacc : accepts frame.msg with
      | true => exact .inl ⟨frame, b', rfl, hs, hm, sifted_accepted hacc _⟩
      | false =>
        have hskip : ∃ b'', (if frame.msg.more then skipRest b'.held b' else .ok b') = .ok b'' ∧
            b''.Steady ∧ b''.fq.more = false ∧ b''.held ≤ b'.held ∧
            sifted accepts (if frame.msg.more then .dropping else .between) b'.rest =
              sifted accepts .between b''.rest := by
          cases hfm : frame.msg.more with
          | false => exact ⟨b', rfl, hs, hm.trans hfm, Nat.le_refl _, rfl⟩
          | true => exact hs.skipRest_sifted accepts (hm.trans hfm) (Nat.le_refl _)
        obtain ⟨b'', heq', hs', hm', hle, hsift⟩ := hskip
        rw [sifted_rejected hacc, hsift]
        simp only [heq', Bool.false_eq_true, if_false]
        exact ih hs' hm' (by omega)
    · refine .inr ⟨b', by rw [fetch, heq], hs, hm, ?_, hrest'⟩
      rw [hrest, sifted_nil]

/-- Inside a message that is passed on, the next part is the first one. -/
theorem Steady.fetch_passing (fuel : Nat) (h : b.Steady) (hmore : b.fq.more = true)
    (hacc : ∀ m, accepts m = true) :
    ∃ frame b', b.fetch accepts (fuel + 1) = .ok (some frame, b') ∧ b'.Steady ∧
      b'.fq.more = frame.msg.more ∧ b.rest = (frame.pipe, frame.msg) :: b'.rest := by
  rcases h.recv_rest with ⟨frame, b', heq, hs, -, hm, hrest⟩ | ⟨-, -, -, hno, -⟩
  · refine ⟨frame, b', ?_, hs, hm, hrest⟩
    rw [fetch, heq]
    simp only [hacc, if_true]
  · rw [hmore] at hno
    cases hno

end FairQueue

namespace XSubRecv

variable {s s' : XSubRecv}

/-! ### The calls -/

/-- A SUB socket whose reader knows where it is. -/
structure Reading (s : XSubRecv) : Prop where
  filter : s.filter = true
  steady : s.queue.Steady
  ahead : ∀ frame, s.message = some frame →
    s.moreRecv = false ∧ s.queue.fq.more = frame.msg.more
  between : s.message = none → s.queue.fq.more = s.moreRecv

/-- The parts the next calls of `xrecv` return. -/
def upcoming (accepts : Msg → Bool) (s : XSubRecv) : List (PipeId × Msg) :=
  match s.message with
  | some frame => (frame.pipe, frame.msg) :: sifted accepts (phaseAfter frame.msg.more) s.queue.rest
  | none => sifted accepts (phaseAfter s.moreRecv) s.queue.rest

theorem upcoming_of_message {frame : RecvFrame} (h : s.message = some frame) :
    s.upcoming accepts =
      (frame.pipe, frame.msg) :: sifted accepts (phaseAfter frame.msg.more) s.queue.rest := by
  simp only [upcoming, h]

theorem upcoming_of_none (h : s.message = none) :
    s.upcoming accepts = sifted accepts (phaseAfter s.moreRecv) s.queue.rest := by
  simp only [upcoming, h]

theorem Reading.setQueue (h : s.Reading) (hmsg : s.message = none) {queue : FairQueue}
    (hs : queue.Steady) {more : Bool} (hm : queue.fq.more = more) :
    Reading { s with queue, moreRecv := more } := by
  refine ⟨h.filter, hs, fun frame hframe => ?_, fun _ => hm⟩
  rw [hmsg] at hframe
  cases hframe

theorem upcoming_setQueue (hmsg : s.message = none) (queue : FairQueue) (more : Bool) :
    upcoming accepts { s with queue, moreRecv := more } =
      sifted accepts (phaseAfter more) queue.rest := by
  simp only [upcoming, hmsg]

theorem Reading.xrecv (h : s.Reading) (accepts : Msg → Bool) :
    (∃ frame s', s.xrecv accepts = .ok (some frame, s') ∧ s'.Reading ∧
      s.upcoming accepts = (frame.pipe, frame.msg) :: s'.upcoming accepts) ∨
    ∃ s', s.xrecv accepts = .ok (none, s') ∧ s'.Reading ∧ s.upcoming accepts = [] ∧
      s'.upcoming accepts = [] := by
  cases hmsg : s.message with
  | some frame =>
    obtain ⟨-, hmore⟩ := h.ahead frame hmsg
    refine .inl ⟨frame, _, xrecv_of_message hmsg accepts, ⟨h.filter, h.steady, ?_, ?_⟩, ?_⟩
    · exact nofun
    · exact fun _ => hmore
    · rw [upcoming_of_message hmsg, upcoming_of_none rfl]
  | none =>
    have hbetween := h.between hmsg
    rw [xrecv_of_none hmsg, upcoming_of_none hmsg]
    cases hmore : s.moreRecv with
    | true =>
      have hacc : ∀ m, (true || !s.filter || accepts m) = true := fun m => rfl
      obtain ⟨frame, queue, heq, hs, hm, hrest⟩ :=
        h.steady.fetch_passing s.queue.held (hbetween.trans hmore) hacc
      rw [heq]
      refine .inl ⟨frame, _, rfl, h.setQueue hmsg hs hm, ?_⟩
      rw [hrest, upcoming_setQueue hmsg, phaseAfter, if_pos rfl, sifted_passing]
    | false =>
      have hacc : (fun m => false || !s.filter || accepts m) = accepts := by simp [h.filter]
      rw [hacc]
      rcases h.steady.fetch_sifted accepts (hbetween.trans hmore)
          (Nat.lt_succ_self _) with
        ⟨frame, queue, heq, hs, hm, hsift⟩ | ⟨queue, heq, hs, hm, hsift, hrest⟩
      · rw [heq]
        refine .inl ⟨frame, _, rfl, h.setQueue hmsg hs hm, ?_⟩
        rw [upcoming_setQueue hmsg]
        exact hsift
      · rw [heq]
        refine .inr ⟨_, rfl, h.setQueue hmsg hs hm, hsift, ?_⟩
        rw [upcoming_setQueue hmsg, hrest, sifted_nil]

/-- Inside a message that is passed on there is a next part. -/
theorem Reading.upcoming_ne_nil (h : s.Reading) (hmore : s.moreRecv = true) :
    s.upcoming accepts ≠ [] := by
  have hmsg : s.message = none := by
    cases hm : s.message with
    | none => rfl
    | some frame =>
      rw [(h.ahead frame hm).1] at hmore
      cases hmore
  rw [upcoming_of_none hmsg, hmore]
  rcases h.steady.recv_rest with ⟨frame, queue, -, -, -, -, hrest⟩ | ⟨-, -, -, hno, -⟩
  · rw [hrest, phaseAfter, if_pos rfl, sifted_passing]
    exact cons_ne_nil _ _
  · rw [h.between hmsg, hmore] at hno
    cases hno

/-- Polling changes nothing about the parts, and says yes only if there is one. -/
theorem Reading.xhasIn (h : s.Reading) (accepts : Msg → Bool) :
    ∃ r s', s.xhasIn accepts = .ok (r, s') ∧ s'.Reading ∧
      s'.upcoming accepts = s.upcoming accepts ∧ (r = true → s'.upcoming accepts ≠ []) := by
  by_cases hcond : (s.moreRecv || s.message.isSome) = true
  · refine ⟨true, s, by rw [XSubRecv.xhasIn, if_pos hcond], h, rfl, fun _ => ?_⟩
    rcases Bool.or_eq_true_iff.mp hcond with hmore | hmsg
    · exact h.upcoming_ne_nil hmore
    · obtain ⟨frame, hframe⟩ := Option.isSome_iff_exists.mp hmsg
      rw [upcoming_of_message hframe]
      exact cons_ne_nil _ _
  obtain ⟨hmore, hmsg⟩ := Bool.or_eq_false_iff.mp (Bool.eq_false_iff.mpr hcond)
  have hmsg : s.message = none := Option.isNone_iff_eq_none.mp (Option.isSome_eq_false_iff.mp hmsg)
  have hacc : (fun m => !s.filter || accepts m) = accepts := by simp [h.filter]
  rw [XSubRecv.xhasIn, if_neg hcond, hacc, upcoming_of_none hmsg, hmore]
  rcases h.steady.fetch_sifted accepts ((h.between hmsg).trans hmore) (Nat.lt_succ_self _) with
    ⟨frame, queue, heq, hs, hm, hsift⟩ | ⟨queue, heq, hs, hm, hsift, hrest⟩
  · rw [heq]
    refine ⟨true, _, rfl, ⟨h.filter, hs, ?_, nofun⟩, ?_, fun _ => ?_⟩
    · intro f hf
      cases hf
      exact ⟨rfl, hm⟩
    · exact hsift.symm
    · exact cons_ne_nil _ _
  · rw [heq]
    refine ⟨false, _, rfl, h.setQueue hmsg hs hm, ?_, nofun⟩
    rw [upcoming_setQueue hmsg, hrest, sifted_nil]
    exact hsift.symm

/-- The parts that calls of `xrecv` return, with polls between them. -/
def collect (accepts : Msg → Bool) (s : XSubRecv) :
    List RecvCall → Except Fault (List (PipeId × Msg) × XSubRecv)
  | [] => .ok ([], s)
  | .xrecv :: calls =>
    match s.xrecv accepts with
    | .error e => .error e
    | .ok (r, s) =>
      (s.collect accepts calls).map fun (l, s) =>
        ((r.map fun frame => (frame.pipe, frame.msg)).toList ++ l, s)
  | .xhasIn :: calls =>
    match s.xhasIn accepts with
    | .error e => .error e
    | .ok (_, s) => s.collect accepts calls

/-- The calls return the parts one after the other. -/
theorem Reading.collect_eq (h : s.Reading) (accepts : Msg → Bool) (calls : List RecvCall) :
    ∃ s', s.collect accepts calls =
        .ok ((s.upcoming accepts).take (calls.count .xrecv), s') ∧ s'.Reading ∧
      s'.upcoming accepts = (s.upcoming accepts).drop (calls.count .xrecv) := by
  induction calls generalizing s with
  | nil => exact ⟨s, by simp [collect], h, by simp⟩
  | cons call calls ih =>
    cases call with
    | xrecv =>
      rw [count_cons_self]
      rcases h.xrecv accepts with ⟨frame, s1, heq, h1, hup⟩ | ⟨s1, heq, h1, hup, hup1⟩
      · obtain ⟨s', heq', h', hup'⟩ := ih h1
        refine ⟨s', ?_, h', ?_⟩
        · rw [collect, heq]
          dsimp only
          rw [heq', hup, take_succ_cons]
          rfl
        · rw [hup', hup, drop_succ_cons]
      obtain ⟨s', heq', h', hup'⟩ := ih h1
      refine ⟨s', ?_, h', ?_⟩
      · rw [collect, heq]
        dsimp only
        rw [heq', hup, hup1, take_nil, take_nil]
        rfl
      · rw [hup', hup, hup1, drop_nil, drop_nil]
    | xhasIn =>
      obtain ⟨r, s1, heq, h1, hup, -⟩ := h.xhasIn accepts
      obtain ⟨s', heq', h', hup'⟩ := ih h1
      rw [count_cons_of_ne (by simp)]
      refine ⟨s', ?_, h', ?_⟩
      · rw [collect, heq]
        dsimp only
        rw [heq', hup]
      · rw [hup', hup]

/-! ### Filtering -/

/-- With fixed subscriptions and fixed contents of the pipes, any calls of `xrecv` and `xhas_in`
return the messages whose first part matches, whole and in the order of the fair queue; and a
message that was announced is there. -/
theorem filters_messages {contents : PipeId → List MultipartMsg} (h : s.Reading)
    (hmsg : s.message = none) (hmore : s.moreRecv = false) (hserved : s.queue.Served)
    (hc : s.queue.Contains contents) (sub : XSub) :
    ∃ order : List (PipeId × MultipartMsg), s.queue.rest = order.flatMap block ∧
      (∀ x ∈ order, x.1 ∈ s.queue.fq.pipes.items) ∧
      (∀ p ∈ s.queue.fq.pipes.items, (order.filter (·.1 = p)).map (·.2) = contents p) ∧
      ∀ calls, ∃ s', s.collect sub.matchMsg calls =
          .ok (((order.filter fun x => sub.matchMsg x.2.head).flatMap block).take
            (calls.count .xrecv), s') ∧
        ∀ s1, s'.xhasIn sub.matchMsg = .ok (true, s1) →
          ∃ frame s2, s1.xrecv sub.matchMsg = .ok (some frame, s2) := by
  have hbetween := (h.between hmsg).trans hmore
  obtain ⟨order, horder⟩ := h.steady.exists_schedule hbetween hc
  refine ⟨order, horder.rest, horder.mem, fun p hp => horder.complete h.steady hserved hc hp,
    fun calls => ?_⟩
  obtain ⟨s', heq, h', -⟩ := h.collect_eq sub.matchMsg calls
  refine ⟨s', ?_, fun s1 hpoll => ?_⟩
  · rw [heq, upcoming_of_none hmsg, hmore, horder.rest]
    exact congrArg (fun l => Except.ok (take _ l, s')) (sifted_flatMap_block order)
  obtain ⟨r, s2, heq2, h2, -, hne⟩ := h'.xhasIn sub.matchMsg
  cases heq2.symm.trans hpoll
  rcases h2.xrecv sub.matchMsg with ⟨frame, s3, heq3, -⟩ | ⟨s3, -, -, hnil, -⟩
  · exact ⟨frame, s3, heq3⟩
  · exact absurd hnil (hne rfl)

/-- A new SUB socket with these pipes, all of them active. -/
def withPipes (pipes : ArrayT PipeId) (contents : PipeId → List MultipartMsg) : XSubRecv :=
  { new true with queue := .ofContents pipes contents }

theorem reading_withPipes {pipes : ArrayT PipeId} (h : pipes.Ok)
    (contents : PipeId → List MultipartMsg) : (withPipes pipes contents).Reading where
  filter := rfl
  steady := FairQueue.steady_ofContents h contents
  ahead frame hframe := by cases hframe
  between _ := rfl

/-- Messages of one and of two parts. -/
def twoContents : PipeId → List MultipartMsg := fun p =>
  if p = 0 then [.ofData [] [1], .ofData [[2]] [3]] else [.ofData [[4]] [5]]

/-- With a subscription to the topics that start with 2, the message of two parts of the first pipe
is received, and nothing else. -/
theorem filters_messages_twoPipes :
    ∃ sub, Sub.setOption XSub.new (.subscribe [2]) = .ok sub ∧ ∀ calls, ∃ s',
      (withPipes ((ArrayT.empty.pushBack 0).pushBack 1) twoContents).collect sub.matchMsg calls =
        .ok ((block (0, .ofData [[2]] [3])).take (calls.count .xrecv), s') := by
  have hpipes : ((ArrayT.empty.pushBack (0 : PipeId)).pushBack 1).Ok :=
    (ArrayT.empty_ok.pushBack (by simp [ArrayT.empty])).pushBack (by simp [ArrayT.empty])
  refine ⟨_, rfl, fun calls => ?_⟩
  obtain ⟨order, hrest, -, -, horder⟩ := filters_messages (reading_withPipes hpipes twoContents)
    rfl rfl (FairQueue.served_ofContents hpipes twoContents) (fun p _ => rfl) _
  obtain ⟨s', heq, -⟩ := horder calls
  rw [← sifted_flatMap_block, ← hrest] at heq
  exact ⟨s', heq⟩

end XSubRecv

end ServerLink

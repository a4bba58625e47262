import ServerLink.Pipe.Contiguity

/-!
# ServerLink.Pipe.Schedule

What a fair queue will hand out when nothing happens at its pipes: `FairQueue.rest`, part by part.
Between two messages this is a schedule, one whole message after the other, in which the messages
of each pipe come in order (`Steady.exists_schedule`).

`Served` says that the fair queue comes to every message: a pipe with something to read is active.
Then the schedule has all the messages of all the pipes (`Schedule.complete`).
-/

namespace ServerLink

open List Function MultipartMsg

variable {i : Inlet}

/-- The calls of a user that receives and polls. -/
inductive RecvCall
  | xrecv
  | xhasIn
  deriving Repr, DecidableEq

namespace FairQueue

/-! ### What the fair queue will hand out -/

/-- The parts the next calls of `recvpipe` return. -/
def taken : Nat → FairQueue → List (PipeId × Msg)
  | 0, _ => []
  | fuel + 1, b =>
    match b.recvpipe with
    | .ok (some x, b') => x :: taken fuel b'
    | _ => []

/-- All of them. -/
def rest (b : FairQueue) : List (PipeId × Msg) := taken b.held b

variable {b b' : FairQueue} {p : PipeId} {m : Msg}

/-- More fuel than there are parts changes nothing. -/
theorem Steady.taken_eq : ∀ (fuel : Nat) {b : FairQueue}, b.Steady → b.held ≤ fuel →
    taken fuel b = b.rest
  | 0, b, _, hf => by rw [rest, Nat.le_zero.mp hf]
  | fuel + 1, b, h, hf => by
      rcases h.recvpipe with ⟨p, m, b', heq, ht, hs⟩ | ⟨b', heq, -⟩
      · -- the part that is taken was held
        have hlt := ht.held_lt h.ok
        obtain ⟨n, hn⟩ := Nat.exists_eq_succ_of_ne_zero (Nat.ne_of_gt (Nat.zero_lt_of_lt hlt))
        rw [rest, hn, taken, taken, heq]
        dsimp only
        rw [Steady.taken_eq fuel hs (by omega), Steady.taken_eq n hs (by omega)]
      · rw [taken, heq, rest]
        cases b.held with
        | zero => rfl
        | succ n => rw [taken, heq]
termination_by fuel b => fuel + b.held

theorem Steady.rest_took (h : b.Steady) (heq : b.recvpipe = .ok (some (p, m), b'))
    (ht : b.Took p m b') (hs : b'.Steady) : b.rest = (p, m) :: b'.rest := by
  rw [← h.taken_eq (b.held + 1) (Nat.le_succ _), taken, heq]
  dsimp only
  rw [hs.taken_eq b.held (Nat.le_of_lt (ht.held_lt h.ok))]

theorem rest_of_none (heq : b.recvpipe = .ok (none, b')) : b.rest = [] := by
  unfold rest
  cases b.held with
  | zero => rfl
  | succ n => rw [taken, heq]

theorem rest_of_inactive (ha : b.fq.active = 0) : b.rest = [] := by
  have heq : b.recvpipe = .ok (none, b) := by
    rw [recvpipe, ha]
    rfl
  exact rest_of_none heq

end FairQueue

/-! ### Messages -/

/-- The message is a routing id, which the library writes. -/
def MultipartMsg.isRoutingId (x : MultipartMsg) : Bool := x.last.isRoutingId

/-- The first part. -/
def MultipartMsg.head (x : MultipartMsg) : Msg := x.init.headD x.last

/-- The parts of a message of a pipe. -/
def block (x : PipeId × MultipartMsg) : List (PipeId × Msg) := x.2.parts.map (x.1, ·)

theorem Inlet.Skips.parts_eq {i' : Inlet} (h : i.Skips i')
    (hplain : ∀ m ∈ i.parts, m.isDelimiter = false) : i'.parts = i.parts := by
  rcases h with rfl | h
  · rfl
  rcases Inlet.read_eq_none h with rfl | ⟨-, rfl⟩ | ⟨m, rest, hdel, hparts, rfl⟩
  · rfl
  · rfl
  · have hno := hplain m (by rw [hparts]; exact mem_cons_self)
    rw [hdel] at hno
    cases hno

namespace FairQueue

variable {b b' : FairQueue} {p : PipeId} {m : Msg}
variable {contents : PipeId → List MultipartMsg}

/-- The messages the attached pipes hold. -/
def Contains (b : FairQueue) (contents : PipeId → List MultipartMsg) : Prop :=
  ∀ p ∈ b.fq.pipes.items, (b.pipes p).parts = (contents p).flatMap parts

theorem Contains.plain (hc : b.Contains contents)
    (hp : p ∈ b.fq.pipes.items) : ∀ m ∈ (b.pipes p).parts, m.isDelimiter = false := by
  intro m hm
  rw [hc p hp] at hm
  obtain ⟨x, -, hx⟩ := mem_flatMap.mp hm
  exact x.plain m hx

/-- What is handed out until the end of a message that is half read. -/
structure Finishes (b : FairQueue) (p : PipeId) (parts : List Msg) (b' : FairQueue) : Prop where
  steady : b'.Steady
  between : b'.fq.more = false
  rest : b.rest = parts.map (p, ·) ++ b'.rest
  held : b'.held < b.held
  mem : ∀ q, q ∈ b'.fq.pipes.items ↔ q ∈ b.fq.pipes.items
  own : (b.pipes p).parts = parts ++ (b'.pipes p).parts
  others : ∀ q ≠ p, (∀ m ∈ (b.pipes q).parts, m.isDelimiter = false) →
    (b'.pipes q).parts = (b.pipes q).parts

theorem Finishes.cons {b1 : FairQueue} {m : Msg} {parts : List Msg} (h : b.Steady)
    (heq : b.recvpipe = .ok (some (p, m), b1)) (ht : b.Took p m b1) (hs : b1.Steady)
    (hf : b1.Finishes p parts b') : b.Finishes p (m :: parts) b' where
  steady := hf.steady
  between := hf.between
  rest := by
    rw [h.rest_took heq ht hs, hf.rest]
    rfl
  held := Nat.lt_trans hf.held (ht.held_lt h.ok)
  mem q := (hf.mem q).trans (ht.mem q)
  own := by
    obtain ⟨-, -, -, rest, hparts, heq1⟩ := Inlet.read_eq_some ht.read
    have hown := hf.own
    rw [heq1] at hown
    rw [hparts, cons_append]
    exact congrArg (m :: ·) hown
  others q hq hplain := by
    have hsame := (ht.skipped q hq).parts_eq hplain
    rw [← hsame] at hplain ⊢
    exact hf.others q hq hplain

theorem finishes_last {m : Msg} (h : b.Steady) (heq : b.recvpipe = .ok (some (p, m), b'))
    (ht : b.Took p m b') (hs : b'.Steady) (hlast : m.more = false) : b.Finishes p [m] b' where
  steady := hs
  between := ht.more.trans hlast
  rest := h.rest_took heq ht hs
  held := ht.held_lt h.ok
  mem := ht.mem
  own := by
    obtain ⟨-, -, -, rest, hparts, heq1⟩ := Inlet.read_eq_some ht.read
    rw [hparts, heq1]
    rfl
  others q hq hplain := (ht.skipped q hq).parts_eq hplain

/-- A message that begins in a pipe is handed out to its end. -/
theorem Steady.finishes {m : Msg} (h : b.Steady) (heq : b.recvpipe = .ok (some (p, m), b'))
    (ht : b.Took p m b') (hs : b'.Steady) {init tail : List Msg} {last : Msg}
    (hparts : (b.pipes p).parts = init ++ last :: tail) (hinit : ∀ m ∈ init, m.more = true)
    (hlast : last.more = false) : ∃ b'', b.Finishes p (init ++ [last]) b'' := by
  obtain ⟨-, -, -, rest, hread, heq1⟩ := Inlet.read_eq_some ht.read
  induction init generalizing b b' m rest with
  | nil =>
    obtain ⟨rfl, rfl⟩ := cons.inj (hparts.symm.trans hread)
    exact ⟨b', finishes_last h heq ht hs hlast⟩
  | cons x init ih =>
    obtain ⟨rfl, rfl⟩ := cons.inj (hparts.symm.trans hread)
    -- the part has the more flag, so that the next one comes from the same pipe
    have hmore := hinit x mem_cons_self
    have hholds := ht.holds_more hmore
    rcases hs.recvpipe with ⟨q, m', b2, heq2, ht2, hs2⟩ | ⟨b2, -, -, -, hno⟩
    · obtain rfl : p = q := hholds.current.unique (ht2.current hholds.more)
      have hparts' : (b'.pipes p).parts = init ++ last :: tail := by
        rw [heq1]
        rfl
      obtain ⟨-, -, -, rest2, hread2, heq3⟩ := Inlet.read_eq_some ht2.read
      obtain ⟨b'', hf⟩ := ih hs heq2 ht2 hs2 hparts'
        (fun m hm => hinit m (mem_cons_of_mem _ hm)) rest2 hread2 heq3
      exact ⟨b'', hf.cons h heq ht hs⟩
    · rw [hholds.more] at hno
      cases hno

/-- After a message of the pipe its other messages are left, and those of the other pipes. -/
theorem Finishes.contains {x : MultipartMsg} {xs : List MultipartMsg} (hf : b.Finishes p x.parts b')
    (hc : b.Contains contents) (hp : p ∈ b.fq.pipes.items) (hx : contents p = x :: xs) :
    b'.Contains (update contents p xs) := by
  intro q hq
  have hq' := (hf.mem q).mp hq
  by_cases hqp : q = p
  · subst hqp
    rw [update_self]
    have hown := hf.own
    rw [hc q hp, hx, flatMap_cons] at hown
    exact (append_cancel_left hown).symm
  · rw [update_of_ne hqp, hf.others q hqp (hc.plain hq'), hc q hq']

/-- One message at a time, and for each pipe the first of its messages. -/
structure Schedule (b : FairQueue) (contents : PipeId → List MultipartMsg)
    (order : List (PipeId × MultipartMsg)) : Prop where
  rest : b.rest = order.flatMap block
  mem : ∀ x ∈ order, x.1 ∈ b.fq.pipes.items
  inOrder : ∀ p, (order.filter (·.1 = p)).map (·.2) <+: contents p

theorem Schedule.cons {x : MultipartMsg} {xs : List MultipartMsg}
    {order : List (PipeId × MultipartMsg)} (hf : b.Finishes p x.parts b')
    (hp : p ∈ b.fq.pipes.items) (hx : contents p = x :: xs)
    (h : b'.Schedule (update contents p xs) order) :
    b.Schedule contents ((p, x) :: order) where
  rest := by
    rw [hf.rest, h.rest, flatMap_cons]
    rfl
  mem y hy := by
    rcases mem_cons.mp hy with rfl | hy
    · exact hp
    · exact (hf.mem y.1).mp (h.mem y hy)
  inOrder q := by
    have hq := h.inOrder q
    by_cases hqp : q = p
    · subst hqp
      rw [update_self] at hq
      rw [filter_cons_of_pos (by simp), map_cons, hx]
      exact cons_prefix_cons.mpr ⟨rfl, hq⟩
    · rw [update_of_ne hqp] at hq
      rw [filter_cons_of_neg (by simpa using Ne.symm hqp)]
      exact hq

/-- Between two messages, what the fair queue hands out is a schedule. -/
theorem Steady.exists_schedule (h : b.Steady) (hmore : b.fq.more = false)
    (hc : b.Contains contents) :
    ∃ order, b.Schedule contents order := by
  induction hn : b.held using Nat.strongRecOn generalizing b contents with
  | ind n ih =>
    subst hn
    rcases h.recvpipe with ⟨p, m, b1, heq, ht, hs⟩ | ⟨b1, heq, -⟩
    · have hp := ht.active.mem
      obtain ⟨-, -, -, rest, hparts, -⟩ := Inlet.read_eq_some ht.read
      have hcp := hc p hp
      -- the part that is taken is the first one of the first message
      cases hx : contents p with
      | nil =>
        rw [hx, hparts] at hcp
        cases hcp
      | cons x xs =>
        rw [hx, flatMap_cons, parts, append_assoc] at hcp
        obtain ⟨b', hf⟩ := h.finishes heq ht hs hcp x.init_more x.last_more
        obtain ⟨order, horder⟩ :=
          ih b'.held hf.held hf.steady hf.between (hf.contains hc hp hx) rfl
        exact ⟨_, Schedule.cons hf hp hx horder⟩
    · exact ⟨[], rest_of_none heq, by simp, by simp⟩

/-! ### Every message is handed out -/

/-- Every pipe is read from, and the fair queue knows those that hold something. -/
structure Served (b : FairQueue) : Prop where
  reading : ∀ p ∈ b.fq.pipes.items, (b.pipes p).reading = true
  active : ∀ p ∈ b.fq.pipes.items, (b.pipes p).parts ≠ [] → b.fq.IsActive p
  plain : ∀ p ∈ b.fq.pipes.items, ∀ m ∈ (b.pipes p).parts, m.isDelimiter = false

theorem Served.read_none (h : b.Ok) (hb : b.Served) (hp : b.fq.IsCurrent p)
    (hr : (b.pipes p).read = (none, i)) :
    (b.pipes p).parts = [] ∧ i = { b.pipes p with inActive := false } := by
  have hmem := hp.isActive.mem
  unfold Inlet.read at hr
  rw [h.awake p hp.isActive, hb.reading p hmem] at hr
  cases hparts : (b.pipes p).parts with
  | nil =>
    refine ⟨rfl, ?_⟩
    rw [← (Prod.mk.inj hr).2]
    simp only [hparts]
  | cons m rest =>
    have hplain := hb.plain p hmem m (hparts ▸ mem_cons_self)
    simp only [hparts, hplain, Bool.false_eq_true, if_false] at hr
    cases hr

theorem Served.deactivate (h : b.Ok) (hb : b.Served) (hp : b.fq.IsCurrent p)
    (hr : (b.pipes p).read = (none, i)) :
    Served ⟨b.fq.deactivate, update b.pipes p i⟩ := by
  obtain ⟨hempty, rfl⟩ := hb.read_none h hp hr
  have ha : b.fq.active ≠ 0 := Nat.ne_of_gt (Nat.zero_lt_of_lt hp.1)
  have hsame : ∀ q, (update b.pipes p { b.pipes p with inActive := false } q).reading =
      (b.pipes q).reading ∧
      (update b.pipes p { b.pipes p with inActive := false } q).parts = (b.pipes q).parts := by
    intro q
    by_cases hq : q = p
    · subst hq
      rw [update_self]
      exact ⟨rfl, rfl⟩
    · rw [update_of_ne hq]
      exact ⟨rfl, rfl⟩
  refine ⟨fun q hq => ?_, fun q hq hne => ?_, fun q hq m hm => ?_⟩
  · exact (hsame q).1.trans (hb.reading q ((h.mem_deactivated hp q).mp hq))
  · have hne : (b.pipes q).parts ≠ [] := fun heq => hne ((hsame q).2.trans heq)
    refine ((h.fq.leaves_deactivate ha).isActive_iff h.fq).mpr
      ⟨hb.active q ((h.mem_deactivated hp q).mp hq) hne, ?_⟩
    rw [hp.2]
    rintro heq
    cases heq
    exact hne hempty
  · have hm : m ∈ (b.pipes q).parts := (hsame q).2 ▸ hm
    exact hb.plain q ((h.mem_deactivated hp q).mp hq) m hm

theorem Served.fetched (hb : b.Served) (hr : (b.pipes p).read = (some m, i)) :
    Served ⟨b.fq.fetched m, update b.pipes p i⟩ := by
  obtain ⟨-, hreading, -, rest, hparts, rfl⟩ := Inlet.read_eq_some hr
  refine ⟨fun q hq => ?_, fun q hq hne => ?_, fun q hq m' hm' => ?_⟩
  · by_cases hqp : q = p
    · subst hqp
      simp only [update_self]
      exact hreading
    · simp only [update_of_ne hqp]
      exact hb.reading q hq
  · by_cases hqp : q = p
    · subst hqp
      exact hb.active q hq (by rw [hparts]; exact cons_ne_nil _ _)
    · simp only [update_of_ne hqp] at hne
      exact hb.active q hq hne
  · by_cases hqp : q = p
    · subst hqp
      simp only [update_self] at hm'
      exact hb.plain q hq m' (by rw [hparts]; exact mem_cons_of_mem _ hm')
    · simp only [update_of_ne hqp] at hm'
      exact hb.plain q hq m' hm'

theorem recvLoop_served {fuel : Nat} {r : Option (PipeId × Msg)} (h : b.Ok) (hb : b.Served)
    (heq : recvLoop fuel b = .ok (r, b')) : b'.Served := by
  induction fuel generalizing b with
  | zero =>
    cases heq
    exact hb
  | succ fuel ih =>
    by_cases ha : b.fq.active = 0
    · rw [recvLoop, if_pos ha] at heq
      cases heq
      exact hb
    obtain ⟨q, hq⟩ := h.fq.exists_current ha
    rw [recvLoop_succ fuel hq] at heq
    cases hr : (b.pipes q).read with
    | mk r' i =>
      rw [hr] at heq
      cases r' with
      | some m =>
        cases heq
        exact hb.fetched hr
      | none =>
        dsimp only at heq
        split at heq
        · cases heq
        · exact ih (h.deactivate hq ((h.framed q).read_none hr)) (hb.deactivate h hq hr) heq

/-- All that the pipes hold is handed out. -/
theorem Served.rest_filter (h : b.Steady) (hb : b.Served) (hp : p ∈ b.fq.pipes.items) :
    (b.rest.filter (·.1 = p)).map (·.2) = (b.pipes p).parts := by
  induction hn : b.held using Nat.strongRecOn generalizing b with
  | _ n ih =>
    subst hn
    rcases h.recvpipe with ⟨q, m, b', heq, ht, hs⟩ | ⟨b', heq, hf, hs, -⟩
    · have hb' := recvLoop_served h.ok hb heq
      have ih := ih b'.held (ht.held_lt h.ok) hs hb' ((ht.mem p).mpr hp) rfl
      rw [h.rest_took heq ht hs]
      by_cases hqp : q = p
      · subst hqp
        obtain ⟨-, -, -, rest, hparts, heq'⟩ := Inlet.read_eq_some ht.read
        rw [filter_cons_of_pos (by simp), map_cons, ih, hparts, heq']
      · rw [filter_cons_of_neg (by simpa using hqp), ih]
        exact (ht.skipped p (Ne.symm hqp)).parts_eq (hb.plain p hp)
    have hb' := recvLoop_served h.ok hb heq
    rw [rest_of_none heq]
    -- At the end no pipe is active.
    have hparts : (b'.pipes p).parts = [] := by
      by_contra hne
      obtain ⟨k, hk, -⟩ := hb'.active p ((hf.mem p).mpr hp) hne
      rw [hf.none] at hk
      exact Nat.not_lt_zero k hk
    rw [← (hf.skipped p).parts_eq (hb.plain p hp), hparts]
    rfl

/-- The parts of one pipe in a sequence of messages. -/
theorem filter_flatMap_block (order : List (PipeId × MultipartMsg)) (p : PipeId) :
    ((order.flatMap block).filter (·.1 = p)).map (·.2) =
      ((order.filter (·.1 = p)).map (·.2)).flatMap parts := by
  induction order with
  | nil => rfl
  | cons x order ih =>
    rw [flatMap_cons, filter_append, map_append, ih]
    by_cases hx : x.1 = p
    · have hblock : (block x).filter (·.1 = p) = block x := by
        refine filter_eq_self.mpr fun y hy => ?_
        obtain ⟨m, -, rfl⟩ := mem_map.mp hy
        simpa using hx
      rw [hblock, filter_cons_of_pos (by simpa using hx), map_cons, flatMap_cons, block, map_map]
      simp
    have hblock : (block x).filter (·.1 = p) = [] := by
      refine filter_eq_nil_iff.mpr fun y hy => ?_
      obtain ⟨m, -, rfl⟩ := mem_map.mp hy
      simpa using hx
    rw [hblock, filter_cons_of_neg (by simpa using hx)]
    rfl

/-- A schedule of a queue that serves all its pipes has every message of every pipe. -/
theorem Schedule.complete {order : List (PipeId × MultipartMsg)}
    (horder : b.Schedule contents order) (h : b.Steady) (hb : b.Served) (hc : b.Contains contents)
    (hp : p ∈ b.fq.pipes.items) :
    (order.filter (·.1 = p)).map (·.2) = contents p := by
  obtain ⟨tail, htail⟩ := horder.inOrder p
  have hall := hb.rest_filter h hp
  rw [horder.rest, filter_flatMap_block, hc p hp, ← htail, flatMap_append] at hall
  have hnil : tail.flatMap parts = [] :=
    append_cancel_left (hall.symm.trans (append_nil _).symm)
  cases tail with
  | nil => rw [← htail, append_nil]
  | cons x tail =>
    rw [flatMap_cons, parts, append_assoc] at hnil
    exact absurd hnil (append_ne_nil_of_right_ne_nil _ (cons_ne_nil _ _))

/-! ### Queues with given contents -/

/-- A fair queue with these pipes, all of them active. -/
def ofContents (pipes : ArrayT PipeId) (contents : PipeId → List MultipartMsg) : FairQueue where
  fq := ⟨pipes, pipes.size, 0, false⟩
  pipes p := { parts := (contents p).flatMap parts }

variable {pipes : ArrayT PipeId}

theorem steady_ofContents (h : pipes.Ok) (contents : PipeId → List MultipartMsg) :
    (ofContents pipes contents).Steady :=
  ⟨⟨⟨h, Nat.le_refl _, .inl rfl⟩, fun _ _ => rfl, fun p => Inlet.framed_flatMap (contents p)⟩,
    nofun⟩

theorem served_ofContents (h : pipes.Ok) (contents : PipeId → List MultipartMsg) :
    (ofContents pipes contents).Served where
  reading _ _ := rfl
  active p hp _ := ⟨pipes.index p, h.index_lt hp, h.getElem?_index hp⟩
  plain p hp m hm := by
    obtain ⟨x, -, hx⟩ := mem_flatMap.mp hm
    exact x.plain m hx

end FairQueue

end ServerLink

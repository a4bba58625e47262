import ServerLink.Pipe.Contiguity

/-!
# ServerLink.Pipe.Fairness

How long a pipe waits for its turn in the fair queue. A pipe that is found empty leaves the
active ones, and the last of them takes its place. It may have had its turn already, so that
it gets a second one before a pipe that has been waiting all the time. But the reader never
goes back, and the number of messages from other pipes stays below the number of pipes.

The bounds are the value of a `Potential`: a number that goes down with each message that
begins, and that nothing else increases.
-/

namespace ServerLink

open List Function

/-- What happens while no pipe comes or goes. -/
inductive Traffic
  | publish (pipe : PipeId) (msg : MultipartMsg)
  | activateRead (pipe : PipeId)
  | recvpipe

namespace FairQueue

/-- A queue of pipes with what they hold already. A pipe is attached once. -/
def attachAll (pipes : List (PipeId × List MultipartMsg)) : FairQueue :=
  pipes.foldl (fun b x =>
    if x.1 ∈ b.fq.pipes.items then b
    else b.attach x.1 { parts := x.2.flatMap MultipartMsg.parts }) .empty

/-- One event, and the part that was received. A part begins a message unless the reader is
in the middle of one. -/
def traffic (b : FairQueue) : Traffic → Except Fault (Option RecvFrame × FairQueue)
  | .publish pipe msg => .ok (none, b.modify pipe (·.publish msg.parts))
  | .activateRead pipe => .ok (none, if pipe ∈ b.fq.pipes.items then b.activateRead pipe else b)
  | .recvpipe => b.recvpipe.map fun r => (r.1.map fun x => ⟨x.1, x.2, !b.fq.more⟩, r.2)

def history : FairQueue → List Traffic → Except Fault (List RecvFrame × FairQueue)
  | b, [] => .ok ([], b)
  | b, t :: ts =>
    match b.traffic t with
    | .error e => .error e
    | .ok (r, b') => (b'.history ts).map fun x => (r.toList ++ x.1, x.2)

/-- The pipes whose messages begin, in the order of the messages. -/
def begun (frames : List RecvFrame) : List PipeId := (frames.filter (·.first)).map (·.pipe)

/-! ### Pipes that nobody terminates -/

/-- The pipe is open and holds messages only. -/
def Flows (i : Inlet) : Prop :=
  i.state = .active ∧ ∀ m ∈ i.parts, m.isDelimiter = false

structure Flowing (b : FairQueue) : Prop where
  steady : b.Steady
  flows : ∀ p, Flows (b.pipes p)

/-- The pipe is active and has a part to read. -/
def Waits (b : FairQueue) (p : PipeId) : Prop :=
  b.fq.IsActive p ∧ (b.pipes p).read.1.isSome = true

variable {b b' : FairQueue} {p q : PipeId}

theorem Flowing.attach (h : b.Flowing) (hq : q ∉ b.fq.pipes.items) (xs : List MultipartMsg) :
    (b.attach q { parts := xs.flatMap MultipartMsg.parts }).Flowing where
  steady := h.steady.attach hq rfl (Inlet.framed_flatMap xs)
  flows := by
    refine (forall_update_iff b.pipes fun _ i => Flows i).mpr
      ⟨⟨rfl, fun m hm => ?_⟩, fun p _ => h.flows p⟩
    obtain ⟨x, -, hx⟩ := mem_flatMap.mp hm
    exact x.plain m hx

theorem flowing_attachAll (pipes : List (PipeId × List MultipartMsg)) :
    (attachAll pipes).Flowing := by
  have hempty : empty.Flowing := ⟨empty_steady, fun _ => ⟨rfl, nofun⟩⟩
  unfold attachAll
  generalize empty = b at hempty
  induction pipes generalizing b with
  | nil => exact hempty
  | cons x pipes ih =>
    refine ih _ ?_
    dsimp only
    split
    · exact hempty
    · rename_i hmem
      exact hempty.attach hmem x.2

/-- A part can be read from a pipe that is awake and not empty. -/
theorem Flowing.waits (h : b.Flowing) (hp : b.fq.IsActive p) (hne : (b.pipes p).parts ≠ []) :
    b.Waits p := by
  obtain ⟨m, rest, hparts⟩ := exists_cons_of_ne_nil hne
  have hdel := (h.flows p).2 m (by rw [hparts]; exact mem_cons_self)
  refine ⟨hp, ?_⟩
  rw [Inlet.read_of_open (h.steady.ok.awake p hp) (by simp [Inlet.reading, (h.flows p).1]), hparts]
  simp [hdel]

/-- A pipe that was passed over is empty, and falls asleep. -/
theorem flows_of_skips {i i' : Inlet} (h : Flows i) (hs : i.Skips i') : Flows i' := by
  rcases hs with rfl | hread
  · exact h
  rcases Inlet.read_eq_none hread with rfl | ⟨-, rfl⟩ | ⟨m, rest, hdel, hparts, -⟩
  · exact h
  · exact h
  · rw [h.2 m (by rw [hparts]; exact mem_cons_self)] at hdel
    cases hdel

/-- No event fails an assertion. -/
theorem Flowing.traffic (h : b.Flowing) (t : Traffic) :
    ∃ r b', b.traffic t = .ok (r, b') ∧ b'.Flowing := by
  cases t with
  | publish pipe msg =>
    refine ⟨none, _, rfl, h.steady.modify rfl ?_ rfl fun hq => hq.reading, ?_⟩
    · exact (h.steady.ok.framed pipe).publish (Inlet.framed_parts msg)
    refine (forall_update_iff b.pipes fun _ i => Flows i).mpr
      ⟨⟨(h.flows pipe).1, fun m hm => ?_⟩, fun p _ => h.flows p⟩
    rcases mem_append.mp hm with hm | hm
    · exact (h.flows pipe).2 m hm
    · exact msg.plain m hm
  | activateRead pipe =>
    refine ⟨none, _, rfl, ?_⟩
    split
    · rename_i hmem
      refine ⟨h.steady.activateRead hmem, fun p => ?_⟩
      obtain ⟨inActive, heq⟩ := b.activateRead_pipes pipe p
      rw [heq]
      exact h.flows p
    · exact h
  | recvpipe =>
    rcases h.steady.recvpipe with ⟨q, m, b', heq, ht, hs⟩ | ⟨b', heq, hf, hs, -⟩
    · refine ⟨some ⟨q, m, !b.fq.more⟩, b', by rw [FairQueue.traffic, heq]; rfl, hs, fun p => ?_⟩
      by_cases hp : p = q
      · obtain ⟨-, -, -, rest, hparts, hq⟩ := Inlet.read_eq_some ht.read
        rw [hp, hq]
        refine ⟨(h.flows q).1, fun m hm => (h.flows q).2 m ?_⟩
        rw [hparts]
        exact mem_cons_of_mem _ hm
      · exact flows_of_skips (h.flows p) (ht.skipped p hp)
    · exact ⟨none, b', by rw [FairQueue.traffic, heq]; rfl, hs,
        fun p => flows_of_skips (h.flows p) (hf.skipped p)⟩

theorem Flowing.history (h : b.Flowing) (ts : List Traffic) :
    ∃ frames b', b.history ts = .ok (frames, b') ∧ b'.Flowing := by
  induction ts generalizing b with
  | nil => exact ⟨[], b, rfl, h⟩
  | cons t ts ih =>
    obtain ⟨r, b1, ht, h1⟩ := h.traffic t
    obtain ⟨frames, b', hts, h'⟩ := ih h1
    refine ⟨r.toList ++ frames, b', ?_, h'⟩
    rw [FairQueue.history, ht]
    dsimp only
    rw [hts]
    rfl

end FairQueue

/-! ### Potentials -/

theorem Fq.Ok.current_of_isActive {f : Fq} {p : PipeId} (h : f.Ok) (hp : f.IsActive p) :
    ∃ x, f.IsCurrent x := by
  obtain ⟨k, hk, -⟩ := hp
  exact h.exists_current (Nat.ne_of_gt (Nat.zero_lt_of_lt hk))

/-- A number that goes down when a message of a pipe that counts is over, and that nothing
else increases, as long as `p` is active and not read from. -/
structure Potential (p : PipeId) (counts : PipeId → Bool) (U : Fq → Nat) : Prop where
  self : counts p = false
  joins : ∀ {f q}, f.Ok → f.IsActive p → q ∈ f.pipes.items → ¬ f.IsActive q →
    U (f.activated q) ≤ U f
  leaves : ∀ {f x}, f.Ok → f.IsActive p → f.IsCurrent x → x ≠ p → U f.deactivate ≤ U f
  goesOn : ∀ f m, m.more = true → U (f.fetched m) = U f
  ends : ∀ {f x m}, f.Ok → f.IsActive p → f.IsCurrent x → x ≠ p → m.more = false →
    U (f.fetched m) + (counts x).toNat ≤ U f

namespace Potential

open FairQueue

/-- A message that has begun and is not over. -/
def due (counts : PipeId → Bool) (f : Fq) : Nat :=
  if f.more then ((f.pipes.items[f.current]?).any counts).toNat else 0

variable {p : PipeId} {counts : PipeId → Bool} {U : Fq → Nat} {b b' : FairQueue}

theorem due_current {f : Fq} {x : PipeId} (hx : f.IsCurrent x) :
    due counts f = if f.more then (counts x).toNat else 0 := by
  rw [due, hx.2]
  rfl

theorem due_le (h : Potential p counts U) {f : Fq} (hok : f.Ok) (hp : f.IsActive p) :
    due counts f ≤ U f := by
  obtain ⟨x, hx⟩ := hok.current_of_isActive hp
  rw [due_current hx]
  split
  · by_cases hxp : x = p
    · rw [hxp, h.self]
      exact Nat.zero_le _
    · exact Nat.le_trans (Nat.le_add_left _ _) (h.ends (m := .init) hok hp hx hxp rfl)
  · exact Nat.zero_le _

theorem recvLoop (h : Potential p counts U) : ∀ (fuel : Nat) {b : FairQueue}
    {r : Option (PipeId × Msg)}, b.Ok → b.Waits p → b.recvLoop fuel = .ok (r, b') →
      (∀ x ∈ r, x.1 ≠ p) → b'.fq.IsActive p ∧
        (if b.fq.more then 0 else r.elim 0 fun x => (counts x.1).toNat) + U b'.fq +
          due counts b.fq ≤ U b.fq + due counts b'.fq := by
  intro fuel
  induction fuel with
  | zero =>
    intro b r hok hp hr hne
    cases hr
    exact ⟨hp.1, by simp⟩
  | succ fuel ih =>
    intro b r hok hp hr hne
    obtain ⟨y, hy⟩ := hok.fq.current_of_isActive hp.1
    rw [recvLoop_succ fuel hy] at hr
    cases hread : (b.pipes y).read with
    | mk o i =>
      rw [hread] at hr
      cases o with
      | some m =>
        cases hr
        refine ⟨hp.1, ?_⟩
        rw [due_current hy]
        dsimp only [Option.elim]
        cases hm : m.more with
        | true =>
          have hy' : (b.fq.fetched m).IsCurrent y := (hok.took_fetched hy hread).holds hm
          rw [due_current hy', h.goesOn _ _ hm]
          simp only [Fq.fetched, hm, if_true]
          split <;> omega
        | false =>
          have hend := h.ends hok.fq hp.1 hy (hne _ rfl) hm
          split <;> omega
      | none =>
        have hyp : y ≠ p := by
          rintro rfl
          rw [Waits, hread] at hp
          cases hp.2
        dsimp only at hr
        split at hr
        · cases hr
        rename_i hmore
        have hactive : b.fq.deactivate.IsActive p := by
          rw [(hok.fq.leaves_deactivate (Nat.ne_of_gt (Nat.zero_lt_of_lt hy.1))).isActive_iff
            hok.fq, hy.2]
          exact ⟨hp.1, fun heq => hyp (Option.some.inj heq)⟩
        have hwaits : Waits ⟨b.fq.deactivate, update b.pipes y i⟩ p := by
          refine ⟨hactive, ?_⟩
          dsimp only
          rw [update_of_ne hyp.symm]
          exact hp.2
        obtain ⟨hp', hle⟩ := ih (hok.deactivate hy ((hok.framed y).read_none hread)) hwaits hr hne
        have hleaves := h.leaves hok.fq hp.1 hy hyp
        have hmore' : b.fq.deactivate.more = false := by simpa [Fq.deactivate] using hmore
        have hdue : due counts b.fq = 0 ∧ due counts b.fq.deactivate = 0 := by
          simp [due, hmore, hmore']
        refine ⟨hp', ?_⟩
        dsimp only at hle
        rw [if_neg hmore, hdue.1]
        rw [if_neg (by simp [hmore']), hdue.2] at hle
        omega

/-- Nothing but a message that begins brings it down, and the pipe goes on waiting. -/
theorem traffic (h : Potential p counts U) (hb : b.Flowing) (hp : b.Waits p) {t : Traffic}
    {r : Option RecvFrame} (ht : b.traffic t = .ok (r, b')) (hr : ∀ f ∈ r, f.pipe ≠ p) :
    b'.Waits p ∧ (begun r.toList).countP counts + U b'.fq + due counts b.fq ≤
      U b.fq + due counts b'.fq := by
  cases t with
  | publish pipe msg =>
    cases ht
    refine ⟨⟨hp.1, ?_⟩, Nat.le_of_eq (by simp [begun, FairQueue.modify])⟩
    by_cases hq : p = pipe
    · subst hq
      obtain ⟨m, hm⟩ := Option.isSome_iff_exists.mp hp.2
      have hread : (b.pipes p).read = (some m, (b.pipes p).read.2) := Prod.ext hm rfl
      obtain ⟨ha, hreading, hdel, rest, hparts, -⟩ := Inlet.read_eq_some hread
      simp only [FairQueue.modify, update_self]
      rw [Inlet.read_of_open (i := (b.pipes p).publish msg.parts) ha hreading]
      simp [Inlet.publish, hparts, hdel]
    · simp only [FairQueue.modify, update_of_ne hq]
      exact hp.2
  | activateRead pipe =>
    cases ht
    split
    · rename_i hmem
      unfold activateRead
      split
      · rename_i hcond
        have hidle := hb.steady.ok.not_isActive hcond
        have hne : p ≠ pipe := fun heq => hidle (heq ▸ hp.1)
        have hjoins := hb.steady.ok.fq.joins_activated hmem hidle
        obtain ⟨x, hx⟩ := hb.steady.ok.fq.current_of_isActive hp.1
        have hle := h.joins hb.steady.ok.fq hp.1 hmem hidle
        refine ⟨⟨hjoins.isActive_iff.mpr (.inl hp.1), ?_⟩, ?_⟩
        · simp only [update_of_ne hne]
          exact hp.2
        · rw [due_current hx, due_current (hjoins.isCurrent hx)]
          exact Nat.add_le_add (by simpa [begun] using hle) (Nat.le_refl _)
      · exact ⟨hp, by simp [begun]⟩
    · exact ⟨hp, by simp [begun]⟩
  | recvpipe =>
    obtain ⟨⟨r1, b1⟩, hrecv, heq⟩ := CheckedRun.map_eq_ok ht
    cases heq
    have hne : ∀ x ∈ r1, x.1 ≠ p := fun x hx => hr _ (Option.mem_map_of_mem _ hx)
    obtain ⟨hactive, hle⟩ := h.recvLoop _ hb.steady.ok hp hrecv hne
    have hskips : (b.pipes p).Skips (b1.pipes p) := by
      rcases hb.steady.recvpipe with ⟨x, m, b2, heq, htook, -⟩ | ⟨b2, heq, hf, -⟩
      · cases heq.symm.trans hrecv
        exact htook.skipped p (hne _ rfl).symm
      · cases heq.symm.trans hrecv
        exact hf.skipped p
    refine ⟨⟨hactive, ?_⟩, ?_⟩
    · rcases hskips with hsame | hread
      · rw [hsame]
        exact hp.2
      · rw [Waits, hread] at hp
        cases hp.2
    · refine Nat.le_trans (Nat.le_of_eq ?_) hle
      cases r1 with
      | none => simp [begun]
      | some x => cases hmore : b.fq.more <;> cases hc : counts x.1 <;> simp [begun, hc]

/-- **As long as a pipe waits,** the number of messages that begin is bounded by the
potential. -/
theorem history (h : Potential p counts U) : ∀ {ts : List Traffic} {b b' : FairQueue}
    {frames : List RecvFrame}, b.Flowing → b.Waits p → b.history ts = .ok (frames, b') →
    (∀ f ∈ frames, f.pipe ≠ p) → b'.Waits p ∧
      (begun frames).countP counts + U b'.fq + due counts b.fq ≤ U b.fq + due counts b'.fq := by
  intro ts
  induction ts with
  | nil =>
    intro b b' frames hb hp hts hframes
    cases hts
    exact ⟨hp, by simp [begun]⟩
  | cons t ts ih =>
    intro b b' frames hb hp hts hframes
    obtain ⟨r, b1, ht, hb1⟩ := hb.traffic t
    rw [FairQueue.history, ht] at hts
    obtain ⟨⟨frames1, b2⟩, hts1, heq⟩ := CheckedRun.map_eq_ok hts
    cases heq
    obtain ⟨hp1, hle⟩ := h.traffic hb hp ht fun f hf =>
      hframes f (mem_append_left _ (Option.mem_toList.mpr hf))
    obtain ⟨hp', hle'⟩ := ih hb1 hp1 hts1 fun f hf => hframes f (mem_append_right _ hf)
    have hbegun : begun (r.toList ++ frames1) = begun r.toList ++ begun frames1 := by simp [begun]
    refine ⟨hp', ?_⟩
    rw [hbegun, countP_append]
    dsimp only
    omega

end Potential

/-! ### The two bounds -/

namespace Fq

/-- How many pipes can have their turn before `p`. Once the reader has passed `p` these are
the ones up to the end, where pipes can still join, and the ones before `p`. -/
def distance (p : PipeId) (f : Fq) : Nat :=
  if f.pipes.index p < f.current then f.pipes.size - f.current + f.pipes.index p
  else f.pipes.index p - f.current

/-- How often `q` can have its turn before `p`: once in this round, if the reader has not
passed it, and once more if `p` has to wait for the next round. -/
def turns (p q : PipeId) (f : Fq) : Nat :=
  (if f.pipes.index p < f.current then 1 else 0) +
    (if q ∈ f.pipes.items.take f.current then 0 else 1)

variable {f : Fq} {p q x : PipeId}

section Moves

variable (h : f.Ok) (hp : f.IsActive p)

include h hp

theorem Ok.index_lt_active : f.pipes.index p < f.active := (h.isActive_iff hp.mem).mp hp

theorem Ok.index_activated (hq : q ∈ f.pipes.items) (hidle : ¬ f.IsActive q) :
    (f.activated q).pipes.index p = f.pipes.index p := by
  obtain ⟨k, hk, hget⟩ := hp
  rw [h.pipes k p hget]
  refine (h.activated hq hidle).pipes k p ?_
  rw [(h.joins_activated hq hidle).get k (Nat.le_of_lt hk), if_neg (Nat.ne_of_lt hk), hget]

theorem Ok.index_deactivate (hx : f.IsCurrent x) (hne : x ≠ p) :
    f.pipes.index p ≠ f.current ∧ f.deactivate.pipes.index p =
      if f.pipes.index p = f.active - 1 then f.current else f.pipes.index p := by
  have hle := h.active_le
  have hx' := hx.1
  have hpi : f.pipes.index p ≠ f.current := by
    intro heq
    have hget := h.pipes.getElem?_index hp.mem
    rw [heq, hx.2] at hget
    exact hne (Option.some.inj hget)
  refine ⟨hpi, ?_⟩
  rw [Fq.deactivate, h.pipes.index_swap (by omega) (by omega) hp.mem, if_neg hpi]

end Moves

theorem fetched_current {m : Msg} (hm : m.more = false) (hx : f.IsCurrent x) :
    (f.fetched m).current = if f.current + 1 = f.active then 0 else f.current + 1 := by
  have hlt := hx.1
  simp only [fetched, hm, Bool.false_eq_true, if_false]
  split
  · rename_i heq
    rw [heq, Nat.mod_self]
  · exact Nat.mod_eq_of_lt (by omega)

theorem potential_distance (p : PipeId) : Potential p (fun x => x ≠ p) (distance p) where
  self := by simp
  joins h hp hq hidle := by
    rw [distance, distance, h.index_activated hp hq hidle]
    simp only [activated, ArrayT.size_swap]
    exact Nat.le_refl _
  leaves h hp hx hne := by
    obtain ⟨hpi, hindex⟩ := h.index_deactivate hp hx hne
    have hlt := h.index_lt_active hp
    rw [distance, distance, hindex]
    simp only [deactivate, ArrayT.size_swap, wrap]
    split_ifs <;> omega
  goesOn f m hm := by simp [distance, fetched, hm]
  ends h hp hx hne hm := by
    obtain ⟨hpi, -⟩ := h.index_deactivate hp hx hne
    have hlt := h.index_lt_active hp
    have hle := h.active_le
    have hx' := hx.1
    rw [distance, distance, fetched_current hm hx]
    simp only [fetched, ne_eq, hne, not_false_eq_true, decide_true, Bool.toNat_true]
    split_ifs <;> omega

theorem mem_take_current : q ∈ f.pipes.items.take f.current ↔
    ∃ k < f.current, f.pipes.items[k]? = some q := by
  rw [mem_iff_getElem?]
  refine exists_congr fun k => ?_
  rw [getElem?_take]
  split <;> simp [*]

/-- The pipes that the reader has passed stay where they are. -/
theorem take_current {f' : Fq} (hcur : f'.current = f.current)
    (hget : ∀ k < f.current, f'.pipes.items[k]? = f.pipes.items[k]?) :
    f'.pipes.items.take f'.current = f.pipes.items.take f.current := by
  rw [hcur]
  refine ext_getElem? fun k => ?_
  rw [getElem?_take, getElem?_take]
  split
  · exact hget k ‹_›
  · rfl

theorem potential_turns (hqp : q ≠ p) : Potential p (fun x => x = q) (turns p q) where
  self := by simpa using hqp.symm
  joins {f x} h hp hx hidle := by
    have hlt := h.current_lt
    have htake : (f.activated x).pipes.items.take (f.activated x).current =
        f.pipes.items.take f.current := take_current rfl fun k hk => by
      rw [(h.joins_activated hx hidle).get k (by omega), if_neg (by omega)]
    rw [turns, turns, htake, h.index_activated hp hx hidle]
    exact Nat.le_refl _
  leaves {f x} h hp hx hne := by
    obtain ⟨hpi, hindex⟩ := h.index_deactivate hp hx hne
    have hlt := h.index_lt_active hp
    have hx' := hx.1
    have hleaves := h.leaves_deactivate (by omega)
    rw [turns, turns, hindex]
    by_cases hlast : f.current = f.active - 1
    · -- the next round
      have hcur : f.deactivate.current = 0 := by rw [hleaves.current, wrap, if_pos hlast]
      split_ifs <;> omega
    · have hcur : f.deactivate.current = f.current := by rw [hleaves.current, wrap, if_neg hlast]
      rw [take_current hcur fun k hk => by rw [hleaves.get k (by omega), if_neg (by omega)], hcur]
      split_ifs <;> omega
  goesOn f m hm := by simp [turns, fetched, hm]
  ends {f x m} h hp hx hne hm := by
    obtain ⟨hpi, -⟩ := h.index_deactivate hp hx hne
    have hlt := h.index_lt_active hp
    -- the current pipe has not been passed
    have hnot : x = q → q ∉ f.pipes.items.take f.current := by
      rintro rfl hmem
      obtain ⟨k, hk, hget⟩ := mem_take_current.mp hmem
      have := h.pipes k x hget
      have := h.pipes _ x hx.2
      omega
    have hturns : turns p q (f.fetched m) =
        (if f.pipes.index p < (f.fetched m).current then 1 else 0) +
          (if q ∈ f.pipes.items.take (f.fetched m).current then 0 else 1) := rfl
    rw [hturns, fetched_current hm hx, turns]
    by_cases hlast : f.current + 1 = f.active
    · -- the next round
      rw [if_pos hlast, take_zero, if_pos (show f.pipes.index p < f.current by omega)]
      by_cases hxq : x = q
      · simp [hnot hxq, hxq]
      · simp [hxq]
    have hpass : f.pipes.index p < f.current + 1 ↔ f.pipes.index p < f.current := by omega
    rw [if_neg hlast, if_congr hpass rfl rfl, Nat.add_assoc]
    refine Nat.add_le_add_left ?_ _
    by_cases hxq : x = q
    · have hmem : q ∈ f.pipes.items.take (f.current + 1) := by
        refine mem_of_getElem? (i := f.current) ?_
        rw [getElem?_take, if_pos (Nat.lt_succ_self _), hx.2, hxq]
      simp [hnot hxq, hmem, hxq]
    by_cases hmem : q ∈ f.pipes.items.take f.current
    · have hmem' := (take_prefix_take_left (Nat.le_succ f.current)).subset hmem
      simp [hmem', hxq]
    · rw [if_neg hmem]
      split <;> simp [hxq]

end Fq

namespace FairQueue

/-- A potential that is known at the moment at which the pipe begins to wait bounds the
messages that begin. -/
theorem Flowing.begun_le {b b' : FairQueue} {p : PipeId} {counts : PipeId → Bool} {U : Fq → Nat}
    (hb : b.Flowing) (hU : Potential p counts U) (hp : b.Waits p) {us : List Traffic}
    {frames : List RecvFrame} (hus : b.history us = .ok (frames, b'))
    (hframes : ∀ f ∈ frames, f.pipe ≠ p) : (begun frames).countP counts ≤ U b.fq := by
  obtain ⟨frames1, b1, hrun, hb1⟩ := hb.history us
  cases hrun.symm.trans hus
  obtain ⟨hp', hle⟩ := hU.history hb hp hus hframes
  have hdue := hU.due_le hb1.steady.ok.fq hp'.1
  omega

/-- **Fair queueing.** Whatever happens to a fixed set of pipes, the position of the reader is
one of the active pipes, if there is one. And from the moment a pipe is active and holds a
message until a part of it is taken, the number of messages that begin from the other pipes is
less than the number of pipes, and none of them begins more than two. -/
theorem fair_queueing (pipes : List (PipeId × List MultipartMsg)) (ts us : List Traffic) :
    ∃ frames b frames' b', (attachAll pipes).history ts = .ok (frames, b) ∧
      b.history us = .ok (frames', b') ∧ (0 < b.fq.active → b.fq.current < b.fq.active) ∧
      ∀ p, b.fq.IsActive p → (b.pipes p).parts ≠ [] → (∀ f ∈ frames', f.pipe ≠ p) →
        (begun frames').length ≤ b.fq.pipes.size - 1 ∧ ∀ q, (begun frames').count q ≤ 2 := by
  obtain ⟨frames, b, hts, hb⟩ := (flowing_attachAll pipes).history ts
  obtain ⟨frames', b', hus, -⟩ := hb.history us
  have hok := hb.steady.ok.fq
  refine ⟨frames, b, frames', b', hts, hus, fun ha => ?_, fun p hp hne hframes => ⟨?_, fun q => ?_⟩⟩
  · have hcur := hok.current_lt
    omega
  · have hothers : ∀ x ∈ begun frames', decide (x ≠ p) = true := by
      intro x hx
      obtain ⟨f, hf, rfl⟩ := mem_map.mp hx
      exact decide_eq_true (hframes f (mem_of_mem_filter hf))
    have hle := hb.begun_le (Fq.potential_distance p) (hb.waits hp hne) hus hframes
    rw [countP_eq_length.mpr hothers] at hle
    have hlt := hok.index_lt_active hp
    have hsize := hok.active_le
    refine Nat.le_trans hle ?_
    unfold Fq.distance
    split <;> omega
  · by_cases hqp : q = p
    · have hcount : (begun frames').count q = 0 := by
        refine count_eq_zero.mpr fun hmem => ?_
        obtain ⟨f, hf, heq⟩ := mem_map.mp hmem
        exact hframes f (mem_of_mem_filter hf) (heq.trans hqp)
      omega
    have hle := hb.begun_le (Fq.potential_turns hqp) (hb.waits hp hne) hus hframes
    have hturns : Fq.turns p q b.fq ≤ 2 := by
      unfold Fq.turns
      split <;> split <;> omega
    exact Nat.le_trans (Nat.le_of_eq (countP_congr fun x _ => by simp)) (hle.trans hturns)

/-- Three pipes, and the second waits from the moment at which the reader has passed it. The
third has its turn, the first is empty and gives its place to the third, and so the third has
another turn before the second. -/
theorem pipe_served_twice :
    ∃ frames b frames' b', (attachAll [(0, [.ofData [] [0]]), (1, [.ofData [] [1], .ofData [] [1]]),
        (2, [.ofData [] [2], .ofData [] [2]])]).history [.recvpipe, .recvpipe] = .ok (frames, b) ∧
      b.history [.recvpipe, .recvpipe] = .ok (frames', b') ∧ b.fq.IsActive 1 ∧
      (b.pipes 1).parts = [Msg.initBuffer [1]] ∧ (∀ f ∈ frames', f.pipe ≠ 1) ∧
      begun frames' = [2, 2] :=
  ⟨_, _, _, _, rfl, rfl, ⟨1, by decide, rfl⟩, rfl, by decide, rfl⟩

end FairQueue

end ServerLink

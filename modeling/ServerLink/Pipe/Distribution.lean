import ServerLink.Pipe.Dist

/-!
# ServerLink.Pipe.Distribution

The distributor when pipes may be full. The three counters cut the array of pipes into
classes; every method is described by what it does to the classes `Matching` and `Eligible`,
and `distribute` by what every pipe gets (`Ok.distribute`): the matching pipes are offered the
message once each, and those that refuse it stop being matching and eligible.
-/

namespace ServerLink

open ArrayT List Function

namespace Dist

/-- The counters are nested, and no pipe waits for the end of a message between messages. -/
structure Ok (d : Dist) : Prop where
  pipes : d.pipes.Ok
  matching_le : d.matching ≤ d.active
  active_le : d.active ≤ d.eligible
  eligible_le : d.eligible ≤ d.pipes.size
  active_eq : d.more = false → d.active = d.eligible

/-- The pipe gets the message at hand. -/
def Matching (d : Dist) (p : PipeId) : Prop := d.pipes.Within d.matching p

/-- The pipe can match a message. -/
def Eligible (d : Dist) (p : PipeId) : Prop := d.pipes.Within d.eligible p

theorem empty_isOk : empty.Ok :=
  ⟨empty_ok, Nat.le_refl _, Nat.le_refl _, Nat.le_refl _, fun _ => rfl⟩

variable {d : Dist} {p q : PipeId}

@[simp] theorem not_matching_unmatch (d : Dist) (p : PipeId) : ¬ d.unmatch.Matching p := by
  simp [Matching, ArrayT.Within, unmatch]

/-- `has_pipe` looks at the place the pipe claims to be at. -/
theorem Ok.hasPipe_iff (h : d.Ok) : d.hasPipe p = true ↔ p ∈ d.pipes.items := by
  unfold hasPipe
  rw [beq_iff_eq]
  constructor
  · intro heq
    exact mem_of_getElem? heq
  · exact h.pipes.getElem?_index

theorem Ok.unmatch (h : d.Ok) : d.unmatch.Ok :=
  ⟨h.pipes, Nat.zero_le _, h.active_le, h.eligible_le, h.active_eq⟩

/-! ### Attaching and activating -/

/-- The pipe joins the eligible ones. -/
structure Joins (d : Dist) (p : PipeId) (d' : Dist) : Prop where
  ok : d'.Ok
  more : d'.more = d.more
  matching : ∀ q, d'.Matching q ↔ d.Matching q
  eligible : ∀ q, d'.Eligible q ↔ d.Eligible q ∨ q = p

/-- A pipe behind the eligible ones is moved up to them. It is active as well if no message
is being sent. -/
def moveUp (d : Dist) (pipes : ArrayT PipeId) (p : PipeId) : Dist :=
  { d with
    pipes := pipes.swap (pipes.index p) d.eligible
    active := if d.more then d.active else d.active + 1
    eligible := d.eligible + 1 }

/-- The same pipes are the first ones in another array, in which `p` comes behind them. -/
theorem Ok.moveUp (h : d.Ok) {pipes : ArrayT PipeId} (hok : pipes.Ok) (hp : p ∈ pipes.items)
    (hidx : d.eligible ≤ pipes.index p)
    (hsame : ∀ n ≤ d.eligible, ∀ q, pipes.Within n q ↔ d.pipes.Within n q) :
    d.Joins p (d.moveUp pipes p) ∧ ∀ q, q ∈ (d.moveUp pipes p).pipes.items ↔ q ∈ pipes.items := by
  have hlt := hok.index_lt hp
  have helig : d.eligible < pipes.size := Nat.lt_of_le_of_lt hidx hlt
  have hmatch := h.matching_le
  have hact := h.active_le
  refine ⟨⟨⟨hok.swap hlt helig, ?_, ?_, ?_, ?_⟩, rfl, fun q => ?_, fun q => ?_⟩,
    fun q => mem_swap hlt helig⟩
  · simp only [Dist.moveUp]
    split <;> omega
  · simp only [Dist.moveUp]
    split <;> omega
  · simp only [Dist.moveUp, size_swap]
    omega
  · intro hmore
    have heq := h.active_eq hmore
    simp only [Dist.moveUp] at hmore ⊢
    simp [hmore, heq]
  · exact (hok.within_swap (n := d.matching) hlt helig (by omega)).trans
      (hsame _ (Nat.le_trans hmatch hact) q)
  · refine (hok.within_moveIn hp hidx).trans (or_congr_left ?_)
    exact hsame _ (Nat.le_refl _) q

theorem Ok.attach (h : d.Ok) (hp : p ∉ d.pipes.items) :
    d.Joins p (d.attach p) ∧ ∀ q, q ∈ (d.attach p).pipes.items ↔ q ∈ d.pipes.items ∨ q = p := by
  have hpush := h.pipes.pushBack hp
  have hidx : (d.pipes.pushBack p).index p = d.pipes.size := by simp [pushBack, size]
  have heq : d.attach p = d.moveUp (d.pipes.pushBack p) p := by
    unfold Dist.attach Dist.moveUp
    dsimp only
    rw [size_pushBack, Nat.add_sub_cancel, hidx, hpush.swap_comm d.pipes.size]
    cases hmore : d.more with
    | true => simp
    | false => simp [h.active_eq hmore]
  obtain ⟨hj, hmem⟩ := h.moveUp hpush (by simp) (hidx ▸ h.eligible_le) fun n hn q =>
    within_pushBack hp (Nat.le_trans hn h.eligible_le)
  rw [heq]
  refine ⟨hj, fun q => (hmem q).trans ?_⟩
  simp

theorem Ok.activated (h : d.Ok) (hp : p ∈ d.pipes.items) (hne : ¬ d.Eligible p) :
    d.Joins p (d.activated p) ∧ ∀ q, q ∈ (d.activated p).pipes.items ↔ q ∈ d.pipes.items := by
  have hidx : d.eligible ≤ d.pipes.index p := by
    by_contra hlt
    exact hne ⟨hp, by omega⟩
  have hlt := h.pipes.index_lt hp
  have helig : d.eligible < d.pipes.size := Nat.lt_of_le_of_lt hidx hlt
  have heq : d.activated p = d.moveUp d.pipes p := by
    unfold Dist.activated Dist.moveUp
    rw [if_pos helig]
    dsimp only
    rw [size_swap, Nat.add_sub_cancel]
    rcases Bool.eq_false_or_eq_true d.more with hmore | hmore
    · simp [hmore]
    · rw [h.active_eq hmore, (h.pipes.swap hlt helig).swap_same]
      simp [hmore, helig]
  rw [heq]
  exact h.moveUp h.pipes hp hidx fun _ _ _ => Iff.rfl

/-! ### Matching -/

/-- The pipes in the set `S`, as far as they are eligible, have become matching ones. -/
structure Matched (d : Dist) (S : PipeId → Prop) (d' : Dist) : Prop where
  ok : d'.Ok
  more : d'.more = d.more
  mem : ∀ q, q ∈ d'.pipes.items ↔ q ∈ d.pipes.items
  matching : ∀ q, d'.Matching q ↔ d.Matching q ∨ (S q ∧ d.Eligible q)
  eligible : ∀ q, d'.Eligible q ↔ d.Eligible q

/-- Between two messages, an eligible pipe becomes a matching one. -/
theorem Ok.matchPipe (h : d.Ok) (hmore : d.more = false) (hp : p ∈ d.pipes.items) :
    d.Matched (· = p) (d.matchPipe p) := by
  have hlt := h.pipes.index_lt hp
  have heq := h.active_eq hmore
  have hle := h.eligible_le
  unfold Dist.matchPipe
  by_cases hin : d.pipes.index p < d.matching
  · rw [if_pos hin]
    refine ⟨h, rfl, fun _ => Iff.rfl, fun q => ?_, fun _ => Iff.rfl⟩
    constructor
    · exact .inl
    intro hq
    rcases hq with hq | ⟨rfl, -⟩
    · exact hq
    · exact ⟨hp, hin⟩
  rw [if_neg hin]
  by_cases hout : d.eligible ≤ d.pipes.index p
  · rw [if_pos hout]
    refine ⟨h, rfl, fun _ => Iff.rfl, fun q => ?_, fun _ => Iff.rfl⟩
    constructor
    · exact .inl
    intro hq
    rcases hq with hq | ⟨rfl, helig⟩
    · exact hq
    · exact absurd helig.2 (Nat.not_lt.mpr hout)
  rw [if_neg hout]
  have hm : d.matching < d.pipes.size := by omega
  have helig : d.Eligible p := ⟨hp, by omega⟩
  refine ⟨⟨h.pipes.swap hlt hm, ?_, h.active_le, ?_, h.active_eq⟩, rfl,
    fun q => mem_swap hlt hm, fun q => ?_, fun q => ?_⟩
  · dsimp only
    omega
  · rw [size_swap]
    exact hle
  · refine (h.pipes.within_moveIn hp (Nat.not_lt.mp hin)).trans (or_congr_right ?_)
    constructor
    · rintro rfl
      exact ⟨rfl, helig⟩
    · exact And.left
  · exact h.pipes.within_swap (n := d.eligible) hlt hm (by omega)

/-- The pipes that are called by `mtrie_t::match` and are eligible become the matching ones. -/
theorem Ok.matchAll (h : d.Ok) (hmore : d.more = false) {pipes : List PipeId}
    (hp : ∀ p ∈ pipes, p ∈ d.pipes.items) :
    d.Matched (· ∈ pipes) (pipes.foldl Dist.matchPipe d) := by
  induction pipes generalizing d with
  | nil => exact ⟨h, rfl, fun _ => Iff.rfl, fun q => by simp, fun _ => Iff.rfl⟩
  | cons p pipes ih =>
    have hm := h.matchPipe hmore (hp p mem_cons_self)
    have hms := ih hm.ok (hm.more.trans hmore) fun q hq =>
      (hm.mem q).mpr (hp q (mem_cons_of_mem _ hq))
    refine ⟨hms.ok, hms.more.trans hm.more, fun q => (hms.mem q).trans (hm.mem q), fun q => ?_,
      fun q => (hms.eligible q).trans (hm.eligible q)⟩
    rw [foldl_cons, hms.matching, hm.matching, hm.eligible, mem_cons, or_and_right,
      or_assoc]

/-! ### Leaving -/

/-- What `moveOut` does: `p` is no longer one of the first `n` pipes, and the swap is done
inside of every longer part and outside of every part that ends before `p`. -/
structure MovedOut (a : ArrayT PipeId) (p : PipeId) (n : Nat) (r : ArrayT PipeId × Nat) :
    Prop where
  ok : r.1.Ok
  size : r.1.size = a.size
  mem : ∀ q, q ∈ r.1.items ↔ q ∈ a.items
  count : r.2 = if a.index p < n then n - 1 else n
  within : ∀ q, r.1.Within r.2 q ↔ a.Within n q ∧ q ≠ p
  above : ∀ m, n ≤ m → ∀ q, r.1.Within m q ↔ a.Within m q
  below : ∀ m, m ≤ a.index p → m ≤ r.2 → ∀ q, r.1.Within m q ↔ a.Within m q

section MoveOut

variable {a : ArrayT PipeId} {n m : Nat}

theorem moveOut_of_lt (h : a.index p < n) : moveOut a p n = (a.swap (a.index p) (n - 1), n - 1) :=
  if_pos h

theorem movedOut (h : a.Ok) (hp : p ∈ a.items) (hn : n ≤ a.size) :
    MovedOut a p n (moveOut a p n) := by
  have hlt := h.index_lt hp
  unfold moveOut
  by_cases hin : a.index p < n
  · rw [if_pos hin]
    have hn' : n - 1 < a.size := by omega
    refine ⟨h.swap hlt hn', by simp, fun q => mem_swap hlt hn', by rw [if_pos hin],
      fun q => h.within_moveOut ⟨hp, hin⟩ hn, fun m hm q => ?_, fun m hm hm' q => ?_⟩
    · exact h.within_swap hlt hn' (by omega)
    · dsimp only at hm'
      exact h.within_swap hlt hn' (by omega)
  rw [if_neg hin]
  refine ⟨h, rfl, fun _ => Iff.rfl, by rw [if_neg hin], fun q => ?_, fun _ _ _ => Iff.rfl,
    fun _ _ _ _ => Iff.rfl⟩
  constructor
  · intro hq
    refine ⟨hq, ?_⟩
    rintro rfl
    exact hin hq.2
  · exact And.left

theorem within_iff_index (hp : p ∈ a.items) : a.Within m p ↔ a.index p < m :=
  and_iff_right hp

variable {r : ArrayT PipeId × Nat} (hr : MovedOut a p n r) (hp : p ∈ a.items)

include hr hp

theorem MovedOut.behind : r.2 ≤ r.1.index p := by
  have hout := (hr.within p).not.mpr fun h => h.2 rfl
  rw [within_iff_index ((hr.mem p).mpr hp)] at hout
  omega

theorem MovedOut.index_above (hm : n ≤ m) : r.1.index p < m ↔ a.index p < m := by
  rw [← within_iff_index hp, ← hr.above m hm, within_iff_index ((hr.mem p).mpr hp)]

theorem MovedOut.index_below (hm : m ≤ a.index p) (hm' : m ≤ r.2) : m ≤ r.1.index p := by
  have hout : ¬ a.Within m p := by
    rw [within_iff_index hp]
    omega
  rw [← hr.below m hm hm', within_iff_index ((hr.mem p).mpr hp)] at hout
  omega

end MoveOut

/-- The pipe is moved behind the matching, the active and the eligible ones. -/
def leave (d : Dist) (p : PipeId) : Dist :=
  let matching := moveOut d.pipes p d.matching
  let active := moveOut matching.1 p d.active
  let eligible := moveOut active.1 p d.eligible
  { d with
    pipes := eligible.1
    matching := matching.2
    active := active.2
    eligible := eligible.2 }

theorem pipeTerminated_eq (d : Dist) (p : PipeId) :
    d.pipeTerminated p = { d.leave p with pipes := (d.leave p).pipes.erase p } := rfl

/-- The pipe stops being matching and eligible, and the others stay what they are. -/
structure Leaves (d : Dist) (p : PipeId) (d' : Dist) : Prop where
  ok : d'.Ok
  more : d'.more = d.more
  matching : ∀ q, d'.Matching q ↔ d.Matching q ∧ q ≠ p
  eligible : ∀ q, d'.Eligible q ↔ d.Eligible q ∧ q ≠ p

theorem Ok.leave (h : d.Ok) (hp : p ∈ d.pipes.items) :
    d.Leaves p (d.leave p) ∧ (∀ q, q ∈ (d.leave p).pipes.items ↔ q ∈ d.pipes.items) ∧
      (d.leave p).eligible ≤ (d.leave p).pipes.index p ∧
      ∀ m ≤ d.pipes.index p, m ≤ (d.leave p).matching →
        ∀ q, (d.leave p).pipes.Within m q ↔ d.pipes.Within m q := by
  have hmatch := h.matching_le
  have hact := h.active_le
  have helig := h.eligible_le
  -- The three moves, one after the other.
  have h1 := movedOut h.pipes hp (n := d.matching) (by omega)
  have hp1 := (h1.mem p).mpr hp
  have h2 := movedOut h1.ok hp1 (n := d.active) (by rw [h1.size]; omega)
  have hp2 := (h2.mem p).mpr hp1
  have h3 := movedOut h2.ok hp2 (n := d.eligible) (by rw [h2.size, h1.size]; omega)
  unfold Dist.leave
  dsimp only
  generalize moveOut d.pipes p d.matching = r1 at *
  generalize moveOut r1.1 p d.active = r2 at *
  generalize moveOut r2.1 p d.eligible = r3 at *
  have hactive : r1.1.index p < d.active ↔ d.pipes.index p < d.active :=
    h1.index_above hp hmatch
  have heligible : r2.1.index p < d.eligible ↔ d.pipes.index p < d.eligible :=
    (h2.index_above hp1 hact).trans (h1.index_above hp (by omega))
  have hn1 := h1.count
  have hn2 := h2.count
  have hn3 := h3.count
  have hle12 : r1.2 ≤ r2.2 := by
    rw [hn1, hn2]
    split_ifs <;> omega
  have hle23 : r2.2 ≤ r3.2 := by
    rw [hn2, hn3]
    split_ifs <;> omega
  have hbehind1 := h1.behind hp
  have hbelow2 := h2.index_below hp1 hbehind1 hle12
  refine ⟨⟨⟨h3.ok, hle12, hle23, ?_, fun hmore => ?_⟩, rfl, fun q => ?_, fun q => ?_⟩,
    fun q => ?_, h3.behind hp2, fun m hm hm' q => ?_⟩
  · show r3.2 ≤ r3.1.size
    rw [hn3, h3.size, h2.size, h1.size]
    split_ifs <;> omega
  · show r2.2 = r3.2
    have heq := h.active_eq hmore
    rw [hn2, hn3]
    split_ifs <;> omega
  · show r3.1.Within r1.2 q ↔ _
    rw [h3.below _ hbelow2 (Nat.le_trans hle12 hle23), h2.below _ hbehind1 hle12, h1.within]
    rfl
  · show r3.1.Within r3.2 q ↔ _
    rw [h3.within, h2.above _ hact, h1.above _ (by omega)]
    rfl
  · exact (h3.mem q).trans ((h2.mem q).trans (h1.mem q))
  · have hm1 := h1.index_below hp hm hm'
    have hle2 := Nat.le_trans hm' hle12
    have hm2 := h2.index_below hp1 hm1 hle2
    exact (h3.below m hm2 (Nat.le_trans hle2 hle23) q).trans
      ((h2.below m hm1 hle2 q).trans (h1.below m hm hm' q))

theorem Ok.pipeTerminated (h : d.Ok) (hp : p ∈ d.pipes.items) :
    d.Leaves p (d.pipeTerminated p) ∧
      ∀ q, q ∈ (d.pipeTerminated p).pipes.items ↔ q ∈ d.pipes.items ∧ q ≠ p := by
  obtain ⟨hl, hmem, hbehind, -⟩ := h.leave hp
  have hok := hl.ok.pipes
  have hp' := (hmem p).mpr hp
  have hmatch := hl.ok.matching_le
  have hact := hl.ok.active_le
  have hlt := hok.index_lt hp'
  rw [pipeTerminated_eq]
  refine ⟨⟨⟨hok.erase hp', hmatch, hact, ?_, hl.ok.active_eq⟩, hl.more, fun q => ?_, fun q => ?_⟩,
    fun q => ?_⟩
  · rw [hok.size_erase hp']
    dsimp only
    omega
  · refine Iff.trans ?_ (hl.matching q)
    exact hok.within_erase hp' (Nat.le_trans (Nat.le_trans hmatch hact) hbehind)
  · exact (hok.within_erase hp' hbehind).trans (hl.eligible q)
  · rw [hok.mem_erase hp', hmem]

/-! ### Distributing -/

/-- A matching pipe is moved in the same way when it refuses a message. -/
theorem Ok.passivate_eq (h : d.Ok) (hp : d.Matching p) : d.passivate p = d.leave p := by
  obtain ⟨hmem, hlt⟩ := hp
  have hmatch := h.matching_le
  have hact := h.active_le
  have helig := h.eligible_le
  have hidx := h.pipes.index_lt hmem
  have hm : d.matching - 1 < d.pipes.size := by omega
  have ok1 := h.pipes.swap hidx hm
  have hsize1 := size_swap (a := d.pipes) (d.pipes.index p) (d.matching - 1)
  have hmem1 := (mem_swap hidx hm).mpr hmem
  have hidx1 : (d.pipes.swap (d.pipes.index p) (d.matching - 1)).index p = d.matching - 1 := by
    rw [h.pipes.index_swap hidx hm hmem]
    split_ifs <;> omega
  unfold Dist.passivate Dist.leave
  dsimp only
  rw [moveOut_of_lt hlt]
  generalize d.pipes.swap (d.pipes.index p) (d.matching - 1) = a1 at *
  have hlt1 := ok1.index_lt hmem1
  have ha : d.active - 1 < a1.size := by omega
  have hidx2 : (a1.swap (a1.index p) (d.active - 1)).index p = d.active - 1 := by
    rw [ok1.index_swap hlt1 ha hmem1]
    split_ifs <;> omega
  have hlt2 : a1.index p < d.active := by omega
  have hlt3 : (a1.swap (a1.index p) (d.active - 1)).index p < d.eligible := by omega
  rw [moveOut_of_lt hlt2]
  rw [moveOut_of_lt hlt3, hidx2]

section Distribute

variable {ω : Type} [WriteEnd ω]

/-- The write end accepts the message. -/
def takes (o : ω) (msg : Msg) : Bool := (WriteEnd.write o msg).2

/-- The write end after the message was offered to it. -/
def offered (o : ω) (msg : Msg) : ω :=
  if takes o msg && !msg.more then WriteEnd.flush (WriteEnd.write o msg).1
  else (WriteEnd.write o msg).1

/-- The pipes in the set `S` have been offered the message. -/
structure Offered (d : Dist) (outs : PipeId → ω) (msg : Msg) (S : PipeId → Prop)
    (r : Dist × (PipeId → ω)) : Prop where
  ok : r.1.Ok
  mem : ∀ q, q ∈ r.1.pipes.items ↔ q ∈ d.pipes.items
  offered : ∀ q, S q → r.2 q = offered (outs q) msg
  others : ∀ q, ¬ S q → r.2 q = outs q
  matching : ∀ q, r.1.Matching q ↔ d.Matching q ∧ (S q → takes (outs q) msg = true)
  eligible : ∀ q, r.1.Eligible q ↔ d.Eligible q ∧ (S q → takes (outs q) msg = true)

variable {outs : PipeId → ω} {msg : Msg}

theorem Ok.offered_none (h : d.Ok) {S : PipeId → Prop} (hS : ∀ q, ¬ S q) :
    d.Offered outs msg S (d, outs) :=
  ⟨h, fun _ => Iff.rfl, fun q hq => absurd hq (hS q), fun _ _ => rfl,
    fun q => by simp [hS q], fun q => by simp [hS q]⟩

/-- The message is offered to one pipe and then to others. -/
theorem Offered.cons {d' : Dist} {S S' : PipeId → Prop} {r : Dist × (PipeId → ω)}
    (h : d'.Offered (update outs p (Dist.offered (outs p) msg)) msg S' r)
    (hS : ∀ q, S q ↔ q = p ∨ S' q) (hp : ¬ S' p)
    (hmem : ∀ q, q ∈ d'.pipes.items ↔ q ∈ d.pipes.items)
    (hmatch : ∀ q, d'.Matching q ↔ d.Matching q ∧ (q = p → takes (outs p) msg = true))
    (helig : ∀ q, d'.Eligible q ↔ d.Eligible q ∧ (q = p → takes (outs p) msg = true)) :
    d.Offered outs msg S r := by
  have hclass : ∀ q, (q = p → takes (outs p) msg = true) ∧
      (S' q → takes (update outs p (Dist.offered (outs p) msg) q) msg = true) ↔
      (S q → takes (outs q) msg = true) := by
    intro q
    rw [hS]
    by_cases hq : q = p
    · subst hq
      simp [hp]
    · simp [hq]
  refine ⟨h.ok, fun q => (h.mem q).trans (hmem q), fun q hq => ?_,
    fun q hq => ?_, fun q => ?_, fun q => ?_⟩
  · by_cases heq : q = p
    · subst heq
      rw [h.others q hp, update_self]
    · have hq' := ((hS q).mp hq).resolve_left heq
      rw [h.offered q hq', update_of_ne heq]
  · have hne := fun hq' => hq ((hS q).mpr hq')
    rw [h.others q fun hq' => hne (.inr hq'), update_of_ne fun heq => hne (.inl heq)]
  · rw [h.matching, hmatch, and_assoc, hclass]
  · rw [h.eligible, helig, and_assoc, hclass]

theorem write_of_takes (h : takes (outs p) msg = true) :
    d.write outs p msg = (d, update outs p (offered (outs p) msg), true) := by
  unfold Dist.write offered
  unfold takes at h ⊢
  generalize WriteEnd.write (outs p) msg = r at *
  obtain ⟨o, taken⟩ := r
  subst h
  cases msg.more <;> rfl

theorem write_of_refuses (h : takes (outs p) msg = false) :
    d.write outs p msg = (d.passivate p, update outs p (offered (outs p) msg), false) := by
  unfold Dist.write offered
  unfold takes at h ⊢
  generalize WriteEnd.write (outs p) msg = r at *
  obtain ⟨o, taken⟩ := r
  subst h
  rfl

/-- The matching pipes from position `i` on. -/
def Ahead (d : Dist) (i : Nat) (q : PipeId) : Prop := d.Matching q ∧ ¬ d.pipes.Within i q

theorem Ok.ahead_iff (h : d.Ok) {i : Nat} (hi : d.pipes.items[i]? = some p)
    (hlt : i < d.matching) : d.Ahead i q ↔ q = p ∨ d.Ahead (i + 1) q := by
  have hmem := mem_of_getElem? hi
  have hidx := h.pipes i p hi
  unfold Ahead Matching ArrayT.Within
  constructor
  · intro ⟨hq, hnot⟩
    by_cases heq : q = p
    · exact .inl heq
    refine .inr ⟨hq, fun hin => hnot ⟨hq.1, ?_⟩⟩
    have hne : d.pipes.index q ≠ i := fun h' =>
      heq (h.pipes.eq_of_index_eq hq.1 hmem (h'.trans hidx.symm))
    omega
  · intro hq
    rcases hq with rfl | ⟨hq, hnot⟩
    · exact ⟨⟨hmem, by omega⟩, fun hin => by omega⟩
    · exact ⟨hq, fun hin => hnot ⟨hin.1, by omega⟩⟩

theorem Ok.matching_le_size (h : d.Ok) : d.matching ≤ d.pipes.size :=
  Nat.le_trans h.matching_le (Nat.le_trans h.active_le h.eligible_le)

theorem Ok.exists_matching (h : d.Ok) {i : Nat} (hlt : i < d.matching) :
    ∃ pipe, d.pipes.items[i]? = some pipe :=
  ⟨_, getElem?_eq_getElem (Nat.lt_of_lt_of_le hlt h.matching_le_size)⟩

theorem not_ahead_self (h : d.pipes.Ok) {i : Nat} (hi : d.pipes.items[i]? = some p) :
    ¬ d.Ahead (i + 1) p := by
  intro ⟨hp, hnot⟩
  exact hnot ⟨hp.1, by rw [h i p hi]; exact Nat.lt_succ_self i⟩

/-- The loop from position `i` on offers the message to the matching pipes from there on. -/
theorem distributeLoop_offers (fuel i : Nat) (d : Dist) (outs : PipeId → ω) (h : d.Ok)
    (hfuel : d.matching ≤ i + fuel) :
    d.Offered outs msg (d.Ahead i) (distributeLoop msg fuel i d outs) := by
  have hdone : ∀ {i : Nat} {d : Dist}, d.matching ≤ i → ∀ q, ¬ d.Ahead i q := by
    intro i d hle q ⟨hq, hnot⟩
    exact hnot ⟨hq.1, Nat.lt_of_lt_of_le hq.2 hle⟩
  -- A round goes on to the next position or has one matching pipe less.
  induction fuel generalizing i d outs with
  | zero => exact h.offered_none (hdone hfuel)
  | succ fuel ih =>
    rw [distributeLoop]
    by_cases hlt : i < d.matching
    · rw [if_pos hlt]
      obtain ⟨pipe, hi⟩ := h.exists_matching hlt
      have hidx := h.pipes i pipe hi
      have hmem := mem_of_getElem? hi
      rw [hi]
      dsimp only
      cases htakes : takes (outs pipe) msg with
      | true =>
        rw [write_of_takes htakes]
        refine (ih (i + 1) d _ h (by omega)).cons (fun q => h.ahead_iff hi hlt)
          (not_ahead_self h.pipes hi) (fun _ => Iff.rfl) (fun q => ?_) fun q => ?_
        · simp [htakes]
        · simp [htakes]
      | false =>
        rw [write_of_refuses htakes, h.passivate_eq ⟨hmem, by omega⟩]
        obtain ⟨hl, hmem', -, hbelow⟩ := h.leave hmem
        have hcount : (d.leave pipe).matching = d.matching - 1 :=
          (movedOut h.pipes hmem (n := d.matching) h.matching_le_size).count.trans
            (if_pos (by omega))
        -- The pipes ahead are the same ones without this pipe.
        have hahead : ∀ q, (d.leave pipe).Ahead i q ↔ d.Ahead i q ∧ q ≠ pipe := by
          intro q
          unfold Ahead
          rw [hl.matching, hbelow i (by omega) (by omega)]
          exact ⟨fun h => ⟨⟨h.1.1, h.2⟩, h.1.2⟩, fun h => ⟨⟨h.1.1, h.2⟩, h.1.2⟩⟩
        refine (ih i _ _ hl.ok (by omega)).cons (fun q => ?_) (fun hp => ?_) hmem'
          (fun q => ?_) fun q => ?_
        · rw [hahead]
          have hself := (h.ahead_iff (q := pipe) hi hlt).mpr (.inl rfl)
          by_cases hq : q = pipe
          · subst hq
            simp [hself]
          · simp [hq]
        · exact ((hahead pipe).mp hp).2 rfl
        · rw [hl.matching, htakes]
          simp
        · rw [hl.eligible, htakes]
          simp
    · rw [if_neg hlt]
      exact h.offered_none (hdone (Nat.not_lt.mp hlt))

/-- Every matching pipe is offered the message once, and no other pipe. -/
theorem Ok.distribute (h : d.Ok) : d.Offered outs msg d.Matching (d.distribute outs msg) := by
  have hahead : d.Ahead 0 = d.Matching := by
    funext q
    simp [Ahead, ArrayT.Within]
  rw [← hahead]
  exact distributeLoop_offers d.matching 0 d outs h (by omega)

/-- The end of a message makes the eligible pipes active. -/
theorem Ok.sendToMatching (h : d.Ok) :
    d.Offered outs msg d.Matching (d.sendToMatching outs msg) ∧
      (d.sendToMatching outs msg).1.more = msg.more := by
  have ho : d.Offered outs msg d.Matching (d.distribute outs msg) := h.distribute
  unfold Dist.sendToMatching
  have hmatch := ho.ok.matching_le
  have hact := ho.ok.active_le
  refine ⟨⟨⟨ho.ok.pipes, ?_, ?_, ho.ok.eligible_le, fun hmore => ?_⟩, ho.mem, ho.offered, ho.others,
    ho.matching, ho.eligible⟩, rfl⟩
  · dsimp only at hmatch hact ⊢
    split <;> omega
  · dsimp only at hact ⊢
    split <;> omega
  · dsimp only at hmore ⊢
    simp [hmore]

/-- `check_hwm`, with the method of the pipes as a parameter. -/
def checkHwm (d : Dist) (room : PipeId → Bool) : Bool :=
  (d.pipes.items.take d.matching).all room

theorem Ok.checkHwm_iff (h : d.Ok) (room : PipeId → Bool) :
    d.checkHwm room = true ↔ ∀ p, d.Matching p → room p = true := by
  unfold Dist.checkHwm
  rw [List.all_eq_true]
  refine forall_congr' fun p => imp_congr_left ?_
  rw [List.mem_take_iff_getElem]
  constructor
  · intro ⟨i, hi, hp⟩
    have hget : d.pipes.items[i]? = some p := by rw [List.getElem?_eq_getElem (by omega), hp]
    refine ⟨List.mem_of_getElem? hget, ?_⟩
    rw [h.pipes i p hget]
    omega
  · intro ⟨hmem, hlt⟩
    obtain ⟨hsize, heq⟩ := List.getElem?_eq_some_iff.mp (h.pipes.getElem?_index hmem)
    exact ⟨d.pipes.index p, by omega, heq⟩

end Distribute

end Dist

end ServerLink

import ServerLink.Core.Array
import ServerLink.Pipe.Inlet
import ServerLink.Pipe.MTrie

/-!
# ServerLink.Pipe.Fq

The fair queue of inbound pipes (`fq.cpp`). The first `active` pipes of the array may
have something to read; `current` is the position of the pipe to read from next. The
reader remembers a message it is in the middle of by that position alone, and every
operation permutes the array.
-/

namespace ServerLink

open Function ArrayT

abbrev Inlets := PipeId → Inlet

/-- `fq_t`. -/
structure Fq where
  pipes : ArrayT PipeId
  active : Nat
  current : Nat
  more : Bool

/-- A fair queue and the pipes it reads from. -/
structure FairQueue where
  fq : Fq
  pipes : Inlets

/-- A part handed to the user of a socket: where it comes from, and whether it begins a
message. The sockets return the message alone. -/
structure RecvFrame where
  pipe : PipeId
  msg : Msg
  first : Bool
  deriving Repr, DecidableEq

namespace Fq

def empty : Fq := ⟨ArrayT.empty, 0, 0, false⟩

def attach (f : Fq) (pipe : PipeId) : Fq :=
  let pipes := f.pipes.pushBack pipe
  { f with pipes := pipes.swap f.active (pipes.size - 1), active := f.active + 1 }

/-- The position at `current` has gone: read on from the start. -/
def wrap (current active : Nat) : Nat := if current = active then 0 else current

def pipeTerminated (f : Fq) (pipe : PipeId) : Fq :=
  let index := f.pipes.index pipe
  if index < f.active then
    { f with
      pipes := (f.pipes.swap index (f.active - 1)).erase pipe
      active := f.active - 1
      current := wrap f.current (f.active - 1) }
  else { f with pipes := f.pipes.erase pipe }

def activated (f : Fq) (pipe : PipeId) : Fq :=
  { f with pipes := f.pipes.swap (f.pipes.index pipe) f.active, active := f.active + 1 }

/-- The end of the loops of `recvpipe` and `has_in`: the current pipe has nothing. -/
def deactivate (f : Fq) : Fq :=
  { f with
    pipes := f.pipes.swap f.current (f.active - 1)
    active := f.active - 1
    current := wrap f.current (f.active - 1) }

/-- A part was read from the current pipe. -/
def fetched (f : Fq) (m : Msg) : Fq :=
  { f with
    more := m.more
    current := if m.more then f.current else (f.current + 1) % f.active }

end Fq

namespace FairQueue

def empty : FairQueue := ⟨.empty, fun _ => {}⟩

/-- The loop of `recvpipe`. Every round but the last makes a pipe inactive. -/
def recvLoop : Nat → FairQueue → Except Fault (Option (PipeId × Msg) × FairQueue)
  | 0, b => .ok (none, b)
  | fuel + 1, b =>
    if b.fq.active = 0 then .ok (none, b)
    else
      match b.fq.pipes.items[b.fq.current]? with
      | none => .error .arrayRange
      | some pipe =>
        match (b.pipes pipe).read with
        | (some m, i) => .ok (some (pipe, m), ⟨b.fq.fetched m, update b.pipes pipe i⟩)
        | (none, i) =>
          if b.fq.more then .error .fqAtomicity
          else recvLoop fuel ⟨b.fq.deactivate, update b.pipes pipe i⟩

/-- `recvpipe`: a part and the pipe it comes from, or nothing. -/
def recvpipe (b : FairQueue) : Except Fault (Option (PipeId × Msg) × FairQueue) :=
  recvLoop b.fq.active b

/-- The loop of `has_in`. -/
def hasInLoop : Nat → FairQueue → Except Fault (Bool × FairQueue)
  | 0, b => .ok (false, b)
  | fuel + 1, b =>
    if b.fq.active = 0 then .ok (false, b)
    else
      match b.fq.pipes.items[b.fq.current]? with
      | none => .error .arrayRange
      | some pipe =>
        match (b.pipes pipe).checkRead with
        | (true, i) => .ok (true, ⟨b.fq, update b.pipes pipe i⟩)
        | (false, i) => hasInLoop fuel ⟨b.fq.deactivate, update b.pipes pipe i⟩

def hasIn (b : FairQueue) : Except Fault (Bool × FairQueue) :=
  if b.fq.more then .ok (true, b) else hasInLoop b.fq.active b

/-- A new pipe with what it holds already. -/
def attach (b : FairQueue) (pipe : PipeId) (i : Inlet) : FairQueue :=
  ⟨b.fq.attach pipe, update b.pipes pipe i⟩

/-- Something happens at the pipe that the socket is not told. -/
def modify (b : FairQueue) (pipe : PipeId) (f : Inlet → Inlet) : FairQueue :=
  { b with pipes := update b.pipes pipe (f (b.pipes pipe)) }

/-- `process_activate_read` of a pipe and `read_activated` of its sink. -/
def activateRead (b : FairQueue) (pipe : PipeId) : FairQueue :=
  if !(b.pipes pipe).inActive && (b.pipes pipe).reading then
    ⟨b.fq.activated pipe, update b.pipes pipe { b.pipes pipe with inActive := true }⟩
  else b

def pipeTerminated (b : FairQueue) (pipe : PipeId) : FairQueue :=
  { b with fq := b.fq.pipeTerminated pipe }

end FairQueue

/-! ### The array -/

namespace Fq

variable {f' : Fq}

/-- The positions of the counters. -/
structure Ok (f : Fq) : Prop where
  pipes : f.pipes.Ok
  active_le : f.active ≤ f.pipes.size
  current_lt : f.current = 0 ∨ f.current < f.active

def IsActive (f : Fq) (pipe : PipeId) : Prop := ∃ k < f.active, f.pipes.items[k]? = some pipe

/-- The pipe is the one to read from. -/
def IsCurrent (f : Fq) (pipe : PipeId) : Prop :=
  f.current < f.active ∧ f.pipes.items[f.current]? = some pipe

instance (f : Fq) (pipe : PipeId) : Decidable (f.IsCurrent pipe) :=
  inferInstanceAs (Decidable (_ ∧ _))

/-- The removal of the pipe makes the reader lose its place: the current pipe is the last
active one and moves to the place of the removed pipe, but the reader starts again from the
first. -/
def Redirects (f : Fq) (pipe : PipeId) : Prop :=
  f.current + 1 = f.active ∧ 0 < f.pipes.index pipe ∧ f.pipes.index pipe < f.current

instance (f : Fq) (pipe : PipeId) : Decidable (f.Redirects pipe) :=
  inferInstanceAs (Decidable (_ ∧ _))

variable {f : Fq} {pipe x : PipeId}

theorem empty_ok : empty.Ok := ⟨ArrayT.empty_ok, Nat.le_refl _, .inl rfl⟩

theorem IsActive.mem (h : f.IsActive x) : x ∈ f.pipes.items := by
  obtain ⟨k, -, hk⟩ := h
  exact List.mem_of_getElem? hk

theorem IsCurrent.isActive (h : f.IsCurrent x) : f.IsActive x := ⟨_, h.1, h.2⟩

theorem IsCurrent.unique {y : PipeId} (hx : f.IsCurrent x) (hy : f.IsCurrent y) : x = y :=
  Option.some.inj (hx.2.symm.trans hy.2)

/-- As long as a pipe is active there is a current one. -/
theorem Ok.exists_current (h : f.Ok) (ha : f.active ≠ 0) : ∃ x, f.IsCurrent x := by
  have hlt : f.current < f.active := by
    have := h.current_lt
    omega
  have hlen : f.current < f.pipes.items.length := Nat.lt_of_lt_of_le hlt h.active_le
  exact ⟨_, hlt, List.getElem?_eq_getElem hlen⟩

theorem Ok.isActive_iff (h : f.Ok) (hx : x ∈ f.pipes.items) :
    f.IsActive x ↔ f.pipes.index x < f.active := by
  constructor
  · intro ⟨k, hk, hget⟩
    rw [h.pipes k x hget]
    exact hk
  · intro hlt
    exact ⟨_, hlt, h.pipes.getElem?_index hx⟩

/-! #### A pipe joins the active ones -/

/-- The pipe takes the place behind the active pipes. -/
structure Joins (f : Fq) (pipe : PipeId) (f' : Fq) : Prop where
  active : f'.active = f.active + 1
  current : f'.current = f.current
  get : ∀ k ≤ f.active, f'.pipes.items[k]? = if k = f.active then some pipe else f.pipes.items[k]?

theorem Joins.isActive_iff (hj : f.Joins pipe f') : f'.IsActive x ↔ f.IsActive x ∨ x = pipe := by
  constructor
  · intro ⟨k, hk, hget⟩
    rw [hj.active] at hk
    rw [hj.get k (Nat.lt_succ_iff.mp hk)] at hget
    split at hget
    · exact .inr (Option.some.inj hget).symm
    · exact .inl ⟨k, by omega, hget⟩
  intro hx
  rcases hx with ⟨k, hk, hget⟩ | rfl
  · refine ⟨k, by rw [hj.active]; omega, ?_⟩
    rw [hj.get k (Nat.le_of_lt hk), if_neg (by omega), hget]
  · refine ⟨f.active, by rw [hj.active]; omega, ?_⟩
    rw [hj.get _ (Nat.le_refl _), if_pos rfl]

theorem Joins.isCurrent (hj : f.Joins pipe f') (hx : f.IsCurrent x) : f'.IsCurrent x := by
  refine ⟨by rw [hj.active, hj.current]; exact Nat.lt_succ_of_lt hx.1, ?_⟩
  rw [hj.current, hj.get _ (Nat.le_of_lt hx.1), if_neg (Nat.ne_of_lt hx.1), hx.2]

theorem Joins.current_lt (hj : f.Joins pipe f') (h : f.Ok) :
    f'.current = 0 ∨ f'.current < f'.active := by
  have hlt := h.current_lt
  rw [hj.current, hj.active]
  omega

theorem Ok.joins_attach (h : f.Ok) (pipe : PipeId) : f.Joins pipe (f.attach pipe) where
  active := rfl
  current := rfl
  get k hk := by
    have hle := h.active_le
    have hlen : f.pipes.items.length = f.pipes.size := rfl
    have hlast : (f.pipes.items ++ [pipe])[f.pipes.size]? = some pipe := by simp [size]
    simp only [attach]
    rw [getElem?_swap (by simp; omega) (by simp)]
    simp only [size_pushBack, pushBack_items, Nat.add_sub_cancel]
    rcases Nat.lt_or_ge k f.active with hlt | hge
    · rw [if_neg (by omega), if_neg (by omega), if_neg (by omega),
        List.getElem?_append_left (by omega)]
    obtain rfl : k = f.active := Nat.le_antisymm hk hge
    rw [if_pos rfl, if_pos rfl]
    split
    · rename_i heq
      rw [heq, hlast]
    · rw [hlast]

theorem Ok.attach (h : f.Ok) (hp : pipe ∉ f.pipes.items) : (f.attach pipe).Ok where
  pipes := by
    have hle := h.active_le
    exact (h.pipes.pushBack hp).swap (by simp; omega) (by simp)
  active_le := by
    have hle := h.active_le
    simp only [Fq.attach, size_swap, size_pushBack]
    omega
  current_lt := (h.joins_attach pipe).current_lt h

theorem Ok.mem_attach (h : f.Ok) :
    x ∈ (f.attach pipe).pipes.items ↔ x ∈ f.pipes.items ∨ x = pipe := by
  have hle := h.active_le
  simp only [Fq.attach]
  rw [mem_swap (by simp; omega) (by simp)]
  simp

section Activated

variable (h : f.Ok) (hp : pipe ∈ f.pipes.items) (hidle : ¬ f.IsActive pipe)

include h hp hidle

theorem Ok.active_le_index : f.active ≤ f.pipes.index pipe := by
  rw [h.isActive_iff hp] at hidle
  omega

theorem Ok.joins_activated : f.Joins pipe (f.activated pipe) where
  active := rfl
  current := rfl
  get k hk := by
    have hidx := h.pipes.index_lt hp
    have hle := h.active_le_index hp hidle
    simp only [activated]
    rw [getElem?_swap hidx (by omega), h.pipes.getElem?_index hp]
    split
    · rfl
    · rw [if_neg (by omega)]

theorem Ok.activated : (f.activated pipe).Ok where
  pipes := by
    have hidx := h.pipes.index_lt hp
    have hle := h.active_le_index hp hidle
    exact h.pipes.swap hidx (by omega)
  active_le := by
    have hidx := h.pipes.index_lt hp
    have hle := h.active_le_index hp hidle
    simp only [Fq.activated, size_swap]
    omega
  current_lt := (h.joins_activated hp hidle).current_lt h

theorem Ok.mem_activated : x ∈ (f.activated pipe).pipes.items ↔ x ∈ f.pipes.items := by
  have hidx := h.pipes.index_lt hp
  have hle := h.active_le_index hp hidle
  exact mem_swap hidx (by omega)

end Activated

/-! #### A pipe leaves the active ones -/

/-- The pipe at position `j` leaves; the last active pipe takes its place. -/
structure Leaves (f : Fq) (j : Nat) (f' : Fq) : Prop where
  lt : j < f.active
  active : f'.active = f.active - 1
  current : f'.current = wrap f.current (f.active - 1)
  get : ∀ k < f.active - 1,
    f'.pipes.items[k]? = if k = j then f.pipes.items[f.active - 1]? else f.pipes.items[k]?

theorem Leaves.isActive_iff {j : Nat} (hl : f.Leaves j f') (h : f.Ok) :
    f'.IsActive x ↔ f.IsActive x ∧ f.pipes.items[j]? ≠ some x := by
  have hlt := hl.lt
  constructor
  · intro ⟨k, hk, hget⟩
    rw [hl.active] at hk
    rw [hl.get k hk] at hget
    split at hget
    · refine ⟨⟨_, by omega, hget⟩, fun hj => ?_⟩
      have h1 := h.pipes _ _ hget
      have h2 := h.pipes _ _ hj
      omega
    refine ⟨⟨k, by omega, hget⟩, fun hj => ?_⟩
    have h1 := h.pipes _ _ hget
    have h2 := h.pipes _ _ hj
    omega
  · intro ⟨⟨k, hk, hget⟩, hne⟩
    by_cases hlast : k = f.active - 1
    · have hkj : j ≠ k := by
        rintro rfl
        exact hne hget
      refine ⟨j, by rw [hl.active]; omega, ?_⟩
      rw [hl.get j (by omega), if_pos rfl, ← hlast, hget]
    · refine ⟨k, by rw [hl.active]; omega, ?_⟩
      rw [hl.get k (by omega), if_neg ?_, hget]
      rintro rfl
      exact hne hget

theorem Leaves.current_lt {j : Nat} (hl : f.Leaves j f') (h : f.Ok) :
    f'.current = 0 ∨ f'.current < f'.active := by
  have hlt := h.current_lt
  rw [hl.current, hl.active, wrap]
  split
  · exact .inl rfl
  · omega

/-- The reader keeps its place, unless it reads from the last active pipe and neither that
pipe nor the first leaves. -/
theorem Leaves.isCurrent {j : Nat} (hl : f.Leaves j f') (hx : f.IsCurrent x) (hj : j ≠ f.current)
    (hplace : f.current + 1 = f.active → j = 0) : f'.IsCurrent x := by
  have hlt := hx.1
  unfold IsCurrent
  rw [hl.current, hl.active, wrap]
  split
  · rename_i hlast
    obtain rfl := hplace (by omega)
    refine ⟨by omega, ?_⟩
    rw [hl.get 0 (by omega), if_pos rfl, ← hlast, hx.2]
  · refine ⟨by omega, ?_⟩
    rw [hl.get _ (by omega), if_neg hj.symm, hx.2]

theorem Ok.leaves_deactivate (h : f.Ok) (ha : f.active ≠ 0) : f.Leaves f.current f.deactivate where
  lt := by
    have hlt := h.current_lt
    omega
  active := rfl
  current := rfl
  get k hk := by
    have hlt := h.current_lt
    have hle := h.active_le
    simp only [deactivate]
    rw [getElem?_swap (by omega) (by omega), if_neg (by omega)]

theorem Ok.deactivate (h : f.Ok) (ha : f.active ≠ 0) : f.deactivate.Ok where
  pipes := by
    have hlt := h.current_lt
    have hle := h.active_le
    exact h.pipes.swap (by omega) (by omega)
  active_le := by
    have hle := h.active_le
    simp only [Fq.deactivate, size_swap]
    omega
  current_lt := (h.leaves_deactivate ha).current_lt h

theorem Ok.mem_deactivate (h : f.Ok) (ha : f.active ≠ 0) :
    x ∈ f.deactivate.pipes.items ↔ x ∈ f.pipes.items := by
  have hlt := h.current_lt
  have hle := h.active_le
  exact mem_swap (by omega) (by omega)

theorem Ok.fetched (h : f.Ok) (hp : f.IsCurrent pipe) (m : Msg) : (f.fetched m).Ok where
  pipes := h.pipes
  active_le := h.active_le
  current_lt := by
    have hlt := hp.1
    simp only [Fq.fetched]
    split
    · exact .inr hlt
    · exact .inr (Nat.mod_lt _ (by omega))

/-! #### Removing a pipe -/

section Terminated

variable (h : f.Ok) (hp : pipe ∈ f.pipes.items)

include h hp

theorem Ok.mem_pipeTerminated :
    x ∈ (f.pipeTerminated pipe).pipes.items ↔ x ∈ f.pipes.items ∧ x ≠ pipe := by
  have hle := h.active_le
  simp only [pipeTerminated]
  split
  · exact (h.pipes.swap_erase hp (by omega)).2.2.1 x
  · exact h.pipes.mem_erase hp

theorem Ok.leaves_pipeTerminated (hlt : f.pipes.index pipe < f.active) :
    f.Leaves (f.pipes.index pipe) (f.pipeTerminated pipe) := by
  have hle := h.active_le
  simp only [pipeTerminated, if_pos hlt]
  exact ⟨hlt, rfl, rfl, (h.pipes.swap_erase hp (by omega)).2.2.2⟩

/-- A pipe behind the active ones leaves them where they are. -/
theorem Ok.getElem?_pipeTerminated (hge : ¬ f.pipes.index pipe < f.active) {k : Nat}
    (hk : k < f.active) : (f.pipeTerminated pipe).pipes.items[k]? = f.pipes.items[k]? := by
  have hidx := h.pipes.index_lt hp
  simp only [pipeTerminated, if_neg hge]
  rw [h.pipes.getElem?_erase hp, if_pos (by omega), if_neg (by omega)]

theorem Ok.pipeTerminated : (f.pipeTerminated pipe).Ok := by
  have hle := h.active_le
  have hidx := h.pipes.index_lt hp
  by_cases hlt : f.pipes.index pipe < f.active
  · have hse := h.pipes.swap_erase hp (show f.active - 1 < f.pipes.size by omega)
    refine ⟨?_, ?_, (h.leaves_pipeTerminated hp hlt).current_lt h⟩
    · simp only [Fq.pipeTerminated, if_pos hlt]
      exact hse.1
    · simp only [Fq.pipeTerminated, if_pos hlt, hse.2.1]
      omega
  · simp only [Fq.pipeTerminated, if_neg hlt]
    refine ⟨h.pipes.erase hp, ?_, h.current_lt⟩
    show f.active ≤ (f.pipes.erase pipe).size
    rw [h.pipes.size_erase hp]
    omega

theorem Ok.isActive_pipeTerminated :
    (f.pipeTerminated pipe).IsActive x ↔ f.IsActive x ∧ x ≠ pipe := by
  have hget := h.pipes.getElem?_index hp
  by_cases hlt : f.pipes.index pipe < f.active
  · rw [(h.leaves_pipeTerminated hp hlt).isActive_iff h, hget]
    simp only [ne_eq, Option.some.injEq, eq_comm]
  have hactive : (f.pipeTerminated pipe).active = f.active := by
    simp only [Fq.pipeTerminated, if_neg hlt]
  constructor
  · intro ⟨k, hk, hx⟩
    rw [hactive] at hk
    rw [h.getElem?_pipeTerminated hp hlt hk] at hx
    refine ⟨⟨k, hk, hx⟩, ?_⟩
    rintro rfl
    rw [h.pipes k x hx] at hlt
    exact hlt hk
  · intro ⟨⟨k, hk, hx⟩, _⟩
    exact ⟨k, by rw [hactive]; exact hk, by rw [h.getElem?_pipeTerminated hp hlt hk, hx]⟩

/-- The reader keeps its place when another pipe goes, unless it is redirected. -/
theorem Ok.isCurrent_pipeTerminated (hx : f.IsCurrent x) (hne : x ≠ pipe)
    (hplace : ¬ f.Redirects pipe) : (f.pipeTerminated pipe).IsCurrent x := by
  have hget := h.pipes.getElem?_index hp
  by_cases hlt : f.pipes.index pipe < f.active
  · have hidx : f.pipes.index pipe ≠ f.current := by
      intro heq
      rw [heq, hx.2] at hget
      exact hne (Option.some.inj hget)
    refine (h.leaves_pipeTerminated hp hlt).isCurrent hx hidx fun hlast => ?_
    unfold Redirects at hplace
    omega
  · have heq : (f.pipeTerminated pipe).active = f.active ∧
        (f.pipeTerminated pipe).current = f.current := by
      simp only [Fq.pipeTerminated, if_neg hlt, and_self]
    unfold IsCurrent
    rw [heq.1, heq.2, h.getElem?_pipeTerminated hp hlt hx.1]
    exact hx

end Terminated

end Fq

/-! ### Receiving -/

namespace FairQueue

/-- Active pipes are awake, and the pipes hold whole messages. -/
structure Ok (b : FairQueue) : Prop where
  fq : b.fq.Ok
  awake : ∀ p, b.fq.IsActive p → (b.pipes p).inActive = true
  framed : ∀ p, (b.pipes p).Ok

/-- A part was taken from a pipe. -/
structure Took (b : FairQueue) (p : PipeId) (m : Msg) (b' : FairQueue) : Prop where
  ok : b'.Ok
  active : b.fq.IsActive p
  read : (b.pipes p).read = (some m, b'.pipes p)
  skipped : ∀ q, q ≠ p → (b.pipes q).Skips (b'.pipes q)
  mem : ∀ q, q ∈ b'.fq.pipes.items ↔ q ∈ b.fq.pipes.items
  more : b'.fq.more = m.more
  /-- In the middle of a message the pipe was the current one. -/
  current : b.fq.more = true → b.fq.IsCurrent p
  holds : m.more = true → b'.fq.IsCurrent p

/-- There was nothing to take. -/
structure Found (b : FairQueue) (b' : FairQueue) : Prop where
  ok : b'.Ok
  skipped : ∀ q, (b.pipes q).Skips (b'.pipes q)
  mem : ∀ q, q ∈ b'.fq.pipes.items ↔ q ∈ b.fq.pipes.items
  more : b'.fq.more = b.fq.more
  none : b'.fq.active = 0

variable {b b' : FairQueue} {p : PipeId} {m : Msg} {i : Inlet}

theorem empty_ok : empty.Ok where
  fq := Fq.empty_ok
  awake _ _ := rfl
  framed _ := rfl

/-- The round that reads from the current pipe, whatever becomes of the array. -/
theorem Ok.update (h : b.Ok) {fq : Fq} (hfq : fq.Ok) (hi : i.Ok)
    (hactive : ∀ q, fq.IsActive q → b.fq.IsActive q ∧ (q = p → i.inActive = true)) :
    Ok ⟨fq, update b.pipes p i⟩ where
  fq := hfq
  awake := by
    rw [forall_update_iff b.pipes fun q i => fq.IsActive q → i.inActive = true]
    exact ⟨fun hp => (hactive p hp).2 rfl, fun q _ hq => h.awake q (hactive q hq).1⟩
  framed := by
    rw [forall_update_iff b.pipes fun _ i => i.Ok]
    exact ⟨hi, fun q _ => h.framed q⟩

/-- The round that takes a part. -/
theorem Ok.took_fetched (h : b.Ok) (hp : b.fq.IsCurrent p) (hr : (b.pipes p).read = (some m, i)) :
    b.Took p m ⟨b.fq.fetched m, Function.update b.pipes p i⟩ where
  ok := by
    have hi := (h.framed p).read_some hr
    obtain ⟨ha, -, -, rest, -, rfl⟩ := Inlet.read_eq_some hr
    exact h.update (h.fq.fetched hp m) hi fun q hq => ⟨hq, fun _ => ha⟩
  active := hp.isActive
  read := by simp [hr]
  skipped q hq := by simp [Function.update_of_ne hq, Inlet.Skips]
  mem q := Iff.rfl
  more := rfl
  current _ := hp
  holds hm := by
    simp only [Fq.IsCurrent, Fq.fetched, hm, if_true]
    exact hp

/-- The round that finds nothing to take. -/
theorem Ok.deactivate (h : b.Ok) (hp : b.fq.IsCurrent p) (hi : i.Ok) :
    Ok ⟨b.fq.deactivate, Function.update b.pipes p i⟩ := by
  have ha : b.fq.active ≠ 0 := Nat.ne_of_gt (Nat.zero_lt_of_lt hp.1)
  refine h.update (h.fq.deactivate ha) hi fun q hq => ?_
  rw [(h.fq.leaves_deactivate ha).isActive_iff h.fq, hp.2] at hq
  exact ⟨hq.1, fun heq => absurd (by rw [heq]) hq.2⟩

/-- The pipes the array lists after such a round. -/
theorem Ok.mem_deactivated (h : b.Ok) (hp : b.fq.IsCurrent p) (q : PipeId) :
    q ∈ b.fq.deactivate.pipes.items ↔ q ∈ b.fq.pipes.items :=
  h.fq.mem_deactivate (Nat.ne_of_gt (Nat.zero_lt_of_lt hp.1))

theorem skips_update (hr : (b.pipes p).read = (none, i)) (q : PipeId) :
    (b.pipes q).Skips (update b.pipes p i q) := by
  by_cases hq : q = p
  · subst hq
    rw [update_self]
    exact .inr hr
  · rw [update_of_ne hq]
    exact .inl rfl

/-- A pipe was passed over before a part was taken. -/
theorem Ok.took_next (h : b.Ok) (hp : b.fq.IsCurrent p) (hr : (b.pipes p).read = (none, i))
    (hm : b.fq.more = false) {q : PipeId}
    (ht : Took ⟨b.fq.deactivate, Function.update b.pipes p i⟩ q m b') : b.Took q m b' := by
  have ha : b.fq.active ≠ 0 := Nat.ne_of_gt (Nat.zero_lt_of_lt hp.1)
  have hactive := ht.active
  rw [(h.fq.leaves_deactivate ha).isActive_iff h.fq, hp.2] at hactive
  have hqp : q ≠ p := fun heq => hactive.2 (by rw [heq])
  have hread : (Function.update b.pipes p i q).read = (some m, b'.pipes q) := ht.read
  rw [Function.update_of_ne hqp] at hread
  exact {
    ok := ht.ok
    active := hactive.1
    read := hread
    skipped := fun q' hq' => (skips_update hr q').trans (ht.skipped q' hq')
    mem := fun q' => (ht.mem q').trans (h.mem_deactivated hp q')
    more := ht.more
    current := fun hmore => absurd hmore (by simp [hm])
    holds := ht.holds }

theorem Ok.found_next (h : b.Ok) (hp : b.fq.IsCurrent p) (hr : (b.pipes p).read = (none, i))
    (hf : Found ⟨b.fq.deactivate, Function.update b.pipes p i⟩ b') : b.Found b' where
  ok := hf.ok
  skipped q := (skips_update hr q).trans (hf.skipped q)
  mem q := (hf.mem q).trans (h.mem_deactivated hp q)
  more := hf.more
  none := hf.none

theorem recvLoop_succ (fuel : Nat) (hp : b.fq.IsCurrent p) :
    recvLoop (fuel + 1) b =
      match (b.pipes p).read with
      | (some m, i) => .ok (some (p, m), ⟨b.fq.fetched m, update b.pipes p i⟩)
      | (none, i) =>
        if b.fq.more then .error .fqAtomicity
        else recvLoop fuel ⟨b.fq.deactivate, update b.pipes p i⟩ := by
  have ha : b.fq.active ≠ 0 := Nat.ne_of_gt (Nat.zero_lt_of_lt hp.1)
  rw [recvLoop, if_neg ha, hp.2]

theorem recvLoop_spec : ∀ (fuel : Nat) {b : FairQueue}, b.Ok → b.fq.active ≤ fuel →
    (∃ p m b', recvLoop fuel b = .ok (some (p, m), b') ∧ b.Took p m b') ∨
    (∃ b', recvLoop fuel b = .ok (none, b') ∧ b.Found b' ∧ (b.fq.more = true → b.fq.active = 0)) ∨
    (recvLoop fuel b = .error .fqAtomicity ∧ b.fq.more = true ∧
      ∃ p i, b.fq.IsCurrent p ∧ (b.pipes p).read = (none, i))
  | 0, b, h, hf => by
      have ha : b.fq.active = 0 := Nat.le_zero.mp hf
      exact .inr (.inl ⟨b, rfl, ⟨h, fun _ => .inl rfl, fun _ => Iff.rfl, rfl, ha⟩, fun _ => ha⟩)
  | fuel + 1, b, h, hf => by
      by_cases ha : b.fq.active = 0
      · rw [recvLoop, if_pos ha]
        exact .inr (.inl ⟨b, rfl, ⟨h, fun _ => .inl rfl, fun _ => Iff.rfl, rfl, ha⟩, fun _ => ha⟩)
      obtain ⟨p, hp⟩ := h.fq.exists_current ha
      rw [recvLoop_succ fuel hp]
      cases hr : (b.pipes p).read with
      | mk r i =>
        cases r with
        | some m => exact .inl ⟨p, m, _, rfl, h.took_fetched hp hr⟩
        | none =>
          cases hm : b.fq.more with
          | true => exact .inr (.inr ⟨rfl, rfl, p, i, hp, hr⟩)
          | false =>
            simp only [Bool.false_eq_true, if_false, false_implies, and_true]
            have h1 := h.deactivate hp ((h.framed p).read_none hr)
            have hfuel : b.fq.deactivate.active ≤ fuel := Nat.sub_le_of_le_add hf
            rcases recvLoop_spec fuel h1 hfuel with
              ⟨q, m, b', heq, ht⟩ | ⟨b', heq, hfd, -⟩ | ⟨-, hmore, -⟩
            · exact .inl ⟨q, m, b', heq, h.took_next hp hr hm ht⟩
            · exact .inr (.inl ⟨b', heq, h.found_next hp hr hfd⟩)
            · exact absurd hmore (by simp [Fq.deactivate, hm])

theorem Ok.recvpipe (h : b.Ok) :
    (∃ p m b', b.recvpipe = .ok (some (p, m), b') ∧ b.Took p m b') ∨
    (∃ b', b.recvpipe = .ok (none, b') ∧ b.Found b' ∧ (b.fq.more = true → b.fq.active = 0)) ∨
    (b.recvpipe = .error .fqAtomicity ∧ b.fq.more = true ∧
      ∃ p i, b.fq.IsCurrent p ∧ (b.pipes p).read = (none, i)) :=
  recvLoop_spec _ h (Nat.le_refl _)

/-! ### Asking -/

/-- Pipes were asked for something to read. -/
structure Looked (b b' : FairQueue) : Prop where
  ok : b'.Ok
  skipped : ∀ q, (b.pipes q).Skips (b'.pipes q)
  mem : ∀ q, q ∈ b'.fq.pipes.items ↔ q ∈ b.fq.pipes.items
  more : b'.fq.more = b.fq.more

theorem Ok.looked (h : b.Ok) : b.Looked b := ⟨h, fun _ => .inl rfl, fun _ => Iff.rfl, rfl⟩

theorem hasInLoop_spec : ∀ (fuel : Nat) {b : FairQueue}, b.Ok →
    ∃ r b', hasInLoop fuel b = .ok (r, b') ∧ b.Looked b'
  | 0, b, h => ⟨false, b, rfl, h.looked⟩
  | fuel + 1, b, h => by
      by_cases ha : b.fq.active = 0
      · exact ⟨false, b, by rw [hasInLoop, if_pos ha], h.looked⟩
      obtain ⟨p, hp⟩ := h.fq.exists_current ha
      rw [hasInLoop, if_neg ha, hp.2]
      dsimp only
      rw [Inlet.checkRead_eq]
      cases hr : (b.pipes p).read with
      | mk r i =>
        cases r with
        | some m =>
          refine ⟨true, b, ?_, h.looked⟩
          simp [Function.update_eq_self]
        | none =>
          have h1 := h.deactivate hp ((h.framed p).read_none hr)
          obtain ⟨r, b', heq, hl⟩ := hasInLoop_spec fuel h1
          refine ⟨r, b', heq, hl.ok, fun q => ?_, fun q => ?_, hl.more⟩
          · exact (skips_update hr q).trans (hl.skipped q)
          · exact (hl.mem q).trans (h.mem_deactivated hp q)

/-- In the middle of a message `has_in` does not move. -/
theorem Ok.hasIn (h : b.Ok) :
    ∃ r b', b.hasIn = .ok (r, b') ∧ b.Looked b' ∧ (b.fq.more = true → b' = b) := by
  unfold FairQueue.hasIn
  cases hm : b.fq.more with
  | true => exact ⟨true, b, rfl, h.looked, fun _ => rfl⟩
  | false =>
    obtain ⟨r, b', heq, hl⟩ := hasInLoop_spec b.fq.active h
    exact ⟨r, b', heq, hl, nofun⟩

/-! ### What happens between receives -/

theorem Ok.attach (h : b.Ok) (hp : p ∉ b.fq.pipes.items) (ha : i.inActive = true) (hi : i.Ok) :
    (b.attach p i).Ok where
  fq := h.fq.attach hp
  awake := by
    rw [FairQueue.attach, forall_update_iff b.pipes
      fun q i => (b.fq.attach p).IsActive q → i.inActive = true]
    refine ⟨fun _ => ha, fun q hq hact => ?_⟩
    rw [(h.fq.joins_attach p).isActive_iff] at hact
    exact h.awake q (hact.resolve_right hq)
  framed := by
    rw [FairQueue.attach, forall_update_iff b.pipes fun _ i => i.Ok]
    exact ⟨hi, fun q _ => h.framed q⟩

theorem Ok.modify (h : b.Ok) {f : Inlet → Inlet}
    (ha : (f (b.pipes p)).inActive = (b.pipes p).inActive) (hi : (f (b.pipes p)).Ok) :
    (b.modify p f).Ok :=
  h.update h.fq hi fun q hq => ⟨hq, fun heq => by rw [ha, ← heq]; exact h.awake q hq⟩

theorem Ok.not_isActive (h : b.Ok)
    (hcond : (!(b.pipes p).inActive && (b.pipes p).reading) = true) : ¬ b.fq.IsActive p := by
  intro hact
  simp [h.awake p hact] at hcond

theorem Ok.activateRead (h : b.Ok) (hp : p ∈ b.fq.pipes.items) : (b.activateRead p).Ok := by
  unfold FairQueue.activateRead
  split
  · rename_i hcond
    have hidle := h.not_isActive hcond
    refine ⟨h.fq.activated hp hidle, ?_, ?_⟩
    · rw [forall_update_iff b.pipes fun q i => (b.fq.activated p).IsActive q → i.inActive = true]
      refine ⟨fun _ => rfl, fun q hq hact => ?_⟩
      rw [(h.fq.joins_activated hp hidle).isActive_iff] at hact
      exact h.awake q (hact.resolve_right hq)
    · rw [forall_update_iff b.pipes fun _ i => i.Ok]
      exact ⟨h.framed p, fun q _ => h.framed q⟩
  · exact h

theorem Ok.mem_activateRead (h : b.Ok) (hp : p ∈ b.fq.pipes.items) {q : PipeId} :
    q ∈ (b.activateRead p).fq.pipes.items ↔ q ∈ b.fq.pipes.items := by
  unfold FairQueue.activateRead
  split
  · rename_i hcond
    exact h.fq.mem_activated hp (h.not_isActive hcond)
  · rfl

theorem Ok.isCurrent_activateRead (h : b.Ok) (hp : p ∈ b.fq.pipes.items) {q : PipeId}
    (hq : b.fq.IsCurrent q) : (b.activateRead p).fq.IsCurrent q := by
  unfold FairQueue.activateRead
  split
  · rename_i hcond
    exact (h.fq.joins_activated hp (h.not_isActive hcond)).isCurrent hq
  · exact hq

theorem activateRead_pipes (b : FairQueue) (p q : PipeId) :
    ∃ inActive, (b.activateRead p).pipes q = { b.pipes q with inActive } := by
  unfold FairQueue.activateRead
  split
  · by_cases hq : q = p
    · subst hq
      exact ⟨true, by simp⟩
    · exact ⟨(b.pipes q).inActive, by simp [update_of_ne hq]⟩
  · exact ⟨(b.pipes q).inActive, rfl⟩

theorem activateRead_reading (p q : PipeId)
    (h : ((b.activateRead p).pipes q).reading = true) : (b.pipes q).reading = true := by
  obtain ⟨inActive, heq⟩ := b.activateRead_pipes p q
  rw [heq] at h
  exact h

theorem activateRead_more (b : FairQueue) (p : PipeId) :
    (b.activateRead p).fq.more = b.fq.more := by
  unfold FairQueue.activateRead
  split <;> rfl

theorem Ok.pipeTerminated (h : b.Ok) (hp : p ∈ b.fq.pipes.items) : (b.pipeTerminated p).Ok where
  fq := h.fq.pipeTerminated hp
  awake q hq := h.awake q ((h.fq.isActive_pipeTerminated hp).mp hq).1
  framed := h.framed

end FairQueue

end ServerLink

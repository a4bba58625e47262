import Mathlib.Logic.Function.Basic
import ServerLink.Core.Array
import ServerLink.Msg.Msg
import ServerLink.Pipe.MTrie

/-!
# ServerLink.Pipe.Dist

The distributor of outbound messages (`dist.cpp`). The array of pipes is cut by three
counters: the first `matching` pipes get the message at hand, the first `active` ones can
be written to, the first `eligible` ones can be once the message at hand is finished, and
a write to the others has failed.

The distributor works on any kind of write ends (`WriteEnd`). An `Outlet` is the simplest
one: what has been written and not flushed, what has been flushed so far, and how many
messages `check_write` still lets pass. The reference counts of the contents are not part of this
module.
-/

namespace ServerLink

open List Function

/-- The write end of a pipe, as the distributor uses it. -/
class WriteEnd (ω : Type) where
  /-- `pipe_t::write`: false if the message is refused. -/
  write : ω → Msg → ω × Bool
  /-- `pipe_t::flush`. -/
  flush : ω → ω

/-- A write end with room for a number of messages, or without a limit. -/
structure Outlet where
  room : Option Nat
  sent : List Msg
  unflushed : List Msg

namespace Outlet

def new (room : Option Nat) : Outlet := ⟨room, [], []⟩

/-- `check_write` refuses messages. -/
def full (o : Outlet) : Bool := o.room == some 0

/-- `pipe_t::write`. -/
def write (o : Outlet) (msg : Msg) : Option Outlet :=
  if o.full then none
  else some { o with room := o.room.map (· - 1), unflushed := o.unflushed ++ [msg] }

/-- `pipe_t::flush`. -/
def flush (o : Outlet) : Outlet := { o with sent := o.sent ++ o.unflushed, unflushed := [] }

/-- A message has been written and flushed. -/
def put (o : Outlet) (msg : Msg) : Outlet :=
  { room := o.room.map (· - 1), sent := o.sent ++ (o.unflushed ++ [msg]), unflushed := [] }

theorem full_of_none {o : Outlet} (h : o.room = none) : o.full = false := by
  rw [full, h]
  rfl

theorem write_of_room {o : Outlet} (h : o.full = false) (msg : Msg) :
    o.write msg =
      some { o with room := o.room.map (· - 1), unflushed := o.unflushed ++ [msg] } := by
  simp [write, h]

instance : WriteEnd Outlet where
  write o msg :=
    match o.write msg with
    | none => (o, false)
    | some o => (o, true)
  flush := flush

end Outlet

abbrev Outlets := PipeId → Outlet

/-- `dist_t`. -/
structure Dist where
  pipes : ArrayT PipeId
  matching : Nat
  active : Nat
  eligible : Nat
  more : Bool

namespace Dist

def empty : Dist := ⟨ArrayT.empty, 0, 0, 0, false⟩

def attach (d : Dist) (pipe : PipeId) : Dist :=
  let pipes := d.pipes.pushBack pipe
  if d.more then
    { d with pipes := pipes.swap d.eligible (pipes.size - 1), eligible := d.eligible + 1 }
  else
    { d with
      pipes := pipes.swap d.active (pipes.size - 1)
      active := d.active + 1
      eligible := d.eligible + 1 }

def hasPipe (d : Dist) (pipe : PipeId) : Bool :=
  d.pipes.items[d.pipes.index pipe]? == some pipe

/-- `match`. -/
def matchPipe (d : Dist) (pipe : PipeId) : Dist :=
  if d.pipes.index pipe < d.matching then d
  else if d.eligible ≤ d.pipes.index pipe then d
  else
    { d with
      pipes := d.pipes.swap (d.pipes.index pipe) d.matching
      matching := d.matching + 1 }

def unmatch (d : Dist) : Dist := { d with matching := 0 }

/-- The pipe is moved behind the first `n` pipes if it is one of them. -/
def moveOut (pipes : ArrayT PipeId) (pipe : PipeId) (n : Nat) : ArrayT PipeId × Nat :=
  if pipes.index pipe < n then (pipes.swap (pipes.index pipe) (n - 1), n - 1) else (pipes, n)

def pipeTerminated (d : Dist) (pipe : PipeId) : Dist :=
  let (pipes, matching) := moveOut d.pipes pipe d.matching
  let (pipes, active) := moveOut pipes pipe d.active
  let (pipes, eligible) := moveOut pipes pipe d.eligible
  { d with pipes := pipes.erase pipe, matching, active, eligible }

def activated (d : Dist) (pipe : PipeId) : Dist :=
  let d :=
    if d.eligible < d.pipes.size then
      { d with
        pipes := d.pipes.swap (d.pipes.index pipe) d.eligible
        eligible := d.eligible + 1 }
    else d
  if d.more = false ∧ d.active < d.pipes.size then
    { d with pipes := d.pipes.swap (d.eligible - 1) d.active, active := d.active + 1 }
  else d

/-- The loop of `reverse_match`, from position `i` on. -/
def reverseLoop : Nat → Nat → Dist → Dist
  | 0, _, d => d
  | fuel + 1, i, d =>
    if i < d.eligible then
      reverseLoop fuel (i + 1) { d with
        pipes := d.pipes.swap i d.matching
        matching := d.matching + 1 }
    else d

def reverseMatch (d : Dist) : Dist := reverseLoop d.eligible d.matching d.unmatch

/-- A matching pipe that refused a message is moved behind the eligible ones. -/
def passivate (d : Dist) (pipe : PipeId) : Dist :=
  let pipes := d.pipes.swap (d.pipes.index pipe) (d.matching - 1)
  let pipes := pipes.swap (pipes.index pipe) (d.active - 1)
  { d with
    pipes := pipes.swap (d.active - 1) (d.eligible - 1)
    matching := d.matching - 1
    active := d.active - 1
    eligible := d.eligible - 1 }

section Write

variable {ω : Type} [WriteEnd ω]

/-- `write`: false if the pipe refuses the message. -/
def write (d : Dist) (outs : PipeId → ω) (pipe : PipeId) (msg : Msg) : Dist × (PipeId → ω) × Bool :=
  match WriteEnd.write (outs pipe) msg with
  | (o, false) => (d.passivate pipe, update outs pipe o, false)
  | (o, true) => (d, update outs pipe (if msg.more then o else WriteEnd.flush o), true)

/-- The loop of `distribute`, from position `i` on. A round goes on to the next position
or shortens the list of matching pipes. -/
def distributeLoop (msg : Msg) : Nat → Nat → Dist → (PipeId → ω) → Dist × (PipeId → ω)
  | 0, _, d, outs => (d, outs)
  | fuel + 1, i, d, outs =>
    if i < d.matching then
      match d.pipes.items[i]? with
      | none => (d, outs)
      | some pipe =>
        match d.write outs pipe msg with
        | (d, outs, false) => distributeLoop msg fuel i d outs
        | (d, outs, true) => distributeLoop msg fuel (i + 1) d outs
    else (d, outs)

def distribute (d : Dist) (outs : PipeId → ω) (msg : Msg) : Dist × (PipeId → ω) :=
  distributeLoop msg d.matching 0 d outs

def sendToMatching (d : Dist) (outs : PipeId → ω) (msg : Msg) : Dist × (PipeId → ω) :=
  let (d, outs) := d.distribute outs msg
  ({ d with active := if msg.more then d.active else d.eligible, more := msg.more }, outs)

def sendToAll (d : Dist) (outs : PipeId → ω) (msg : Msg) : Dist × (PipeId → ω) :=
  { d with matching := d.active }.sendToMatching outs msg

end Write

/-! ### A distributor whose pipes are all active -/

/-- Every pipe can be written to, and no message is being sent. -/
structure AllActive (d : Dist) : Prop where
  pipes : d.pipes.Ok
  matching : d.matching ≤ d.pipes.size
  active : d.active = d.pipes.size
  eligible : d.eligible = d.pipes.size
  more : d.more = false

theorem empty_allActive : empty.AllActive :=
  ⟨ArrayT.empty_ok, Nat.le_refl _, rfl, rfl, rfl⟩

variable {d : Dist}

theorem AllActive.attach (h : d.AllActive) {pipe : PipeId} (hp : pipe ∉ d.pipes.items) :
    (d.attach pipe).AllActive ∧ (d.attach pipe).pipes.items = d.pipes.items ++ [pipe] := by
  unfold Dist.attach
  rw [h.more, if_neg Bool.false_ne_true]
  have hlast : d.active = (d.pipes.pushBack pipe).size - 1 := by
    rw [h.active, ArrayT.size_pushBack, Nat.add_sub_cancel]
  have hlt : d.active < (d.pipes.pushBack pipe).size := by
    rw [ArrayT.size_pushBack, h.active]
    exact Nat.lt_succ_self _
  refine ⟨⟨?_, ?_, ?_, ?_, rfl⟩, ?_⟩
  · exact (h.pipes.pushBack hp).swap hlt (hlast ▸ hlt)
  · simpa using Nat.le_succ_of_le h.matching
  · simp [h.active]
  · simp [h.eligible]
  · dsimp only
    rw [← hlast, ArrayT.swap_self, ArrayT.pushBack_items]

theorem moveOut_spec {pipes : ArrayT PipeId} (h : pipes.Ok) {pipe : PipeId}
    (hp : pipe ∈ pipes.items) {n : Nat} (hn : n ≤ pipes.size) :
    (moveOut pipes pipe n).1.Ok ∧ (moveOut pipes pipe n).1.size = pipes.size ∧
      (∀ q, q ∈ (moveOut pipes pipe n).1.items ↔ q ∈ pipes.items) ∧
      (moveOut pipes pipe n).2 ≤ n ∧ (n = pipes.size → (moveOut pipes pipe n).2 = n - 1) := by
  have hlt := h.index_lt hp
  unfold moveOut
  by_cases hin : pipes.index pipe < n
  · rw [if_pos hin]
    have hn' : n - 1 < pipes.size := by omega
    exact ⟨h.swap hlt hn', by simp, fun q => ArrayT.mem_swap hlt hn', Nat.sub_le _ _, fun _ => rfl⟩
  · rw [if_neg hin]
    exact ⟨h, rfl, fun _ => Iff.rfl, Nat.le_refl _, fun heq => by omega⟩

theorem AllActive.pipeTerminated (h : d.AllActive) {pipe : PipeId} (hp : pipe ∈ d.pipes.items) :
    (d.pipeTerminated pipe).AllActive ∧
      ∀ q, q ∈ (d.pipeTerminated pipe).pipes.items ↔ q ∈ d.pipes.items ∧ q ≠ pipe := by
  obtain ⟨ok1, size1, mem1, le1, -⟩ := moveOut_spec h.pipes hp h.matching
  have hp1 := (mem1 pipe).mpr hp
  obtain ⟨ok2, size2, mem2, -, eq2⟩ := moveOut_spec ok1 hp1 (h.active.trans size1.symm).le
  have hp2 := (mem2 pipe).mpr hp1
  obtain ⟨ok3, size3, mem3, -, eq3⟩ :=
    moveOut_spec ok2 hp2 (h.eligible.trans (size1.symm.trans size2.symm)).le
  have hp3 := (mem3 pipe).mpr hp2
  have hsize := ok3.size_erase hp3
  have hmatch : (moveOut d.pipes pipe d.matching).2 ≤ d.pipes.size - 1 := by
    have hlt := h.pipes.index_lt hp
    unfold moveOut
    split
    · have := h.matching
      omega
    · dsimp only
      omega
  unfold Dist.pipeTerminated
  dsimp only
  refine ⟨⟨ok3.erase hp3, ?_, ?_, ?_, h.more⟩, fun q => ?_⟩
  · rw [hsize, size3, size2, size1]
    exact hmatch
  · rw [hsize, size3, size2, size1, eq2 (h.active.trans size1.symm), h.active]
  · rw [hsize, size3, size2, size1, eq3 (h.eligible.trans (size1.symm.trans size2.symm)),
      h.eligible]
  · rw [ok3.mem_erase hp3, mem3, mem2, mem1]

/-- From position `i` on every pipe gets the message. -/
theorem distributeLoop_spec {msg : Msg} (hmore : msg.more = false) (hp : d.pipes.Ok)
    (hall : d.matching = d.pipes.size) :
    ∀ (fuel i : Nat) (outs : Outlets), d.pipes.size ≤ i + fuel →
      (∀ p ∈ d.pipes.items.drop i, (outs p).full = false) →
      distributeLoop msg fuel i d outs = (d, fun p =>
        if p ∈ d.pipes.items.drop i then (outs p).put msg else outs p) := by
  intro fuel
  induction fuel with
  | zero =>
    intro i outs hi _
    rw [Nat.add_zero] at hi
    rw [drop_eq_nil_of_le hi]
    simp [distributeLoop]
  | succ fuel ih =>
    intro i outs hi hfull
    rw [distributeLoop, hall]
    by_cases hlt : i < d.pipes.size
    · rw [if_pos hlt]
      have hdrop := drop_eq_getElem_cons hlt
      generalize hpipe : d.pipes.items[i] = pipe at hdrop
      rw [hdrop] at hfull
      have hnodup : pipe ∉ d.pipes.items.drop (i + 1) := by
        have := hp.nodup.sublist (drop_sublist i d.pipes.items)
        rw [hdrop] at this
        exact (nodup_cons.mp this).1
      have hroom := hfull pipe mem_cons_self
      rw [getElem?_eq_getElem hlt, hpipe]
      simp only [write, WriteEnd.write, WriteEnd.flush, Outlet.write_of_room hroom, hmore,
        Bool.false_eq_true, if_false]
      rw [ih (i + 1) _ (by omega)]
      · refine Prod.ext rfl (funext fun p => ?_)
        simp only [hdrop, mem_cons]
        by_cases heq : p = pipe
        · subst heq
          rw [if_neg hnodup, update_self, if_pos (Or.inl rfl)]
          rfl
        · rw [update_of_ne heq]
          simp [heq]
      · intro p hmem
        have hne : p ≠ pipe := fun heq => hnodup (heq ▸ hmem)
        rw [update_of_ne hne]
        exact hfull p (mem_cons_of_mem _ hmem)
    · rw [if_neg hlt, drop_eq_nil_of_le (Nat.not_lt.mp hlt)]
      simp

/-- A message that is sent to all pipes, none of them full, reaches every one. -/
theorem AllActive.sendToAll (h : d.AllActive) {outs : Outlets} {msg : Msg}
    (hmore : msg.more = false) (hfull : ∀ p ∈ d.pipes.items, (outs p).full = false) :
    (d.sendToAll outs msg).1.AllActive ∧ (d.sendToAll outs msg).1.pipes = d.pipes ∧
      (d.sendToAll outs msg).2 =
        fun p => if p ∈ d.pipes.items then (outs p).put msg else outs p := by
  have hloop := distributeLoop_spec (d := { d with matching := d.active }) hmore h.pipes
    h.active d.active 0 outs (by simp [h.active]) (by simpa using hfull)
  rw [drop_zero] at hloop
  unfold Dist.sendToAll Dist.sendToMatching Dist.distribute
  simp only [hloop, hmore]
  exact ⟨⟨h.pipes, h.active.le, by simp [h.eligible], h.eligible, rfl⟩, trivial, trivial⟩

end Dist

end ServerLink

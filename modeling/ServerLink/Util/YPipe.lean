import ServerLink.Lib.FlushQueue
import ServerLink.Lib.Mealy

/-!
# ServerLink.Util.YPipe

The lock-free queue under every pipe (`ypipe.hpp`), with one thread that writes and one that
reads. They share the pointer `c` only, so that a call is one step, except for a `flush` that
finds the reader asleep: it looks at `c` and sets it later, and the reader may come in between.
The queue is a `FlushQueue` nevertheless, which is what the pipes are made of.
-/

namespace ServerLink

/-- The calls of the two threads. -/
inductive YPipeOp (α : Type)
  | write (x : α) (incomplete : Bool)
  | unwrite
  | flush
  | checkRead
  | read

/-- The queue holds the items before the terminator. A pointer to an item is the number of items
pushed before it. -/
structure YPipe (α : Type) where
  queue : List α := []
  front : Nat := 0
  w : Nat := 0
  f : Nat := 0
  r : Option Nat := some 0
  c : Option Nat := some 0
  /-- A `flush` could not swap `c` and is going to set it. -/
  setting : Bool := false

namespace YPipe

open FlushQueue Mealy List

variable {α : Type} {p : YPipe α} {q : FlushQueue α}

def back (p : YPipe α) : Nat := p.front + p.queue.length

def write (p : YPipe α) (x : α) (incomplete : Bool) : YPipe α :=
  let p := { p with queue := p.queue ++ [x] }
  if incomplete then p else { p with f := p.back }

def unwrite (p : YPipe α) : Option α × YPipe α :=
  if p.f = p.back then (none, p) else (p.queue.getLast?, { p with queue := p.queue.dropLast })

/-- `c` and `w` are moved to `f`. -/
def publish (p : YPipe α) : YPipe α := { p with c := some p.f, w := p.f, setting := false }

/-- A `flush` that cannot swap `c` has not returned yet. -/
def flush (p : YPipe α) : Option Bool × YPipe α :=
  if p.w = p.f then (some true, p)
  else if p.c = some p.w then (some true, p.publish)
  else (none, { p with setting := true })

def checkRead (p : YPipe α) : Bool × YPipe α :=
  if p.r ≠ some p.front ∧ p.r ≠ none then (true, p)
  else (p.c ≠ some p.front ∧ p.c ≠ none,
    { p with r := p.c, c := if p.c = some p.front then none else p.c })

def read (p : YPipe α) : Option α × YPipe α :=
  let (ok, p) := p.checkRead
  if ok then (p.queue.head?, { p with queue := p.queue.tail, front := p.front + 1 }) else (none, p)

/-- The next step of the thread that makes the call, and the call that returns with it: which
one, the flag, and the item. -/
def step (p : YPipe α) : YPipeOp α → YPipe α × Option (YPipeOp α × Bool × Option α)
  | .checkRead => (p.checkRead.2, some (.checkRead, p.checkRead.1, none))
  | .read => (p.read.2, some (.read, p.read.1.isSome, p.read.1))
  | op =>
    if p.setting then (p.publish, some (.flush, false, none))
    else match op with
    | .write x incomplete => (p.write x incomplete, some (op, true, none))
    | .unwrite => (p.unwrite.2, some (op, p.unwrite.1.isSome, p.unwrite.1))
    | _ => (p.flush.2, p.flush.1.map (op, ·, none))

/-- The same for a `FlushQueue`. -/
def call (q : FlushQueue α) (op : YPipeOp α) :
    FlushQueue α × Option (YPipeOp α × Bool × Option α) :=
  match op with
  | .write x incomplete => (q.write x incomplete, some (op, true, none))
  | .unwrite => ((q.unwrite.map Prod.snd).getD q,
      some (op, q.unwrite.isSome, q.unwrite.map Prod.fst))
  | .flush => (q.flush.2, some (op, q.flush.1, none))
  | .checkRead => (q.checkRead.2, some (op, q.checkRead.1, none))
  | .read => (q.read.2, some (op, q.read.1.isSome, q.read.1))

/-- The pointers cut the queue as the lists of `q` do, and `c` is null while the reader sleeps. -/
structure Refines (p : YPipe α) (q : FlushQueue α) : Prop where
  queue : p.queue = q.items
  w : p.w = p.front + q.flushed.length
  f : p.f = p.w + q.pending.length
  c : p.c = if q.asleep then none else some p.w
  r : ∀ x, p.r = some x → p.front ≤ x ∧ x ≤ p.w
  asleep : q.asleep = true → q.flushed = []
  setting : p.setting = true → q.asleep = true ∧ q.pending ≠ []

theorem Refines.write (h : p.Refines q) (x : α) (incomplete : Bool) :
    (p.write x incomplete).Refines (q.write x incomplete) := by
  have hf := h.f
  have hw := h.w
  cases incomplete with
  | true => exact ⟨by simp [YPipe.write, h.queue], hw, hf, h.c, h.r, h.asleep, h.setting⟩
  | false =>
    refine ⟨by simp [YPipe.write, h.queue], hw, ?_, h.c, h.r, h.asleep, fun hs => ?_⟩
    · simp [YPipe.write, back, h.queue, items, FlushQueue.write]
      omega
    · exact ⟨(h.setting hs).1, by simp [FlushQueue.write]⟩

theorem Refines.unwrite (h : p.Refines q) : p.unwrite.1 = q.unwrite.map Prod.fst ∧
      p.unwrite.2.Refines ((q.unwrite.map Prod.snd).getD q) := by
  have hback : p.back = p.f + q.incomplete.length := by
    simp [back, h.queue, h.f, h.w, items, Nat.add_assoc]
  unfold YPipe.unwrite FlushQueue.unwrite
  rcases eq_nil_or_concat q.incomplete with hi | ⟨xs, x, hi⟩
  · rw [if_pos (by simp [hback, hi]), hi]
    exact ⟨rfl, h⟩
  · rw [if_neg (by simp [hback, hi]), h.queue, hi, concat_eq_append, getLast?_concat]
    exact ⟨by simp [items, hi], by simp [items, hi, ← append_assoc], h.w, h.f, h.c, h.r,
      h.asleep, h.setting⟩

theorem Refines.publish (h : p.Refines q) (hp : q.pending ≠ []) :
    q.flush.1 = !q.asleep ∧ p.publish.Refines q.flush.2 := by
  have hf := h.f
  have hw := h.w
  simp only [FlushQueue.flush, List.isEmpty_iff, hp, if_false, true_and]
  refine ⟨by simp [YPipe.publish, h.queue, items], ?_, rfl, rfl, fun x hx => ?_, by simp,
    by simp [YPipe.publish]⟩
  · simp [YPipe.publish]
    omega
  · have := h.r x hx
    simp only [YPipe.publish]
    omega

theorem Refines.checkRead (h : p.Refines q) :
    p.checkRead.1 = q.checkRead.1 ∧ p.checkRead.2.Refines q.checkRead.2 := by
  have hw := h.w
  have hc := h.c
  unfold YPipe.checkRead FlushQueue.checkRead
  cases hq : q.flushed with
  | nil =>
    have hfront : p.w = p.front := by simpa [hq] using hw
    rw [if_neg]
    · refine ⟨?_, by simp [items, h.queue, hq], hfront, h.f, ?_, ?_, fun _ => rfl,
        fun hs => ⟨rfl, (h.setting hs).2⟩⟩ <;> cases hs : q.asleep <;> simp [hc, hs, hfront]
    · rintro ⟨hne, hsome⟩
      obtain ⟨x, hx⟩ := Option.ne_none_iff_exists'.mp hsome
      have := h.r x hx
      exact hne (hx.trans (congrArg some (by omega)))
  | cons x rest =>
    have hs : q.asleep = false := Bool.eq_false_iff.mpr fun hs => by simp [h.asleep hs] at hq
    have hne : p.w ≠ p.front := by simp [hw, hq]
    rw [hs] at hc
    split
    · exact ⟨rfl, h⟩
    · refine ⟨by simp [hc, hne], h.queue, hw, h.f, by simp [hc, hne, hs], ?_, h.asleep, h.setting⟩
      simp [hc]
      omega

theorem checkRead_ahead (h : p.checkRead.1 = true) :
    p.checkRead.2.r ≠ some p.checkRead.2.front := by
  by_cases hr : p.r ≠ some p.front ∧ p.r ≠ none
  · rw [checkRead, if_pos hr]
    exact hr.1
  · rw [checkRead, if_neg hr] at h ⊢
    exact (of_decide_eq_true h).1

theorem Refines.read (h : p.Refines q) : p.read.1 = q.read.1 ∧ p.read.2.Refines q.read.2 := by
  obtain ⟨hb, h'⟩ := h.checkRead
  unfold YPipe.read FlushQueue.read
  unfold FlushQueue.checkRead at hb h'
  cases hq : q.flushed with
  | nil =>
    simp only [hq] at hb h'
    simp only [hb, Bool.false_eq_true, if_false, true_and]
    exact h'
  | cons x rest =>
    simp only [hq] at hb h'
    have hw := h'.w
    rw [hq, length_cons] at hw
    simp only [hb, if_true, h'.queue, items, hq, cons_append, head?_cons, true_and]
    refine ⟨rfl, by dsimp only; omega, h'.f, h'.c, fun y hy => ?_, fun hs => ?_, h'.setting⟩
    · have hle := h'.r y hy
      have hne : y ≠ p.checkRead.2.front := fun heq => checkRead_ahead hb (heq ▸ hy)
      dsimp only
      omega
    · simp [h.asleep hs] at hq

theorem Refines.flush (h : p.Refines q) : p.flush.1 = none ∧ p.flush.2.Refines q ∨
    p.flush.1 = some q.flush.1 ∧ p.flush.2.Refines q.flush.2 := by
  unfold YPipe.flush
  by_cases hp : q.pending = []
  · rw [if_pos (by simp [h.f, hp]), FlushQueue.flush, hp]
    exact .inr ⟨rfl, h⟩
  rw [if_neg (by simp [h.f, hp])]
  obtain ⟨hb, h'⟩ := h.publish hp
  cases ha : q.asleep with
  | true =>
    rw [if_neg (by simp [h.c, ha])]
    exact .inl ⟨rfl, h.queue, h.w, h.f, h.c, h.r, h.asleep, fun _ => ⟨ha, hp⟩⟩
  | false =>
    rw [if_pos (by simp [h.c, ha]), hb, ha]
    exact .inr ⟨rfl, h'⟩

/-- A step does nothing to `q`, or a call returns as it does at `q`. -/
theorem Refines.step (h : p.Refines q) (op : YPipeOp α) :
    (p.step op).2 = none ∧ (p.step op).1.Refines q ∨
      ∃ op', (p.step op).2 = (call q op').2 ∧ (p.step op).1.Refines (call q op').1 := by
  have hset (hs : p.setting = true) : some (.flush, false, none) = (call q .flush).2 ∧
      p.publish.Refines (call q .flush).1 := by
    obtain ⟨ha, hp⟩ := h.setting hs
    obtain ⟨hb, h'⟩ := h.publish hp
    exact ⟨by rw [call, hb, ha]; rfl, h'⟩
  cases op with
  | checkRead => exact .inr ⟨.checkRead, by simp [YPipe.step, call, h.checkRead.1], h.checkRead.2⟩
  | read => exact .inr ⟨.read, by simp [YPipe.step, call, h.read.1], h.read.2⟩
  | write x incomplete =>
    simp only [YPipe.step]
    split
    · exact .inr ⟨_, hset ‹_›⟩
    · exact .inr ⟨.write x incomplete, rfl, h.write x incomplete⟩
  | unwrite =>
    simp only [YPipe.step]
    split
    · exact .inr ⟨_, hset ‹_›⟩
    · exact .inr ⟨.unwrite, by simp [call, h.unwrite.1], h.unwrite.2⟩
  | flush =>
    simp only [YPipe.step]
    split
    · exact .inr ⟨_, hset ‹_›⟩
    rcases h.flush with ⟨hn, h'⟩ | ⟨hb, h'⟩
    · exact .inl ⟨by simp [hn], h'⟩
    · exact .inr ⟨.flush, by simp [call, hb], h'⟩

/-- **The lock-free queue is linearizable.** However the steps of the two threads are interleaved,
the calls return what they return on a `FlushQueue` one after the other. -/
theorem linearizable (ops : List (YPipeOp α)) :
    (feed call {} ((feed step {} ops).2.map Prod.fst)).2 = (feed step ({} : YPipe α) ops).2 := by
  have hfeed : ∀ {p : YPipe α} {q}, p.Refines q →
      (feed call q ((feed step p ops).2.map Prod.fst)).2 = (feed step p ops).2 := by
    induction ops with
    | nil => exact fun _ => rfl
    | cons op ops ih =>
      intro p q h
      rw [feed_cons]
      rcases h.step op with ⟨hn, h'⟩ | ⟨op', ho, h'⟩
      · simp only [hn]
        exact ih h'
      · have hop : ∃ r, (call q op').2 = some (op', r) := by cases op' <;> exact ⟨_, rfl⟩
        obtain ⟨r, hr⟩ := hop
        simp only [ho, hr, Option.toList, singleton_append, map_cons, feed_cons, ih h']
  exact hfeed ⟨rfl, rfl, rfl, rfl, by simp, fun _ => rfl, by simp⟩

end YPipe

end ServerLink

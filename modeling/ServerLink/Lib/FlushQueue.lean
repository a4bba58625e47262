import Mathlib.Tactic.Common

/-!
# Queues that publish in groups

A queue between one writer and one reader. The writer appends items; an item is
written as part of a group that is still incomplete, or as the one that completes its
group. Complete groups are handed to the reader only by `flush`, and an incomplete
group can be taken back item by item (`unwrite`). A reader that finds nothing goes to
sleep; the flush that next publishes something reports it, so that the writer knows it
has to wake the reader.

Every operation is taken as one atomic step.
-/

/-- The items published to the reader, the complete groups not published yet, the
group that is being written, and whether the reader sleeps. -/
structure FlushQueue (α : Type) where
  flushed : List α := []
  pending : List α := []
  incomplete : List α := []
  asleep : Bool := false
  deriving Repr, DecidableEq

namespace FlushQueue

open List

variable {α : Type}

/-- Append an item; `inc` says that its group goes on. -/
def write (q : FlushQueue α) (x : α) (inc : Bool) : FlushQueue α :=
  if inc then { q with incomplete := q.incomplete ++ [x] }
  else { q with pending := q.pending ++ (q.incomplete ++ [x]), incomplete := [] }

/-- Take back the last item of the incomplete group. -/
def unwrite (q : FlushQueue α) : Option (α × FlushQueue α) :=
  match q.incomplete.getLast? with
  | none => none
  | some x => some (x, { q with incomplete := q.incomplete.dropLast })

/-- The items of the complete groups, published or not. -/
def complete (q : FlushQueue α) : List α := q.flushed ++ q.pending

/-- What `while (unwrite (&x))` takes back, in that order, and the queue it leaves. -/
def unwriteAll (q : FlushQueue α) : List α × FlushQueue α :=
  (q.incomplete.reverse, { q with incomplete := [] })

/-- Publish the complete groups. The result is false when the reader has to be woken. -/
def flush (q : FlushQueue α) : Bool × FlushQueue α :=
  if q.pending.isEmpty then (true, q)
  else (!q.asleep, { q with flushed := q.flushed ++ q.pending, pending := [], asleep := false })

/-- Is there an item to read? A reader that finds none is asleep from then on. -/
def checkRead (q : FlushQueue α) : Bool × FlushQueue α :=
  match q.flushed with
  | [] => (false, { q with asleep := true })
  | _ :: _ => (true, q)

/-- Read the next item. -/
def read (q : FlushQueue α) : Option α × FlushQueue α :=
  match q.flushed with
  | [] => (none, { q with asleep := true })
  | x :: rest => (some x, { q with flushed := rest })

/-- What `while (read (&x))` reads, in that order, and the queue it leaves. -/
def readAll (q : FlushQueue α) : List α × FlushQueue α :=
  (q.flushed, { q with flushed := [], asleep := true })

/-- Everything in the queue, in the order written. -/
def items (q : FlushQueue α) : List α := q.flushed ++ q.pending ++ q.incomplete

/-! ### The loops -/

/-- `unwriteAll` is the loop over `unwrite`. -/
theorem unwriteAll_eq (q : FlushQueue α) :
    q.unwriteAll =
      match q.unwrite with
      | none => ([], q)
      | some (x, q') => (x :: q'.unwriteAll.1, q'.unwriteAll.2) := by
  rcases eq_nil_or_concat q.incomplete with h | ⟨xs, x, h⟩
  · simp only [unwriteAll, unwrite, h, getLast?_nil, reverse_nil]
    rw [← h]
  · simp [unwriteAll, unwrite, h]

/-- `readAll` is the loop over `read`. -/
theorem readAll_eq (q : FlushQueue α) :
    q.readAll =
      match q.read with
      | (none, q') => ([], q')
      | (some x, q') => (x :: q'.readAll.1, q'.readAll.2) := by
  cases h : q.flushed with
  | nil => simp [readAll, read, h]
  | cons x rest => simp [readAll, read, h]

/-! ### What the writer does for the reader -/

/-- The writer changed the queue from `q` to `q'`: published items stay in place, and
unless the change comes with a wake-up call (`woken`) the reader sleeps as before and
a sleeping reader gets nothing to read. -/
structure Written (q q' : FlushQueue α) (woken : Bool) : Prop where
  grows : q.flushed <+: q'.flushed
  sleep : woken = false → q'.asleep = q.asleep ∧ (q.asleep = true → q'.flushed = q.flushed)

theorem Written.refl (q : FlushQueue α) : Written q q false :=
  ⟨prefix_refl _, fun _ => ⟨rfl, fun _ => rfl⟩⟩

theorem Written.trans {q1 q2 q3 : FlushQueue α} {w : Bool} (h1 : Written q1 q2 false)
    (h2 : Written q2 q3 w) : Written q1 q3 w := by
  obtain ⟨hs, hf⟩ := h1.sleep rfl
  refine ⟨h1.grows.trans h2.grows, fun hw => ⟨(h2.sleep hw).1.trans hs, fun ha => ?_⟩⟩
  rw [(h2.sleep hw).2 (hs.trans ha), hf ha]

theorem written_write (q : FlushQueue α) (x : α) (inc : Bool) :
    Written q (q.write x inc) false := by
  cases inc <;> exact ⟨prefix_refl _, fun _ => ⟨rfl, fun _ => rfl⟩⟩

theorem written_unwriteAll (q : FlushQueue α) : Written q q.unwriteAll.2 false :=
  ⟨prefix_refl _, fun _ => ⟨rfl, fun _ => rfl⟩⟩

/-- A flush wakes the reader exactly when it returns false. -/
theorem written_flush (q : FlushQueue α) : Written q q.flush.2 (!q.flush.1) := by
  unfold flush
  split
  · exact Written.refl q
  · refine ⟨prefix_append _ _, fun hw => ?_⟩
    have ha : q.asleep = false := by simpa using hw
    simp [ha]

theorem flush_flushed (q : FlushQueue α) : q.flush.2.flushed = q.flushed ++ q.pending := by
  unfold flush
  split
  case isTrue h => simp [isEmpty_iff.mp h]
  case isFalse => rfl

theorem flush_pending (q : FlushQueue α) : q.flush.2.pending = [] := by
  unfold flush
  split
  case isTrue h => exact isEmpty_iff.mp h
  case isFalse => rfl

@[simp] theorem flush_incomplete (q : FlushQueue α) : q.flush.2.incomplete = q.incomplete := by
  unfold flush
  split <;> rfl

@[simp] theorem items_flush (q : FlushQueue α) : q.flush.2.items = q.items := by
  simp [items, flush_flushed, flush_pending]

@[simp] theorem items_write (q : FlushQueue α) (x : α) (inc : Bool) :
    (q.write x inc).items = q.items ++ [x] := by
  cases inc <;> simp [write, items]

end FlushQueue

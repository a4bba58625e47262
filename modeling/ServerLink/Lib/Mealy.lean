import Mathlib.Tactic.Common

/-!
# Machines that read a stream and emit outputs

A machine is a function `step : σ → β → σ × Option ω`: it reads one input symbol,
changes its state and emits at most one output. `feed` runs it over a list of
symbols. The rules below say that a run can be cut anywhere (`feed_append`) and how a
state that emits nothing any more, or nothing for a while, behaves over a block of
symbols.
-/

namespace Mealy

variable {σ β ω : Type}

/-- Run the machine over the symbols and collect what it emits. -/
def feed (step : σ → β → σ × Option ω) : σ → List β → σ × List ω
  | s, [] => (s, [])
  | s, b :: bs =>
    let r := step s b
    let q := feed step r.1 bs
    (q.1, r.2.toList ++ q.2)

variable {step : σ → β → σ × Option ω}

@[simp] theorem feed_nil (s : σ) : feed step s [] = (s, []) := rfl

theorem feed_cons (s : σ) (b : β) (bs : List β) :
    feed step s (b :: bs) =
      ((feed step (step s b).1 bs).1, (step s b).2.toList ++ (feed step (step s b).1 bs).2) :=
  rfl

theorem feed_singleton (s : σ) (b : β) : feed step s [b] = ((step s b).1, (step s b).2.toList) := by
  simp [feed_cons]

theorem feed_append (s : σ) (bs cs : List β) :
    feed step s (bs ++ cs) =
      ((feed step (feed step s bs).1 cs).1,
        (feed step s bs).2 ++ (feed step (feed step s bs).1 cs).2) := by
  induction bs generalizing s with
  | nil => simp
  | cons b bs ih => simp [feed_cons, ih]

/-- Two runs in a row, when the first is known. -/
theorem feed_append_of_eq {s s' : σ} {bs : List β} {out : List ω} (cs : List β)
    (h : feed step s bs = (s', out)) :
    feed step s (bs ++ cs) = ((feed step s' cs).1, out ++ (feed step s' cs).2) := by
  rw [feed_append, h]

/-- A state that every symbol leaves as it is, emitting nothing. -/
theorem feed_of_absorbing {s : σ} (h : ∀ b, step s b = (s, none)) (bs : List β) :
    feed step s bs = (s, []) := by
  induction bs with
  | nil => rfl
  | cons b bs ih => simp [feed_cons, h, ih]

/-- Over a concatenation of blocks, each of which emits one output and brings the
machine back to `s`, the outputs are those of the blocks. -/
theorem feed_flatMap {ι : Type} {s : σ} {enc : ι → List β} {out : ι → ω} {l : List ι}
    (h : ∀ i ∈ l, feed step s (enc i) = (s, [out i])) :
    feed step s (l.flatMap enc) = (s, l.map out) := by
  induction l with
  | nil => rfl
  | cons i l ih =>
    rw [List.flatMap_cons, feed_append_of_eq _ (h i (by simp)),
      ih (fun j hj => h j (by simp [hj])), List.map_cons, List.singleton_append]

end Mealy

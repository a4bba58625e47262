import Mathlib.Tactic.Common

/-!
# Postconditions of checked computations

`Ensures m P` says that whatever the computation `m` returns meets `P`; it says nothing about a
computation that faults. The rules follow the shape of the computation, so that a method is
proved like it is written: one rule for a result, one for a sequence, one for a loop.
-/

namespace Checked

variable {ε α β : Type}

/-- What the computation returns, if it does not fault, meets the postcondition. -/
def Ensures (m : Except ε α) (P : α → Prop) : Prop := ∀ a, m = .ok a → P a

variable {m : Except ε α} {P Q : α → Prop}

theorem Ensures.ok {a : α} (h : P a) : Ensures (.ok a : Except ε α) P := by
  intro b hb
  exact Except.ok.inj hb ▸ h

theorem Ensures.pure {a : α} (h : P a) : Ensures (Pure.pure a : Except ε α) P := Ensures.ok h

theorem Ensures.error (e : ε) (P : α → Prop) : Ensures (.error e) P := by
  intro b hb
  cases hb

theorem Ensures.mono (h : Ensures m P) (hPQ : ∀ a, P a → Q a) : Ensures m Q :=
  fun a ha => hPQ a (h a ha)

theorem Ensures.bind {R : β → Prop} {f : α → Except ε β} (hm : Ensures m P)
    (hf : ∀ a, P a → Ensures (f a) R) : Ensures (m >>= f) R := by
  intro b hb
  cases m with
  | error e => cases hb
  | ok a => exact hf a (hm a rfl) b hb

theorem Ensures.seq {R : β → Prop} {f : α → Except ε β}
    (hf : ∀ a, m = .ok a → Ensures (f a) R) : Ensures (m >>= f) R :=
  Ensures.bind (P := fun a => m = .ok a) (fun _ => id) hf

theorem Ensures.map {R : β → Prop} {f : α → β} (h : ∀ a, m = .ok a → R (f a)) :
    Ensures (m.map f) R := by
  intro b hb
  cases m with
  | error e => cases hb
  | ok a => exact Except.ok.inj hb ▸ h a rfl

theorem Ensures.ite {c : Prop} [Decidable c] {m' : Except ε α} (h : c → Ensures m P)
    (h' : ¬ c → Ensures m' P) : Ensures (if c then m else m') P := by
  split
  · exact h ‹_›
  · exact h' ‹_›

/-- A loop keeps what each of its rounds keeps. -/
theorem Ensures.foldlM {I : α → Prop} {f : α → β → Except ε α} {l : List β}
    (hf : ∀ b ∈ l, ∀ a, I a → Ensures (f a b) I) {a : α} (ha : I a) :
    Ensures (l.foldlM f a) I := by
  induction l generalizing a with
  | nil => exact Ensures.ok ha
  | cons b l ih =>
    rw [List.foldlM_cons]
    refine Ensures.bind (hf b List.mem_cons_self a ha) fun a' ha' => ?_
    exact ih (fun b hb => hf b (List.mem_cons_of_mem _ hb)) ha'

/-- A computation that returns something began with one that did. -/
theorem bind_eq_ok {f : α → Except ε β} {b : β} (h : m >>= f = .ok b) :
    ∃ a, m = .ok a ∧ f a = .ok b := by
  cases m with
  | error e => cases h
  | ok a => exact ⟨a, rfl, h⟩

end Checked

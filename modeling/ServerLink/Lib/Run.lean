import ServerLink.Lib.Checked

/-!
# Runs of checked step functions

A system is given by a step function `step : σ → α → Except ε σ`: an action either
leads to a next state or faults (an assertion of the modelled program fails). `run`
executes a list of actions and stops at the first fault. `Along` says that every
action of a run meets a condition in the state in which it is taken; the rules below
turn a one-step argument into one about whole runs:

* `run_ok_of_step` — an invariant that every admissible step keeps, without
  faulting, holds after every admissible run, which does not fault either;
* `run_ok_or_fault` — the same when admissible steps may fault in certain ways;
* `run_ok_of_inv` — the same for a system all of whose steps are admissible;
* `run_simulates` — the same for a relation to the run of an abstract function;
* `run_inv` — an invariant kept by every step that does not fault holds after every
  run that does not fault;
* `run_inv_along` — the same for admissible steps and runs;
* `run_fault_along` — a run of admissible steps faults only as such steps do.
-/

namespace CheckedRun

variable {σ α ε : Type}
variable {s s' : σ} {as : List α}

/-- Execute the actions in order, stopping at the first fault. -/
def run (step : σ → α → Except ε σ) : σ → List α → Except ε σ
  | s, [] => .ok s
  | s, a :: as =>
    match step s a with
    | .error e => .error e
    | .ok s' => run step s' as

/-- Every action of the run from `s` meets `C` in the state it is taken in. -/
def Along (step : σ → α → Except ε σ) (C : σ → α → Prop) : σ → List α → Prop
  | _, [] => True
  | s, a :: as =>
    C s a ∧
      match step s a with
      | .error _ => True
      | .ok s' => Along step C s' as

/-- A condition that can be evaluated can be evaluated along a run. -/
instance decidableAlong (step : σ → α → Except ε σ) (C : σ → α → Prop)
    [∀ s a, Decidable (C s a)] : ∀ s as, Decidable (Along step C s as)
  | _, [] => .isTrue trivial
  | s, a :: as =>
    have : Decidable
        (match step s a with
        | .error _ => True
        | .ok s' => Along step C s' as) :=
      match step s a with
      | .error _ => .isTrue trivial
      | .ok s' => decidableAlong step C s' as
    inferInstanceAs (Decidable (C s a ∧ _))

/-- A run does not fault and ends in a state that passes the test. -/
def reaches (step : σ → α → Except ε σ) (s : σ) (as : List α) (p : σ → Bool) : Bool :=
  match run step s as with
  | .error _ => false
  | .ok s' => p s'

variable {step : σ → α → Except ε σ} {C : σ → α → Prop} {I : σ → Prop}

theorem of_reaches {p : σ → Bool} (h : reaches step s as p = true) :
    ∃ s', run step s as = .ok s' ∧ p s' = true := by
  unfold reaches at h
  split at h
  · cases h
  · rename_i s' hr
    exact ⟨s', hr, h⟩

/-- The end of a run, evaluated. -/
theorem exists_run {P : σ → Prop} [DecidablePred P]
    (h : reaches step s as (fun s => decide (P s)) = true) :
    ∃ s', run step s as = .ok s' ∧ P s' := by
  obtain ⟨s', hr, hP⟩ := of_reaches h
  exact ⟨s', hr, of_decide_eq_true hP⟩

/-- A result that is passed on with a change was one before. -/
theorem map_eq_ok {τ : Type} {f : σ → τ} {x : Except ε σ} {b : τ} (h : x.map f = .ok b) :
    ∃ a, x = .ok a ∧ f a = b := by
  cases x with
  | error e => cases h
  | ok a => exact ⟨a, rfl, Except.ok.inj h⟩

@[simp] theorem run_nil (s : σ) : run step s [] = .ok s := rfl

theorem run_singleton (s : σ) (a : α) : run step s [a] = step s a := by
  cases h : step s a <;> simp [run, h]

theorem run_cons_ok {a : α} (as : List α) (h : step s a = .ok s') :
    run step s (a :: as) = run step s' as := by
  simp only [run, h]

theorem run_append (as bs : List α) (s : σ) :
    run step s (as ++ bs) = (run step s as).bind fun s' => run step s' bs := by
  induction as generalizing s with
  | nil => rfl
  | cons a as ih =>
    rw [List.cons_append]
    cases h : step s a with
    | error e => simp only [run, h, Except.bind]
    | ok s1 => rw [run_cons_ok _ h, run_cons_ok _ h, ih]

/-- A run that does not fault splits at any point of its list of actions. -/
theorem run_append_eq_ok {s'' : σ} {bs : List α} :
    run step s (as ++ bs) = .ok s'' ↔ ∃ s', run step s as = .ok s' ∧ run step s' bs = .ok s'' := by
  rw [run_append]
  cases run step s as <;> simp [Except.bind]

theorem run_append_of_ok (bs : List α)
    (h : run step s as = .ok s') : run step s (as ++ bs) = run step s' bs := by
  rw [run_append, h, Except.bind]

/-- A condition on the actions alone holds along a run if it holds of each of them. -/
theorem along_of_forall {P : α → Prop} (h : ∀ a ∈ as, P a) (s : σ) :
    Along step (fun _ a => P a) s as := by
  induction as generalizing s with
  | nil => trivial
  | cons a as ih =>
    refine ⟨h a (by simp), ?_⟩
    split
    · trivial
    · exact ih (fun a ha => h a (List.mem_cons_of_mem _ ha)) _

theorem Along.tail {a : α} (h : Along step C s (a :: as))
    (hs : step s a = .ok s') : Along step C s' as := by
  have := h.2
  rw [hs] at this
  exact this

/-- A run of admissible steps keeps the invariant, unless it faults as such steps may. -/
theorem run_ok_or_fault {F : ε → Prop} (hstep : ∀ s a, I s → C s a →
      (∃ s', step s a = .ok s' ∧ I s') ∨ ∃ e, step s a = .error e ∧ F e) :
    ∀ {as : List α} {s : σ}, I s → Along step C s as →
      (∃ s', run step s as = .ok s' ∧ I s') ∨ ∃ e, run step s as = .error e ∧ F e := by
  intro as
  induction as with
  | nil => intro s hI _; exact .inl ⟨s, rfl, hI⟩
  | cons a as ih =>
    intro s hI hC
    rcases hstep s a hI hC.1 with ⟨s1, hs, hI1⟩ | ⟨e, hs, he⟩
    · rw [run_cons_ok _ hs]
      exact ih hI1 (hC.tail hs)
    · exact .inr ⟨e, by simp only [run, hs], he⟩

/-- It does not fault if no admissible step does under the invariant. -/
theorem run_ok_of_step (hstep : ∀ s a, I s → C s a → ∃ s', step s a = .ok s' ∧ I s')
    (hI : I s) (hC : Along step C s as) : ∃ s', run step s as = .ok s' ∧ I s' := by
  have := run_ok_or_fault (F := fun _ => False) (fun s a hI hC => .inl (hstep s a hI hC)) hI hC
  simpa using this

/-- The same when every step is admissible. -/
theorem run_ok_of_inv (hstep : ∀ s a, I s → ∃ s', step s a = .ok s' ∧ I s') (as : List α)
    (hI : I s) : ∃ s', run step s as = .ok s' ∧ I s' := by
  refine run_ok_of_step (C := fun _ _ => True) (fun s a hI _ => hstep s a hI) hI ?_
  exact along_of_forall (P := fun _ => True) (fun _ _ => trivial) s

/-- The run is simulated by the fold of `f` if every admissible step is simulated by `f`. -/
theorem run_simulates {τ : Type} {f : τ → α → τ} {R : σ → τ → Prop}
    (hstep : ∀ s t a, R s t → C s a → ∃ s', step s a = .ok s' ∧ R s' (f t a)) :
    ∀ {as : List α} {s : σ} {t : τ}, R s t → Along step C s as →
      ∃ s', run step s as = .ok s' ∧ R s' (as.foldl f t) := by
  intro as
  induction as with
  | nil => intro s t hR _; exact ⟨s, rfl, hR⟩
  | cons a as ih =>
    intro s t hR hC
    obtain ⟨s1, hs, hR1⟩ := hstep s t a hR hC.1
    obtain ⟨s', hr, hR'⟩ := ih hR1 (hC.tail hs)
    exact ⟨s', by rw [run_cons_ok _ hs, hr], hR'⟩

/-- Where a run of admissible steps ends, the invariant holds. -/
theorem run_inv_along (hstep : ∀ s a s', I s → C s a → step s a = .ok s' → I s') :
    ∀ {as : List α} {s s' : σ}, I s → Along step C s as → run step s as = .ok s' → I s' := by
  intro as
  induction as with
  | nil =>
    intro s s' hI _ hr
    obtain rfl : s = s' := by simpa using hr
    exact hI
  | cons a as ih =>
    intro s s' hI hC hr
    cases hs : step s a with
    | error e => simp [run, hs] at hr
    | ok s1 =>
      rw [run_cons_ok _ hs] at hr
      exact ih (hstep s a s1 hI hC.1 hs) (hC.tail hs) hr

/-- A run of admissible steps faults only in the ways in which an admissible step does. -/
theorem run_fault_along {F : ε → Prop} (hstep : ∀ s a, C s a → ∀ e, step s a = .error e → F e) :
    ∀ {as : List α} {s : σ}, Along step C s as → ∀ e, run step s as = .error e → F e := by
  intro as
  induction as with
  | nil =>
    intro s _ e hr
    cases hr
  | cons a as ih =>
    intro s hC e hr
    cases hs : step s a with
    | error e' =>
      have he : e' = e := by simpa [run, hs] using hr
      exact he ▸ hstep s a hC.1 e' hs
    | ok s1 =>
      rw [run_cons_ok _ hs] at hr
      exact ih (hC.tail hs) e hr

/-- An invariant of the steps is one of the runs. -/
theorem run_inv (hstep : ∀ s a s', I s → step s a = .ok s' → I s') :
    ∀ {as : List α} {s s' : σ}, I s → run step s as = .ok s' → I s' := by
  intro as s s' hI hr
  refine run_inv_along (C := fun _ _ => True) (fun s a s' hI _ => hstep s a s' hI) hI ?_ hr
  exact along_of_forall (P := fun _ => True) (fun _ _ => trivial) s

end CheckedRun

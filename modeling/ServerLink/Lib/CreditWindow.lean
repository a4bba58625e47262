import Mathlib.Tactic.Common

/-!
# Windows with periodic reports

A writer may be ahead of a reader by at most `limit` messages. The writer does not see
how far the reader is: the reader reports its count every `period` messages, the reports
arrive in order and late, and the writer compares its own count with the last one that
arrived. A writer that finds the window full stops until the next report.

Both sides count modulo `modulus`; the counts below are the true ones, and the reader
reports when its count modulo `modulus` is a multiple of the period.
-/

/-- The counts of a window: what was written, the last report the writer has seen, the
reports on their way to it, what was read, and whether the writer has stopped. -/
structure Window where
  written : Int
  acked : Int
  reports : List Int
  read : Int
  stopped : Bool

namespace Window

open List

/-- The last report the reader has made. -/
def lastReport (w : Window) : Int := w.reports.getLastD w.acked

/-- The report that is due on a count. -/
def due (modulus period n : Int) : List Int := if n % modulus % period = 0 then [n] else []

/-- The invariant of a window. -/
structure Ok (limit period modulus : Int) (w : Window) : Prop where
  sorted : (w.acked :: w.reports).Pairwise (· ≤ ·)
  reported : ∀ n ∈ w.acked :: w.reports, n ≤ w.read
  read_le : w.read ≤ w.written
  window : w.written - w.acked ≤ limit
  stopped : w.stopped = true → limit ≤ w.written - w.acked
  since : w.read - w.lastReport = w.read % modulus % period

variable {limit period modulus : Int} {w : Window}

theorem Ok.lastReport_le (h : w.Ok limit period modulus) : w.lastReport ≤ w.read := by
  refine h.reported _ ?_
  rcases eq_nil_or_concat w.reports with hr | ⟨rs, r, hr⟩
  · simp [lastReport, hr]
  · simp [lastReport, hr]

/-! ### The steps of the writer and the reader -/

theorem Ok.write (h : w.Ok limit period modulus) {c : Int} (hc : c = 0 ∨ c = 1)
    (hroom : w.written - w.acked < limit) (hrun : w.stopped = false) :
    Ok limit period modulus { w with written := w.written + c } where
  sorted := h.sorted
  reported := h.reported
  read_le := by
    have := h.read_le
    show w.read ≤ w.written + c
    omega
  window := by
    show w.written + c - w.acked ≤ limit
    omega
  stopped hs := by simp [hrun] at hs
  since := h.since

theorem Ok.stop (h : w.Ok limit period modulus) (hfull : limit ≤ w.written - w.acked) :
    Ok limit period modulus { w with stopped := true } :=
  ⟨h.sorted, h.reported, h.read_le, h.window, fun _ => hfull, h.since⟩

theorem Ok.ack (h : w.Ok limit period modulus) {n : Int} {rest : List Int}
    (hr : w.reports = n :: rest) :
    Ok limit period modulus { w with acked := n, reports := rest, stopped := false } where
  sorted := by
    have hs := (pairwise_cons.mp h.sorted).2
    rwa [hr] at hs
  reported n hn := h.reported n (mem_cons_of_mem _ (hr ▸ hn))
  read_le := h.read_le
  window := by
    have hle : w.acked ≤ n := rel_of_pairwise_cons h.sorted (by simp [hr])
    have hw := h.window
    show w.written - n ≤ limit
    omega
  stopped hs := by cases hs
  since := by
    have hs := h.since
    rwa [lastReport, hr, getLastD_cons] at hs

theorem emod_add_one (n : Int) {k : Int} (hk : 0 < k) :
    (n + 1) % k = 0 ∨ (n + 1) % k = n % k + 1 := by
  have h0 := Int.emod_nonneg n (Int.ne_of_gt hk)
  have h1 := Int.emod_lt_of_pos n hk
  rw [← Int.emod_add_emod]
  by_cases hlast : n % k + 1 = k
  · left
    rw [hlast, Int.emod_self]
  · right
    exact Int.emod_eq_of_lt (by omega) (by omega)

/-- Between two reports the count since the last one goes on by one. -/
theorem since_add_one {n : Int} (hp : 0 < period) (hm : 0 < modulus)
    (hne : (n + 1) % modulus % period ≠ 0) :
    (n + 1) % modulus % period = n % modulus % period + 1 := by
  rcases emod_add_one n hm with h | h
  · simp [h] at hne
  · rw [h] at hne ⊢
    exact (emod_add_one (n % modulus) hp).resolve_left hne

theorem Ok.readOne (h : w.Ok limit period modulus) (hp : 0 < period) (hm : 0 < modulus)
    {c : Int} (hc : c = 0 ∨ c = 1) (hle : w.read + c ≤ w.written) :
    Ok limit period modulus
      { w with read := w.read + c, reports := w.reports ++ due modulus period (w.read + c) } := by
  have hgrow : ∀ n ∈ w.acked :: w.reports, n ≤ w.read + c := fun n hn => by
    have := h.reported n hn
    omega
  by_cases hdue : (w.read + c) % modulus % period = 0
  · refine ⟨?_, ?_, hle, h.window, h.stopped, ?_⟩
    · simp only [due, hdue, if_true]
      rw [← cons_append, pairwise_append]
      exact ⟨h.sorted, pairwise_singleton _ _, fun n hn r hr => by
        rw [mem_singleton.mp hr]
        exact hgrow n hn⟩
    · simp only [due, hdue, if_true, ← cons_append, mem_append, mem_singleton]
      rintro n (hn | rfl)
      · exact hgrow n hn
      · exact Int.le_refl _
    · simp [lastReport, due, hdue]
  · have hnone : due modulus period (w.read + c) = [] := by simp [due, hdue]
    rw [hnone, append_nil]
    refine ⟨h.sorted, hgrow, hle, h.window, h.stopped, ?_⟩
    show w.read + c - w.lastReport = _
    have hsince := h.since
    rcases hc with rfl | rfl
    · simpa using hsince
    · rw [since_add_one hp hm hdue, ← hsince]
      omega

/-! ### What a step can do -/

/-- The report the reader makes on a count. A reader whose period is not positive makes
none. -/
def report (modulus period n : Int) : List Int := if 0 < period then due modulus period n else []

/-- One step of the writer, of the reader, or of a report. A limit that is not positive
does not limit; the writer sees the difference of its two counts modulo `modulus`. -/
inductive Step (limit period modulus : Int) (w : Window) : Window → Prop
  | same : Step limit period modulus w w
  | write {c : Int} (hc : c = 0 ∨ c = 1)
      (hroom : 0 < limit → (w.written - w.acked) % modulus < limit) (hrun : w.stopped = false) :
      Step limit period modulus w { w with written := w.written + c }
  | stop (hl : 0 < limit) (hfull : limit ≤ (w.written - w.acked) % modulus) :
      Step limit period modulus w { w with stopped := true }
  | ack {n : Int} {rest : List Int} (hr : w.reports = n :: rest) :
      Step limit period modulus w { w with acked := n, reports := rest, stopped := false }
  | read {c : Int} (hc : c = 0 ∨ c = 1) (hle : w.read + c ≤ w.written) :
      Step limit period modulus w
        { w with read := w.read + c, reports := w.reports ++ report modulus period (w.read + c) }

/-- The difference the writer sees is the true one. -/
theorem Ok.diff (h : w.Ok limit period modulus) (hlt : limit < modulus) :
    (w.written - w.acked) % modulus = w.written - w.acked := by
  have h1 : w.acked ≤ w.read := h.reported _ (by simp)
  have h2 := h.read_le
  have h3 := h.window
  exact Int.emod_eq_of_lt (by omega) (by omega)

theorem Ok.step (h : w.Ok limit period modulus) (hl : 0 < limit) (hp : 0 < period)
    (hlt : limit < modulus) {w' : Window} (hs : Step limit period modulus w w') :
    w'.Ok limit period modulus := by
  have hm : 0 < modulus := Int.lt_trans hl hlt
  cases hs with
  | same => exact h
  | write hc hroom hrun =>
    have hroom := hroom hl
    rw [h.diff hlt] at hroom
    exact h.write hc hroom hrun
  | stop _ hfull =>
    rw [h.diff hlt] at hfull
    exact h.stop hfull
  | ack hr => exact h.ack hr
  | read hc hle =>
    simp only [report, hp, if_true]
    exact h.readOne hp hm hc hle

/-! ### Windows whose limit and period change

The limit and the period live on different sides and may be changed at any time. What has
to survive every change is that the reader's next report comes before the writer has used
up the window, and, if the writer has stopped already, before the reader has read all there
is. -/

theorem emod_le_of_nonneg {a b : Int} (ha : 0 ≤ a) (hb : 0 < b) : a % b ≤ a := by
  have h := Int.mul_ediv_add_emod a b
  have hq : 0 ≤ b * (a / b) :=
    Int.mul_nonneg (Int.le_of_lt hb) (Int.ediv_nonneg ha (Int.le_of_lt hb))
  omega

/-- A report is due on a count after `n`, at the latest on `k`. -/
def DueBy (modulus period n k : Int) : Prop := ∃ i, n < i ∧ i ≤ k ∧ i % modulus % period = 0

/-- The counts of a window are in order. -/
structure Ordered (w : Window) : Prop where
  sorted : (w.acked :: w.reports).Pairwise (· ≤ ·)
  reported : ∀ n ∈ w.acked :: w.reports, n ≤ w.read
  read_le : w.read ≤ w.written

/-- The limit and the period fit the counts. -/
structure Timely (limit period modulus : Int) (w : Window) : Prop where
  regular : 0 < limit →
    0 < period ∧ period ≤ limit ∧ DueBy modulus period w.read (w.lastReport + limit)
  waking : w.stopped = true → w.reports = [] →
    0 < period ∧ DueBy modulus period w.read w.written

theorem Ordered.lastReport_le (h : w.Ordered) : w.lastReport ≤ w.read := by
  refine h.reported _ ?_
  rcases eq_nil_or_concat w.reports with hr | ⟨rs, r, hr⟩
  · simp [lastReport, hr]
  · simp [lastReport, hr]

theorem dueBy_period (n : Int) (hp : 0 < period) (hm : 0 < modulus) :
    DueBy modulus period n (n + period) := by
  have h0 := Int.emod_nonneg n (Int.ne_of_gt hm)
  have h1 := Int.emod_lt_of_pos n hm
  have hs0 := Int.emod_nonneg (n % modulus) (Int.ne_of_gt hp)
  have hs1 := Int.emod_lt_of_pos (n % modulus) hp
  by_cases hwrap : n % modulus + (period - n % modulus % period) < modulus
  · refine ⟨n + (period - n % modulus % period), by omega, by omega, ?_⟩
    rw [← Int.emod_add_emod, Int.emod_eq_of_lt (by omega) hwrap]
    have heq : n % modulus + (period - n % modulus % period) =
        period * (n % modulus / period) + period := by
      have := Int.mul_ediv_add_emod (n % modulus) period
      omega
    rw [heq]
    simp
  · -- the count wraps first, and zero is a multiple of every period
    refine ⟨n + (modulus - n % modulus), by omega, by omega, ?_⟩
    rw [← Int.emod_add_emod, show n % modulus + (modulus - n % modulus) = modulus by omega,
      Int.emod_self, Int.zero_emod]

/-- A report that is not due on the next count is due later. -/
theorem DueBy.next {n k : Int} (h : DueBy modulus period n k)
    (hne : (n + 1) % modulus % period ≠ 0) : DueBy modulus period (n + 1) k := by
  obtain ⟨i, hlt, hle, hi⟩ := h
  refine ⟨i, ?_, hle, hi⟩
  have : i ≠ n + 1 := fun heq => hne (heq ▸ hi)
  omega

theorem Ordered.step (h : w.Ordered) {w' : Window} (hs : Step limit period modulus w w') :
    w'.Ordered := by
  obtain ⟨hsorted, hrep, hle⟩ := h
  cases hs with
  | same => exact ⟨hsorted, hrep, hle⟩
  | @write c hc hroom hrun =>
    refine ⟨hsorted, hrep, ?_⟩
    show w.read ≤ w.written + c
    omega
  | stop => exact ⟨hsorted, hrep, hle⟩
  | ack hr =>
    rw [hr] at hsorted hrep
    exact ⟨(pairwise_cons.mp hsorted).2, fun n hn => hrep n (mem_cons_of_mem _ hn), hle⟩
  | @read c hc hle' =>
    have hgrow : ∀ n ∈ w.acked :: w.reports, n ≤ w.read + c := fun n hn => by
      have := hrep n hn
      omega
    have hnew : ∀ n ∈ report modulus period (w.read + c), n = w.read + c := by
      intro n hn
      unfold report due at hn
      split at hn
      · split at hn
        · simpa using hn
        · simp at hn
      · simp at hn
    refine ⟨?_, ?_, hle'⟩
    · rw [← cons_append, pairwise_append]
      refine ⟨hsorted, ?_, fun n hn r hr => (hnew r hr) ▸ hgrow n hn⟩
      unfold report due
      split
      · split <;> simp
      · simp
    · intro n hn
      rw [← cons_append, mem_append] at hn
      rcases hn with hn | hn
      · exact hgrow n hn
      · exact Int.le_of_eq (hnew n hn)

/-- Every step keeps a timely window timely. -/
theorem Timely.step (h : w.Timely limit period modulus) (ho : w.Ordered) (hm : 0 < modulus)
    {w' : Window} (hs : Step limit period modulus w w') : w'.Timely limit period modulus := by
  cases hs with
  | same => exact h
  | write hc hroom hrun => exact ⟨h.regular, fun hstop => by simp [hrun] at hstop⟩
  | stop hl hfull =>
    refine ⟨h.regular, fun _ hr => ?_⟩
    -- the writer stops a whole limit after the last report, and by then one is due
    obtain ⟨hp, -, i, hlt, hle, hi⟩ := h.regular hl
    have hlast : w.lastReport = w.acked := by simp [lastReport, show w.reports = [] from hr]
    have hacked : w.acked ≤ w.read := ho.reported _ (by simp)
    have hread := ho.read_le
    have hdiff : (w.written - w.acked) % modulus ≤ w.written - w.acked :=
      emod_le_of_nonneg (by omega) hm
    exact ⟨hp, i, hlt, by show i ≤ w.written; omega, hi⟩
  | @ack n rest hr =>
    refine ⟨fun hl => ?_, nofun⟩
    have hlast : Window.lastReport { w with acked := n, reports := rest, stopped := false } =
        w.lastReport := by rw [lastReport, lastReport, hr, getLastD_cons]
    rw [hlast]
    exact h.regular hl
  | @read c hc hle =>
    by_cases hdue : 0 < period ∧ (w.read + c) % modulus % period = 0
    · obtain ⟨hp, hz⟩ := hdue
      have hrep : report modulus period (w.read + c) = [w.read + c] := by simp [report, due, hp, hz]
      rw [hrep]
      refine ⟨fun hl => ?_, fun _ hnil => by simp at hnil⟩
      obtain ⟨-, hpl, -⟩ := h.regular hl
      refine ⟨hp, hpl, ?_⟩
      obtain ⟨i, hlt, hle', hi⟩ := dueBy_period (w.read + c) hp hm
      exact ⟨i, hlt, by simp only [lastReport, getLastD_concat]; omega, hi⟩
    have hrep : report modulus period (w.read + c) = [] := by
      unfold report due
      split
      · rename_i hp
        rw [if_neg fun hz => hdue ⟨hp, hz⟩]
      · rfl
    rw [hrep, append_nil]
    have hkeep : ∀ {k : Int}, 0 < period → DueBy modulus period w.read k →
        DueBy modulus period (w.read + c) k := by
      intro k hp hk
      rcases hc with rfl | rfl
      · simpa using hk
      · exact hk.next fun hz => hdue ⟨hp, hz⟩
    refine ⟨fun hl => ?_, fun hstop hnil => ?_⟩
    · obtain ⟨hp, hpl, hd⟩ := h.regular hl
      exact ⟨hp, hpl, hkeep hp hd⟩
    · obtain ⟨hp, hd⟩ := h.waking hstop hnil
      exact ⟨hp, hkeep hp hd⟩

/-! ### No permanent stop -/

/-- When everything written was read, the writer has room as soon as it knows the last
report. -/
theorem Ok.room_after_reports (h : w.Ok limit period modulus) (hp : 0 < period)
    (hperiod : period ≤ limit) (hall : w.read = w.written) :
    w.written - w.lastReport < limit := by
  have hlt := Int.emod_lt_of_pos (w.read % modulus) hp
  have hsince := h.since
  omega

/-- The same for a timely window: the room is below the limit, and a writer that has heard
of every report has not stopped. -/
theorem Timely.room_after_reports (h : w.Timely limit period modulus) (ho : w.Ordered)
    (hm : 0 < modulus) (hall : w.read = w.written) (hl : 0 < limit) :
    (w.written - w.lastReport) % modulus < limit := by
  obtain ⟨-, -, i, hlt, hle, -⟩ := h.regular hl
  have hlast := ho.lastReport_le
  have hdiff : (w.written - w.lastReport) % modulus ≤ w.written - w.lastReport :=
    emod_le_of_nonneg (by omega) hm
  omega

theorem Timely.running (h : w.Timely limit period modulus) (hall : w.read = w.written)
    (hr : w.reports = []) : w.stopped = false := by
  cases hs : w.stopped with
  | false => rfl
  | true =>
    obtain ⟨-, i, hlt, hle, -⟩ := h.waking hs hr
    omega

end Window

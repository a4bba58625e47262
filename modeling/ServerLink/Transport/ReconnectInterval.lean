import Mathlib.Tactic.Common
import Mathlib.Algebra.Order.Group.Int
import ServerLink.Lib.MachineInt

/-!
# ServerLink.Transport.ReconnectInterval

How long a connecter waits before it tries again (`stream_connecter_base.cpp`). With a maximum the
interval doubles until it reaches the maximum; without one a random part is added to it each time.
The intervals are `int`s, and a computation that leaves their range has no result (`none`).
-/

namespace ServerLink

open MachineInt

/-- `stream_connecter_base_t`, as far as the intervals are concerned. -/
structure StreamConnecter where
  reconnectIvl : Int
  reconnectIvlMax : Int
  currentReconnectIvl : Int := -1
  deriving Repr, DecidableEq

namespace StreamConnecter

/-- The interval before it is compared with the maximum. -/
def candidateInterval (c : StreamConnecter) : Option Int :=
  if c.currentReconnectIvl = -1 then some c.reconnectIvl
  else if c.currentReconnectIvl > maxInt / 2 then some maxInt
  else checked (c.currentReconnectIvl * 2)

/-- `get_new_reconnect_ivl`. The number is what `generate_random` returns; the remainder is one of
unsigned numbers. -/
def getNewReconnectIvl (c : StreamConnecter) (random : BitVec 32) :
    Option (Int × StreamConnecter) :=
  if c.reconnectIvlMax > 0 then do
    let candidate ← c.candidateInterval
    let current := if candidate > c.reconnectIvlMax then c.reconnectIvlMax else candidate
    return (current, { c with currentReconnectIvl := current })
  else do
    let current := if c.currentReconnectIvl = -1 then c.reconnectIvl else c.currentReconnectIvl
    let jitter : Int := random.toNat % (c.reconnectIvl % 2 ^ 32)
    let room ← checked (maxInt - jitter)
    let interval ← if current < room then checked (current + jitter) else some maxInt
    return (interval, { c with currentReconnectIvl := current })

/-- The intervals of successive calls. -/
def intervals (c : StreamConnecter) : List (BitVec 32) → Option (List Int)
  | [] => some []
  | random :: rest => do
    let (interval, c) ← c.getNewReconnectIvl random
    let rest ← c.intervals rest
    return interval :: rest

variable {r m : Int}

/-! ### Doubling -/

/-- The interval that the next one is computed from, before call `n`. -/
def before (r m : Int) : Nat → Int
  | 0 => -1
  | n + 1 => min (r * 2 ^ n) m

theorem before_succ_pos (hr : 0 < r) (hm : 0 < m) (n : Nat) : 0 < before r m (n + 1) := by
  have hpow : (0 : Int) < 2 ^ n := Int.pow_pos (by decide)
  exact lt_min (Int.mul_pos hr hpow) hm

/-- The candidate exists, and it is the next power unless both are above the maximum. -/
theorem candidateInterval_before (hr : 0 < r) (hm : 0 < m) (hmax : m ≤ maxInt) (n : Nat) :
    ∃ x, candidateInterval ⟨r, m, before r m n⟩ = some x ∧ min x m = min (r * 2 ^ n) m := by
  cases n with
  | zero => exact ⟨r, rfl, by simp⟩
  | succ n =>
    have hpos := before_succ_pos hr hm n
    have hne : before r m (n + 1) ≠ -1 := by omega
    have hnext : r * 2 ^ (n + 1) = r * 2 ^ n * 2 := by rw [Int.pow_succ, Int.mul_assoc]
    have hcur : before r m (n + 1) = min (r * 2 ^ n) m := rfl
    unfold candidateInterval
    dsimp only
    rw [if_neg hne]
    split
    · -- twice the current interval would be out of range, hence above the maximum
      rename_i hbig
      refine ⟨maxInt, rfl, ?_⟩
      unfold maxInt at *
      omega
    rename_i hsmall
    have hfits : InRange (before r m (n + 1) * 2) := by
      unfold InRange maxInt at *
      omega
    exact ⟨_, checked_eq hfits, by omega⟩

theorem getNewReconnectIvl_doubles (hr : 0 < r) (hm : 0 < m) (hmax : m ≤ maxInt) (n : Nat)
    (random : BitVec 32) : getNewReconnectIvl ⟨r, m, before r m n⟩ random =
      some (min (r * 2 ^ n) m, ⟨r, m, before r m (n + 1)⟩) := by
  obtain ⟨x, hx, hmin⟩ := candidateInterval_before hr hm hmax n
  have hcut : (if x > m then m else x) = min (r * 2 ^ n) m := by
    rw [← hmin]
    split <;> omega
  unfold getNewReconnectIvl
  rw [if_pos hm, hx]
  simp [hcut, before]

theorem intervals_double (hr : 0 < r) (hm : 0 < m) (hmax : m ≤ maxInt) (randoms : List (BitVec 32))
    (n : Nat) : intervals ⟨r, m, before r m n⟩ randoms =
      some ((List.range' n randoms.length).map fun i => min (r * 2 ^ i) m) := by
  induction randoms generalizing n with
  | nil => rfl
  | cons random rest ih =>
    rw [intervals, getNewReconnectIvl_doubles hr hm hmax]
    simp [ih (n + 1), List.range'_succ]

/-! ### Jitter -/

/-- Without a maximum the current interval is the option, from the first call on. -/
theorem getNewReconnectIvl_jitters {current : Int} (hr : 0 < r) (hmax : r ≤ maxInt)
    (hcur : current = -1 ∨ current = r) (random : BitVec 32) :
    ∃ x, getNewReconnectIvl ⟨r, 0, current⟩ random = some (x, ⟨r, 0, r⟩) ∧
      r ≤ x ∧ x ≤ min (2 * r - 1) maxInt := by
  have hset : (if current = -1 then r else current) = r := by
    rcases hcur with rfl | rfl
    · rfl
    · rw [if_neg (by omega)]
  have hmod : r % 2 ^ 32 = r := Int.emod_eq_of_lt (by omega) (by unfold maxInt at hmax; omega)
  have hlow : 0 ≤ (random.toNat : Int) % r := Int.emod_nonneg _ (by omega)
  have hhigh : (random.toNat : Int) % r < r := Int.emod_lt_of_pos _ hr
  unfold getNewReconnectIvl
  simp only [gt_iff_lt, Int.lt_irrefl, if_false, hset, hmod]
  generalize (random.toNat : Int) % r = jitter at hlow hhigh ⊢
  have hroom : InRange (maxInt - jitter) := by
    unfold InRange maxInt at *
    omega
  rw [checked_eq hroom]
  by_cases hlt : r < maxInt - jitter
  · have hsum : InRange (r + jitter) := by
      unfold InRange maxInt at *
      omega
    exact ⟨r + jitter, by simp [hlt, checked_eq hsum], by omega, by omega⟩
  · exact ⟨maxInt, by simp [hlt], by omega, by omega⟩

theorem intervals_jitter {current : Int} (hr : 0 < r) (hmax : r ≤ maxInt)
    (hcur : current = -1 ∨ current = r) (randoms : List (BitVec 32)) :
    ∃ xs, intervals ⟨r, 0, current⟩ randoms = some xs ∧ xs.length = randoms.length ∧
      ∀ x ∈ xs, r ≤ x ∧ x ≤ min (2 * r - 1) maxInt := by
  induction randoms generalizing current with
  | nil => exact ⟨[], rfl, rfl, by simp⟩
  | cons random rest ih =>
    obtain ⟨x, hx, hrange⟩ := getNewReconnectIvl_jitters hr hmax hcur random
    obtain ⟨xs, hxs, hlen, hall⟩ := ih (.inr rfl)
    refine ⟨x :: xs, ?_, by simp [hlen], ?_⟩
    · rw [intervals, hx]
      simp [hxs]
    intro y hy
    rcases List.mem_cons.mp hy with rfl | hy
    · exact hrange
    · exact hall y hy

/-- The intervals of any number of calls: none of the computations leaves the range, the interval
doubles up to the maximum if there is one, and lies within twice the option otherwise. -/
theorem reconnect_intervals (hr : 0 < r) (hrmax : r ≤ maxInt) (hm : 0 ≤ m) (hmmax : m ≤ maxInt)
    (randoms : List (BitVec 32)) :
    ∃ xs, intervals { reconnectIvl := r, reconnectIvlMax := m } randoms = some xs ∧
      xs.length = randoms.length ∧
      (0 < m → ∀ n x, xs[n]? = some x → x = min (r * 2 ^ n) m) ∧
      (m = 0 → ∀ x ∈ xs, r ≤ x ∧ x ≤ min (2 * r - 1) maxInt) := by
  rcases hm.lt_or_eq with hpos | rfl
  · refine ⟨_, intervals_double hr hpos hmmax randoms 0, by simp, fun _ n x hx => ?_, ?_⟩
    · rw [List.getElem?_map] at hx
      obtain ⟨i, hi, rfl⟩ := Option.map_eq_some_iff.mp hx
      obtain ⟨hlt, hget⟩ := List.getElem?_eq_some_iff.mp hi
      obtain rfl : n = i := by simpa using hget
      rfl
    · intro h0
      omega
  · obtain ⟨xs, hxs, hlen, hall⟩ := intervals_jitter hr hrmax (.inl rfl) randoms
    exact ⟨xs, hxs, hlen, fun h => absurd h (Int.lt_irrefl 0), fun _ => hall⟩

/-- An interval of 100 with a maximum of 300. -/
theorem reconnect_intervals_300 : ∃ xs,
    intervals { reconnectIvl := 100, reconnectIvlMax := 300 } [7, 7, 7] = some xs ∧
      xs.length = 3 ∧ ∀ (n : Nat) (x : Int), xs[n]? = some x → x = min (100 * 2 ^ n) 300 := by
  obtain ⟨xs, hxs, hlen, hdouble, -⟩ :=
    reconnect_intervals (r := 100) (m := 300) (by decide) (by decide) (by decide) (by decide)
      [7, 7, 7]
  exact ⟨xs, hxs, hlen, hdouble (by decide)⟩

end StreamConnecter

end ServerLink

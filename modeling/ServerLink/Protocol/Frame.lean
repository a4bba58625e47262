import ServerLink.Lib.Mealy
import ServerLink.Protocol.Wire

/-!
# ServerLink.Protocol.Frame

The framing of ZMTP 2 as a machine over single bytes: a flags byte, a length of one or
eight bytes, then the payload. This is what the decoder is for; it knows nothing of
buffers, pointers and batches. `V2Decoder` is shown to refine it.
-/

namespace ServerLink

open List V2Protocol

/-- A frame as the peer meant it. -/
structure Frame where
  more : Bool
  command : Bool
  payload : List UInt8
  deriving Repr, DecidableEq

/-- How far the frame that is being received has come. -/
inductive FrameState
  /-- At a frame boundary. -/
  | flags
  | oneByteSize (more command : Bool)
  /-- The bytes of the length field received so far. -/
  | eightByteSize (more command : Bool) (got : List UInt8)
  /-- `rest` bytes of the payload are missing. -/
  | body (more command : Bool) (rest : Nat) (got : List UInt8)
  /-- A frame announced a size that is not accepted. -/
  | refused
  deriving Repr, DecidableEq

namespace FrameState

variable {bs : List UInt8}

/-- The size of the frame is known. -/
def sizeKnown (accepts : Nat → Bool) (more command : Bool) (n : Nat) : FrameState × Option Frame :=
  if !accepts n then (.refused, none)
  else if n = 0 then (.flags, some ⟨more, command, []⟩)
  else (.body more command n [], none)

/-- Receive one byte. `accepts` says which sizes of a frame the receiver takes. -/
def step (accepts : Nat → Bool) : FrameState → UInt8 → FrameState × Option Frame
  | .flags, b =>
    let more := b &&& moreFlag != 0
    let command := b &&& commandFlag != 0
    if b &&& largeFlag != 0 then (.eightByteSize more command [], none)
    else (.oneByteSize more command, none)
  | .oneByteSize more command, b => sizeKnown accepts more command b.toNat
  | .eightByteSize more command got, b =>
    if got.length + 1 < 8 then (.eightByteSize more command (got ++ [b]), none)
    else sizeKnown accepts more command (getUint64 (got ++ [b]))
  | .body more command rest got, b =>
    if rest ≤ 1 then (.flags, some ⟨more, command, got ++ [b]⟩)
    else (.body more command (rest - 1) (got ++ [b]), none)
  | .refused, _ => (.refused, none)

/-- The frames of a byte string, from a state. -/
abbrev feed (accepts : Nat → Bool) : FrameState → List UInt8 → FrameState × List Frame :=
  Mealy.feed (step accepts)

variable {A : Nat → Bool} {more command : Bool}

theorem feed_append {s s' : FrameState} {out : List Frame} (cs : List UInt8)
    (h : feed A s bs = (s', out)) :
    feed A s (bs ++ cs) = ((feed A s' cs).1, out ++ (feed A s' cs).2) :=
  Mealy.feed_append_of_eq cs h

theorem feed_singleton (s : FrameState) (b : UInt8) :
    feed A s [b] = ((step A s b).1, (step A s b).2.toList) :=
  Mealy.feed_singleton s b

/-! ### What the machine refuses -/

/-- Nothing is refused before the last of the bytes. -/
def Unrefused (A : Nat → Bool) (s : FrameState) (bs : List UInt8) : Prop :=
  ∀ p q, bs = p ++ q → q ≠ [] → (feed A s p).1 ≠ .refused

theorem Unrefused.append {s : FrameState} {cs : List UInt8} (hb : Unrefused A s bs)
    (hc : Unrefused A (feed A s bs).1 cs) : Unrefused A s (bs ++ cs) := by
  intro p q hpq hq
  rcases append_eq_append_iff.mp hpq with ⟨p', rfl, hcs⟩ | ⟨q', rfl, rfl⟩
  · -- The cut lies in the second part.
    rw [feed_append p' rfl]
    exact hc p' q hcs hq
  by_cases hq' : q' = []
  · subst hq'
    have h0 := hc [] cs rfl (by simpa using hq)
    simpa using h0
  · exact hb p q' rfl hq'

/-- The size that a byte completes, if it is the last one of a length field. -/
def announced : FrameState → UInt8 → Option Nat
  | .oneByteSize _ _, b => some b.toNat
  | .eightByteSize _ _ got, b =>
    if got.length + 1 < 8 then none else some (getUint64 (got ++ [b]))
  | _, _ => none

/-- The sizes that the frames of a byte string announce. -/
def sizes (A : Nat → Bool) (s : FrameState) (bs : List UInt8) : List Nat :=
  (Mealy.feed (fun s b => ((step A s b).1, announced s b)) s bs).2

theorem step_congr {B : Nat → Bool} {s : FrameState} {b : UInt8}
    (h : ∀ n, announced s b = some n → B n = A n) : step B s b = step A s b := by
  cases s with
  | oneByteSize more command => simp only [step, sizeKnown, h _ rfl]
  | eightByteSize more command got =>
    simp only [step]
    by_cases hlt : got.length + 1 < 8
    · rw [if_pos hlt, if_pos hlt]
    · rw [if_neg hlt, if_neg hlt, sizeKnown, sizeKnown, h _ (if_neg hlt)]
  | flags => rfl
  | body => rfl
  | refused => rfl

/-- Only the sizes that are announced matter. -/
theorem feed_congr {B : Nat → Bool} (bs : List UInt8) {s : FrameState}
    (h : ∀ n ∈ sizes A s bs, B n = A n) : feed B s bs = feed A s bs := by
  induction bs generalizing s with
  | nil => rfl
  | cons b bs ih =>
    have hstep : step B s b = step A s b := step_congr fun n hn => h n (by
      simp [sizes, Mealy.feed_cons, hn])
    have hrest := ih (s := (step A s b).1) fun n hn => h n (by
      exact mem_append_right _ hn)
    simp only [feed] at hrest ⊢
    rw [Mealy.feed_cons, Mealy.feed_cons, hstep, hrest]

theorem sizes_subset_append (s : FrameState) (bs cs : List UInt8) :
    sizes A s bs ⊆ sizes A s (bs ++ cs) := by
  intro n hn
  rw [sizes, Mealy.feed_append]
  exact mem_append_left _ hn

/-! ### Whole fields -/

theorem feed_refused (bs : List UInt8) : feed A .refused bs = (.refused, []) :=
  Mealy.feed_of_absorbing (fun _ => rfl) bs

theorem feed_eightByteSize_lt (got : List UInt8) (h : got.length + bs.length < 8) :
    feed A (.eightByteSize more command got) bs =
      (.eightByteSize more command (got ++ bs), []) := by
  induction bs generalizing got with
  | nil => simp
  | cons b bs ih =>
    have hlt : got.length + 1 < 8 := by
      simp only [length_cons] at h
      omega
    have hrest := ih (got ++ [b]) (by simp at h ⊢; omega)
    rw [feed, Mealy.feed_cons]
    simp only [step, if_pos hlt, hrest]
    simp

theorem feed_eightByteSize_eq {got : List UInt8} (hne : bs ≠ []) (h : got.length + bs.length = 8) :
    feed A (.eightByteSize more command got) bs =
      ((sizeKnown A more command (getUint64 (got ++ bs))).1,
        (sizeKnown A more command (getUint64 (got ++ bs))).2.toList) := by
  obtain ⟨init, b, rfl⟩ : ∃ init b, bs = init ++ [b] :=
    ⟨bs.dropLast, bs.getLast hne, (dropLast_concat_getLast hne).symm⟩
  simp only [length_append, length_singleton] at h
  have hlast : ¬ (got ++ init).length + 1 < 8 := by
    simp only [length_append]
    omega
  rw [feed_append _ (feed_eightByteSize_lt got (by omega)), feed_singleton]
  simp only [step, if_neg hlast, nil_append, append_assoc]

theorem feed_body_lt {rest : Nat} (got : List UInt8) (h : bs.length < rest) :
    feed A (.body more command rest got) bs =
      (.body more command (rest - bs.length) (got ++ bs), []) := by
  induction bs generalizing rest got with
  | nil => simp
  | cons b bs ih =>
    simp only [length_cons] at h
    have hgt : ¬ rest ≤ 1 := by omega
    have hrest := ih (got ++ [b]) (show bs.length < rest - 1 by omega)
    rw [feed, Mealy.feed_cons]
    simp only [step, if_neg hgt, hrest]
    simp
    omega

theorem feed_body_eq {rest : Nat} {got : List UInt8} (hne : bs ≠ []) (h : bs.length = rest) :
    feed A (.body more command rest got) bs = (.flags, [⟨more, command, got ++ bs⟩]) := by
  obtain ⟨init, b, rfl⟩ : ∃ init b, bs = init ++ [b] :=
    ⟨bs.dropLast, bs.getLast hne, (dropLast_concat_getLast hne).symm⟩
  simp only [length_append, length_singleton] at h
  have hlast : rest - init.length ≤ 1 := by omega
  rw [feed_append _ (feed_body_lt got (by omega)), feed_singleton]
  simp only [step, if_pos hlast]
  simp

variable (more command) in
/-- A size field followed by the payload it announces. -/
theorem feed_sizeKnown {n : Nat} (hA : A n = true) (h : bs.length = n) :
    (feed A (sizeKnown A more command n).1 bs).1 = .flags ∧
      (sizeKnown A more command n).2.toList ++ (feed A (sizeKnown A more command n).1 bs).2 =
        [⟨more, command, bs⟩] := by
  unfold sizeKnown
  rw [hA, if_neg (by simp)]
  by_cases hn : n = 0
  · obtain rfl : bs = [] := length_eq_zero_iff.mp (h.trans hn)
    simp [hn]
  have hne : bs ≠ [] := by
    rintro rfl
    exact hn h.symm
  simp [if_neg hn, feed_body_eq hne h]

/-! ### Whole frames -/

theorem feed_small {f : UInt8} {n : Nat} (hA : A n = true)
    (hf : (f &&& largeFlag != 0) = false) (hn : n < 256) (h : bs.length = n) :
    feed A .flags (f :: UInt8.ofNat n :: bs) =
      (.flags, [⟨f &&& moreFlag != 0, f &&& commandFlag != 0, bs⟩]) := by
  have hsize : (UInt8.ofNat n).toNat = n := by simp [Nat.mod_eq_of_lt hn]
  obtain ⟨h1, h2⟩ := feed_sizeKnown (f &&& moreFlag != 0)
    (f &&& commandFlag != 0) hA h
  simp only [step, hf, Bool.false_eq_true, if_false, Mealy.feed_cons, hsize]
  rw [h1, h2]
  rfl

theorem feed_large {f : UInt8} {n : Nat} (hA : A n = true)
    (hf : (f &&& largeFlag != 0) = true) (hn : n < 2 ^ 64) (h : bs.length = n) :
    feed A .flags (f :: (putUint64 n ++ bs)) =
      (.flags, [⟨f &&& moreFlag != 0, f &&& commandFlag != 0, bs⟩]) := by
  obtain ⟨h1, h2⟩ := feed_sizeKnown (f &&& moreFlag != 0)
    (f &&& commandFlag != 0) hA h
  rw [feed, Mealy.feed_cons]
  simp only [step, hf, if_true]
  rw [Mealy.feed_append_of_eq _ (feed_eightByteSize_eq (by simp [putUint64]) (by simp)),
    nil_append, getUint64_putUint64 hn]
  rw [h1, h2]
  rfl

end FrameState

end ServerLink

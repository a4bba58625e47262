import Mathlib.Data.List.Basic
import Mathlib.Data.List.Infix

/-!
# ServerLink.Pattern.GlobPattern

Glob patterns (`glob_pattern.cpp`): `compile` cuts a pattern into segments and fails on a
character class that is not closed or that holds a range with its ends the wrong way
round; `matchImpl` compares the segments with the data.

`Matches` says what a list of segments means, without saying how to find the match:
the data is cut into one piece per segment. `matchImpl_iff` relates the two.
-/

namespace ServerLink

/-- `glob_pattern_t::segment_t`. -/
inductive Segment
  | literal (literalChar : UInt8)
  | star
  | question
  | charClass (charSet : List UInt8) (charRanges : List (UInt8 × UInt8)) (negate : Bool)
  deriving Repr, DecidableEq

namespace Segment

/-- `char_class_match`, on the fields of the segment. -/
def charClassMatch (charSet : List UInt8) (charRanges : List (UInt8 × UInt8)) (negate : Bool)
    (ch : UInt8) : Bool :=
  let matched := charSet.contains ch || charRanges.any fun r => r.1 ≤ ch && ch ≤ r.2
  if negate then !matched else matched

/-- The bytes a segment other than a star takes. -/
def takes : Segment → UInt8 → Bool
  | literal c, ch => ch == c
  | star, _ => false
  | question, _ => true
  | charClass set ranges negate, ch => charClassMatch set ranges negate ch

end Segment

/-- `glob_pattern_t`, compiled. -/
abbrev GlobPattern := List Segment

namespace GlobPattern

/-- The loop of `parse_char_class`, from behind the negation on: the segment and what
follows the closing bracket. `none` is an exception. -/
def parseClassContents (charSet : List UInt8) (charRanges : List (UInt8 × UInt8))
    (negate : Bool) : List UInt8 → Option (Segment × List UInt8)
  | [] => none
  | ch :: rest =>
    if ch = 93 then some (.charClass charSet charRanges negate, rest)
    else
      match rest with
      | dash :: last :: rest' =>
        if dash = 45 ∧ last ≠ 93 then
          if ch > last then none
          else parseClassContents charSet (charRanges ++ [(ch, last)]) negate rest'
        else parseClassContents (charSet ++ [ch]) charRanges negate (dash :: last :: rest')
      | rest => parseClassContents (charSet ++ [ch]) charRanges negate rest

/-- `parse_char_class`, called behind the opening bracket. -/
def parseCharClass : List UInt8 → Option (Segment × List UInt8)
  | [] => none
  | ch :: rest =>
    if ch = 94 ∨ ch = 33 then parseClassContents [] [] true rest
    else parseClassContents [] [] false (ch :: rest)

/-- The loop of `compile`. Every round consumes at least one character. -/
def compileLoop : Nat → List UInt8 → Option GlobPattern
  | _, [] => some []
  | 0, _ :: _ => none
  | fuel + 1, ch :: rest =>
    if ch = 42 then (compileLoop fuel rest).map (.star :: ·)
    else if ch = 63 then (compileLoop fuel rest).map (.question :: ·)
    else if ch = 91 then
      match parseCharClass rest with
      | none => none
      | some (seg, rest') => (compileLoop fuel rest').map (seg :: ·)
    else if ch = 92 then
      match rest with
      | [] => (compileLoop fuel rest).map (.literal ch :: ·)
      | escaped :: rest' => (compileLoop fuel rest').map (.literal escaped :: ·)
    else (compileLoop fuel rest).map (.literal ch :: ·)

/-- `glob_pattern_t (pattern)`: `none` is an exception. -/
def compile (pattern : List UInt8) : Option GlobPattern := compileLoop pattern.length pattern

/-- `match_impl`. A star tries every rest of the data, from the longest on. -/
def matchImpl : GlobPattern → List UInt8 → Bool
  | [], data => data.isEmpty
  | .star :: segs, data => data.tails.any (matchImpl segs)
  | _ :: _, [] => false
  | seg :: segs, ch :: data => seg.takes ch && matchImpl segs data

/-! ### The fuel of the scanner -/

theorem parseClassContents_length {charSet : List UInt8} {charRanges : List (UInt8 × UInt8)}
    {negate : Bool} {pattern : List UInt8} {seg : Segment} {rest : List UInt8}
    (h : parseClassContents charSet charRanges negate pattern = some (seg, rest)) :
    rest.length < pattern.length := by
  fun_induction parseClassContents charSet charRanges negate pattern with
  | case1 => cases h
  | case2 set ranges tail =>
    cases h
    simp
  | case3 => cases h
  | case4 set ranges ch _ dash last tail _ _ ih =>
    have := ih h
    simp only [List.length_cons]
    omega
  | case5 set ranges ch _ dash last tail _ ih =>
    have := ih h
    simp only [List.length_cons] at this ⊢
    omega
  | case6 set ranges ch tail _ _ ih =>
    have := ih h
    simp only [List.length_cons]
    omega

theorem parseCharClass_length {pattern : List UInt8} {seg : Segment} {rest : List UInt8}
    (h : parseCharClass pattern = some (seg, rest)) : rest.length < pattern.length := by
  unfold parseCharClass at h
  split at h
  · cases h
  split at h
  · have := parseClassContents_length h
    simp only [List.length_cons]
    omega
  · exact parseClassContents_length h

/-- The scanner does not run out of fuel: more of it changes nothing. -/
theorem compileLoop_fuel : ∀ {fuel : Nat} {pattern : List UInt8}, pattern.length ≤ fuel →
    compileLoop fuel pattern = compile pattern := by
  intro fuel
  induction fuel using Nat.strongRecOn with
  | _ fuel ih =>
    intro pattern hlen
    unfold compile
    cases pattern with
    | nil => cases fuel <;> rfl
    | cons ch rest =>
      obtain ⟨f, rfl⟩ : ∃ f, fuel = f + 1 := ⟨fuel - 1, by simp at hlen; omega⟩
      -- Both sides go on with what is left, which is shorter.
      have hrest : ∀ tail : List UInt8, tail.length ≤ rest.length →
          compileLoop f tail = compileLoop rest.length tail := by
        intro tail htail
        simp only [List.length_cons] at hlen
        rw [ih f (Nat.lt_succ_self f) (by omega)]
        rcases Nat.lt_or_ge rest.length (f + 1) with hlt | hge
        · exact (ih rest.length hlt htail).symm
        · omega
      rw [List.length_cons, compileLoop.eq_def (f + 1), compileLoop.eq_def (rest.length + 1)]
      simp only [hrest rest (Nat.le_refl _)]
      cases hc : parseCharClass rest with
      | none =>
        cases rest with
        | nil => rfl
        | cons escaped rest' => simp only [hrest rest' (by simp)]
      | some r =>
        obtain ⟨seg, tail⟩ := r
        simp only [hrest tail (Nat.le_of_lt (parseCharClass_length hc))]
        cases rest with
        | nil => rfl
        | cons escaped rest' => simp only [hrest rest' (by simp)]

/-! ### What a pattern means -/

/-- The data is cut into one piece per segment: any piece for a star, one byte the
segment takes otherwise. -/
inductive Matches : GlobPattern → List UInt8 → Prop
  | nil : Matches [] []
  | star (piece : List UInt8) {segs : GlobPattern} {data : List UInt8}
      (rest : Matches segs data) : Matches (.star :: segs) (piece ++ data)
  | one {seg : Segment} {ch : UInt8} (h : seg.takes ch = true) {segs : GlobPattern}
      {data : List UInt8} (rest : Matches segs data) : Matches (seg :: segs) (ch :: data)

theorem matchImpl_cons {seg : Segment} (hstar : seg ≠ .star) (segs : GlobPattern)
    (data : List UInt8) :
    matchImpl (seg :: segs) data =
      match data with
      | [] => false
      | ch :: data => seg.takes ch && matchImpl segs data := by
  cases data <;> cases seg <;> first | rfl | exact absurd rfl hstar

theorem matchImpl_iff : ∀ {segs : GlobPattern} {data : List UInt8},
    matchImpl segs data = true ↔ Matches segs data := by
  intro segs
  induction segs with
  | nil =>
    intro data
    rw [matchImpl, List.isEmpty_iff]
    constructor
    · intro h
      rw [h]
      exact .nil
    · intro h
      cases h
      rfl
  | cons seg segs ih =>
    intro data
    by_cases hstar : seg = .star
    · subst hstar
      rw [matchImpl, List.any_eq_true]
      constructor
      · rintro ⟨tail, htail, hm⟩
        obtain ⟨piece, rfl⟩ := (List.mem_tails _ _).mp htail
        exact .star piece (ih.mp hm)
      intro h
      cases h with
      | star piece rest => exact ⟨_, (List.mem_tails _ _).mpr ⟨piece, rfl⟩, ih.mpr rest⟩
      | one htakes _ => cases htakes
    cases data with
    | nil =>
      rw [matchImpl_cons hstar]
      refine iff_of_false (by simp) fun h => ?_
      generalize hd : ([] : List UInt8) = d at h
      cases h with
      | star piece rest => exact hstar rfl
      | one _ _ => cases hd
    | cons ch data =>
      rw [matchImpl_cons hstar, Bool.and_eq_true, ih]
      constructor
      · exact fun h => .one h.1 h.2
      intro h
      generalize hd : ch :: data = d at h
      cases h with
      | star piece rest => exact absurd rfl hstar
      | one htakes rest =>
        cases hd
        exact ⟨htakes, rest⟩

end GlobPattern

end ServerLink

import ServerLink.Pattern.GlobPattern

/-!
# ServerLink.Pattern.GlobGrammar

What a pattern says, apart from how it is compiled. A pattern is read from left to right as a
sequence of elements: stars, question marks, classes, and bytes that stand for themselves, with or
without a backslash. `Scans` is the reading; `Element.Takes` says which piece of the data an element
takes. A class ends at the first closing bracket, so its contents are cut out first and read as
members and ranges afterwards: no range ever reaches over the bracket.

* `compile_scan` — `compile` follows the reading, and fails at a class with a reversed range;
* `matches_iff_pieces` — a match is a cut of the data into one piece per element.
-/

namespace ServerLink

open List

namespace GlobPattern

variable {rest : List UInt8} {ch : UInt8}

/-! ### The grammar -/

/-- A member of a class, or a range of them. -/
inductive ClassItem
  | member (ch : UInt8)
  | range (first last : UInt8)
  deriving Repr, DecidableEq

/-- The contents of a class (`-` is 45). A dash between two bytes makes a range of them. -/
def classItems : List UInt8 → List ClassItem
  | [] => []
  | ch :: rest =>
    match rest with
    | dash :: last :: rest' =>
      if dash = 45 then .range ch last :: classItems rest'
      else .member ch :: classItems (dash :: last :: rest')
    | rest => .member ch :: classItems rest

def ClassItem.Holds : ClassItem → UInt8 → Prop
  | member c, ch => ch = c
  | range first last, ch => first ≤ ch ∧ ch ≤ last

/-- The class is complemented: it starts with `^` (94) or `!` (33). -/
def negated : List UInt8 → Bool
  | [] => false
  | ch :: _ => ch = 94 ∨ ch = 33

/-- What follows the opening bracket, without the sign for the complement. -/
def classBody (text : List UInt8) : List UInt8 := if negated text then text.tail else text

/-- An element of a pattern. -/
inductive Element
  | star
  | question
  | charClass (negate : Bool) (contents : List UInt8)
  | literal (ch : UInt8)
  deriving Repr, DecidableEq

/-- The pieces of the data that an element takes. -/
def Element.Takes : Element → List UInt8 → Prop
  | star, _ => True
  | question, piece => ∃ ch, piece = [ch]
  | charClass negate contents, piece =>
    ∃ ch, piece = [ch] ∧ (negate = false ↔ ∃ item ∈ classItems contents, item.Holds ch)
  | literal ch, piece => piece = [ch]

/-- Reading a pattern from left to right gives the elements, and arrives at `rest`. A backslash
(92) at the very end stands for itself. -/
inductive Scans : List UInt8 → List Element → List UInt8 → Prop
  | done (pattern : List UInt8) : Scans pattern [] pattern
  | star {pattern rest : List UInt8} {es : List Element} :
    Scans pattern es rest → Scans (42 :: pattern) (.star :: es) rest
  | question {pattern rest : List UInt8} {es : List Element} :
    Scans pattern es rest → Scans (63 :: pattern) (.question :: es) rest
  | charClass {text contents pattern rest : List UInt8} {es : List Element} :
    classBody text = contents ++ 93 :: pattern → 93 ∉ contents → Scans pattern es rest →
      Scans (91 :: text) (.charClass (negated text) contents :: es) rest
  | escaped (ch : UInt8) {pattern rest : List UInt8} {es : List Element} :
    Scans pattern es rest → Scans (92 :: ch :: pattern) (.literal ch :: es) rest
  | backslash : Scans [92] [.literal 92] []
  | literal {ch : UInt8} {pattern rest : List UInt8} {es : List Element} :
    ch ∉ [42, 63, 91, 92] → Scans pattern es rest → Scans (ch :: pattern) (.literal ch :: es) rest

/-- A range whose ends are the wrong way round. -/
def Reversed (contents : List UInt8) : Prop :=
  ∃ first last, .range first last ∈ classItems contents ∧ last < first

/-- Behind an opening bracket: the class is not closed, or it has a reversed range before it is. -/
def Faulty (text : List UInt8) : Prop :=
  93 ∉ classBody text ∨
    ∃ contents pattern, classBody text = contents ++ 93 :: pattern ∧ 93 ∉ contents ∧
      Reversed contents

/-! ### The contents of a class -/

def ClassItem.member? : ClassItem → Option UInt8
  | member ch => some ch
  | range _ _ => none

def ClassItem.range? : ClassItem → Option (UInt8 × UInt8)
  | member _ => none
  | range first last => some (first, last)

/-- The segment of a class. -/
def classSegment (negate : Bool) (items : List ClassItem) : Segment :=
  .charClass (items.filterMap ClassItem.member?) (items.filterMap ClassItem.range?) negate

theorem mem_classSegment (negate : Bool) (items : List ClassItem) (ch : UInt8) :
    (classSegment negate items).takes ch = true ↔
      (negate = false ↔ ∃ item ∈ items, item.Holds ch) := by
  have hmatched : ((items.filterMap ClassItem.member?).contains ch ||
      (items.filterMap ClassItem.range?).any fun r => r.1 ≤ ch && ch ≤ r.2) = true ↔
        ∃ item ∈ items, item.Holds ch := by
    rw [Bool.or_eq_true, contains_iff_mem, any_eq_true]
    constructor
    · rintro (h | ⟨r, h, hr⟩)
      · obtain ⟨item, hitem, heq⟩ := mem_filterMap.mp h
        cases item with
        | member c => exact ⟨_, hitem, (Option.some.inj heq).symm⟩
        | range first last => cases heq
      obtain ⟨item, hitem, heq⟩ := mem_filterMap.mp h
      cases item with
      | member c => cases heq
      | range first last =>
        cases heq
        exact ⟨_, hitem, by simpa [ClassItem.Holds] using hr⟩
    · rintro ⟨item, hitem, hholds⟩
      cases item with
      | member c =>
        obtain rfl : ch = c := hholds
        exact .inl (mem_filterMap.mpr ⟨_, hitem, rfl⟩)
      | range first last =>
        refine .inr ⟨(first, last), mem_filterMap.mpr ⟨_, hitem, rfl⟩, ?_⟩
        simpa [ClassItem.Holds] using hholds
  unfold classSegment Segment.takes Segment.charClassMatch
  rw [← hmatched]
  cases negate <;> simp

instance (contents : List UInt8) : Decidable (Reversed contents) :=
  decidable_of_iff (∃ item ∈ classItems contents, item.range?.any fun r => r.2 < r.1) (by
    constructor
    · rintro ⟨item, hitem, hrev⟩
      cases item with
      | member c => cases hrev
      | range first last => exact ⟨first, last, hitem, by simpa [ClassItem.range?] using hrev⟩
    · rintro ⟨first, last, hitem, hrev⟩
      exact ⟨_, hitem, by simpa [ClassItem.range?] using hrev⟩)

theorem not_reversed_nil : ¬ Reversed [] := by
  rintro ⟨first, last, hitem, -⟩
  cases hitem

theorem reversed_iff {contents : List UInt8} {item : ClassItem}
    (h : classItems contents = item :: classItems rest) :
    Reversed contents ↔ (∃ r ∈ item.range?, r.2 < r.1) ∨ Reversed rest := by
  unfold Reversed
  rw [h]
  constructor
  · rintro ⟨first, last, hitem, hlt⟩
    rcases mem_cons.mp hitem with rfl | hitem
    · exact .inl ⟨(first, last), rfl, hlt⟩
    · exact .inr ⟨first, last, hitem, hlt⟩
  rintro (⟨r, hr, hlt⟩ | ⟨first, last, hitem, hlt⟩)
  · cases item with
    | member c => cases hr
    | range first last =>
      cases hr
      exact ⟨first, last, mem_cons_self, hlt⟩
  · exact ⟨first, last, mem_cons_of_mem _ hitem, hlt⟩

section Contents

variable {charSet : List UInt8} {charRanges : List (UInt8 × UInt8)} {negate : Bool}

theorem parseClassContents_range {last : UInt8} (hch : ch ≠ 93) (hlast : last ≠ 93)
    (rest : List UInt8) : parseClassContents charSet charRanges negate (ch :: 45 :: last :: rest) =
      if ch > last then none
      else parseClassContents charSet (charRanges ++ [(ch, last)]) negate rest := by
  rw [parseClassContents, if_neg hch]
  simp only [ne_eq, hlast, not_false_eq_true, and_self, if_true]

theorem parseClassContents_member (hch : ch ≠ 93)
    (h : ∀ last rest', rest = 45 :: last :: rest' → last = 93) :
    parseClassContents charSet charRanges negate (ch :: rest) =
      parseClassContents (charSet ++ [ch]) charRanges negate rest := by
  rw [parseClassContents.eq_def]
  simp only [hch, if_false]
  split
  · rename_i dash last rest'
    split
    · rename_i hrange
      obtain ⟨rfl, hlast⟩ := hrange
      exact absurd (h last rest' rfl) hlast
    · rfl
  · rfl

theorem reversed_member (h : classItems (ch :: rest) = .member ch :: classItems rest) :
    Reversed (ch :: rest) ↔ Reversed rest := by
  rw [reversed_iff h]
  refine ⟨fun hor => hor.resolve_left ?_, .inr⟩
  rintro ⟨r, hr, -⟩
  cases hr

theorem parseClassContents_closed {contents : List UInt8} (h : 93 ∉ contents)
    (pattern : List UInt8) :
    parseClassContents charSet charRanges negate (contents ++ 93 :: pattern) =
      if Reversed contents then none
      else some (.charClass (charSet ++ (classItems contents).filterMap ClassItem.member?)
        (charRanges ++ (classItems contents).filterMap ClassItem.range?) negate, pattern) := by
  fun_induction classItems contents generalizing charSet charRanges with
  | case1 =>
    rw [if_neg not_reversed_nil, nil_append, parseClassContents.eq_def]
    simp only [if_true, filterMap_nil, append_nil]
  | case2 ch last rest ih =>
    simp only [mem_cons, not_or] at h
    have hitems : classItems (ch :: 45 :: last :: rest) = .range ch last :: classItems rest := by
      rfl
    rw [cons_append, cons_append, cons_append,
      parseClassContents_range (Ne.symm h.1) (Ne.symm h.2.2.1)]
    by_cases hrev : ch > last
    · rw [if_pos hrev, if_pos ((reversed_iff hitems).mpr (.inl ⟨(ch, last), rfl, hrev⟩))]
    have hiff : Reversed (ch :: 45 :: last :: rest) ↔ Reversed rest := by
      rw [reversed_iff hitems]
      refine ⟨fun hor => hor.resolve_left ?_, .inr⟩
      rintro ⟨r, hr, hlt⟩
      cases hr
      exact hrev hlt
    rw [if_neg hrev, ih h.2.2.2]
    simp only [hiff, filterMap_cons, ClassItem.member?, ClassItem.range?,
      append_assoc, cons_append, nil_append]
  | case3 ch dash last rest hdash ih =>
    have hch : ch ≠ 93 := fun heq => h (heq ▸ mem_cons_self)
    have hitems : classItems (ch :: dash :: last :: rest) =
        .member ch :: classItems (dash :: last :: rest) := by
      rw [classItems, if_neg hdash]
    rw [cons_append, parseClassContents_member hch, ih fun hmem => h (mem_cons_of_mem _ hmem)]
    · simp only [reversed_member hitems, filterMap_cons, ClassItem.member?,
        ClassItem.range?, append_assoc, cons_append, nil_append]
    · intro last' rest' heq
      exact absurd (cons.inj heq).1 hdash
  | case4 ch rest hshort ih =>
    have hch : ch ≠ 93 := fun heq => h (heq ▸ mem_cons_self)
    have hitems : classItems (ch :: rest) = .member ch :: classItems rest := by
      rw [classItems]
      exact hshort
    rw [cons_append, parseClassContents_member hch, ih fun hmem => h (mem_cons_of_mem _ hmem)]
    · simp only [reversed_member hitems, filterMap_cons, ClassItem.member?,
        ClassItem.range?, append_assoc, cons_append, nil_append]
    -- What follows the dash is the closing bracket.
    intro last' rest' heq
    cases rest with
    | nil => exact absurd (cons.inj heq).1 (by decide)
    | cons a rest =>
      cases rest with
      | nil => exact (cons.inj (cons.inj heq).2).1.symm
      | cons b rest => exact (hshort a b rest rfl).elim

theorem parseClassContents_open {body : List UInt8} (h : 93 ∉ body) :
    parseClassContents charSet charRanges negate body = none := by
  fun_induction parseClassContents charSet charRanges negate body with
  | case1 => rfl
  | case2 => exact absurd mem_cons_self h
  | case3 => rfl
  | case4 set ranges ch _ dash last tail _ _ ih =>
    exact ih fun hmem => h (mem_cons_of_mem _ (mem_cons_of_mem _ (mem_cons_of_mem _ hmem)))
  | case5 set ranges ch _ dash last tail _ ih => exact ih fun hmem => h (mem_cons_of_mem _ hmem)
  | case6 set ranges ch tail _ _ ih => exact ih fun hmem => h (mem_cons_of_mem _ hmem)

end Contents

theorem parseCharClass_eq (text : List UInt8) :
    parseCharClass text = parseClassContents [] [] (negated text) (classBody text) := by
  cases text with
  | nil => rfl
  | cons ch rest =>
    by_cases h : ch = 94 ∨ ch = 33
    · have hneg : negated (ch :: rest) = true := decide_eq_true h
      rw [parseCharClass, if_pos h, classBody, hneg, if_pos rfl, tail_cons]
    · have hneg : negated (ch :: rest) = false := decide_eq_false h
      rw [parseCharClass, if_neg h, classBody, hneg, if_neg Bool.false_ne_true]

/-! ### Reading a pattern -/

theorem compile_nil : compile [] = some [] := rfl

theorem compile_star (pattern : List UInt8) :
    compile (42 :: pattern) = (compile pattern).map (.star :: ·) := rfl

theorem compile_question (pattern : List UInt8) :
    compile (63 :: pattern) = (compile pattern).map (.question :: ·) := rfl

theorem compile_literal (h : ch ∉ [42, 63, 91, 92]) (pattern : List UInt8) :
    compile (ch :: pattern) = (compile pattern).map (.literal ch :: ·) := by
  simp only [mem_cons, not_mem_nil, or_false, not_or] at h
  obtain ⟨hstar, hquestion, hopen, hback⟩ := h
  rw [compile, length_cons, compileLoop.eq_def]
  simp only [hstar, hquestion, hopen, hback, if_false]
  rfl

theorem compile_escaped (ch : UInt8) (pattern : List UInt8) :
    compile (92 :: ch :: pattern) = (compile pattern).map (.literal ch :: ·) := by
  have hfuel : compileLoop (pattern.length + 1) pattern = compile pattern :=
    compileLoop_fuel (Nat.le_succ _)
  rw [← hfuel]
  rfl

theorem compile_charClass (text : List UInt8) :
    compile (91 :: text) = (parseCharClass text).bind fun r =>
      (compile r.2).map (r.1 :: ·) := by
  rw [compile, length_cons, compileLoop.eq_def]
  cases hclass : parseCharClass text with
  | none =>
    simp only [hclass]
    rfl
  | some r =>
    have hfuel : compileLoop text.length r.2 = compile r.2 :=
      compileLoop_fuel (Nat.le_of_lt (parseCharClass_length hclass))
    simp only [hclass]
    rw [Option.bind_some, ← hfuel]
    rfl

/-- The segment that an element is compiled to. -/
def Element.segment : Element → Segment
  | star => .star
  | question => .question
  | charClass negate contents => classSegment negate (classItems contents)
  | literal ch => .literal ch

/-- A class without a reversed range, or something else. -/
def Element.Sound : Element → Prop
  | charClass _ contents => ¬ Reversed contents
  | _ => True

instance (e : Element) : Decidable e.Sound := by
  cases e <;> unfold Element.Sound <;> infer_instance

theorem compile_closed {text contents pattern : List UInt8}
    (hbody : classBody text = contents ++ 93 :: pattern) (h : 93 ∉ contents) :
    compile (91 :: text) = if Reversed contents then none
      else (compile pattern).map (classSegment (negated text) (classItems contents) :: ·) := by
  rw [compile_charClass, parseCharClass_eq, hbody, parseClassContents_closed h]
  split <;> rfl

/-- What `compile` makes of the elements, if it makes `o` of what follows them. -/
def segments (es : List Element) (o : Option GlobPattern) : Option GlobPattern :=
  if ∀ e ∈ es, e.Sound then o.map (es.map Element.segment ++ ·) else none

theorem segments_cons {e : Element} (he : e.Sound) (es : List Element) (o : Option GlobPattern) :
    segments (e :: es) o = (segments es o).map (e.segment :: ·) := by
  unfold segments
  simp only [forall_mem_cons, he, true_and]
  split
  · rw [Option.map_map]
    rfl
  · rfl

/-- `compile` follows the reading of the pattern. -/
theorem compile_scan {pattern : List UInt8} {es : List Element} (h : Scans pattern es rest) :
    compile pattern = segments es (compile rest) := by
  induction h with
  | done pattern => exact Option.map_id'.symm
  | star _ ih => rw [compile_star, ih, segments_cons (e := .star) trivial, Element.segment]
  | question _ ih =>
    rw [compile_question, ih, segments_cons (e := .question) trivial, Element.segment]
  | escaped ch _ ih =>
    rw [compile_escaped, ih, segments_cons (e := .literal ch) trivial, Element.segment]
  | @literal ch _ _ _ hch _ ih =>
    rw [compile_literal hch, ih, segments_cons (e := .literal ch) trivial, Element.segment]
  | backslash => rfl
  | @charClass text contents _ _ es hbody hclosed _ ih =>
    rw [compile_closed hbody hclosed]
    split
    · rename_i hrev
      rw [segments, if_neg fun hall => hall _ mem_cons_self hrev]
    · rename_i hrev
      rw [ih, segments_cons (e := .charClass (negated text) contents) hrev, Element.segment]

theorem length_classBody_le (text : List UInt8) : (classBody text).length ≤ text.length := by
  unfold classBody
  split
  · rw [length_tail]
    exact Nat.sub_le _ _
  · exact Nat.le_refl _

/-- The reading goes on to the end, or to a class that is not closed. -/
theorem exists_scan (pattern : List UInt8) : ∃ es rest, Scans pattern es rest ∧
    (rest = [] ∨ ∃ text, rest = 91 :: text ∧ 93 ∉ classBody text) := by
  -- On the length: a class takes away more than its first byte.
  induction hn : pattern.length using Nat.strongRecOn generalizing pattern with
  | _ n ih =>
    cases pattern with
    | nil => exact ⟨[], [], .done [], .inl rfl⟩
    | cons ch pattern =>
      subst hn
      by_cases hstar : ch = 42
      · obtain ⟨es, rest, hscan, hrest⟩ := ih _ (Nat.lt_succ_self _) pattern rfl
        exact ⟨_, rest, hstar ▸ hscan.star, hrest⟩
      by_cases hquestion : ch = 63
      · obtain ⟨es, rest, hscan, hrest⟩ := ih _ (Nat.lt_succ_self _) pattern rfl
        exact ⟨_, rest, hquestion ▸ hscan.question, hrest⟩
      by_cases hback : ch = 92
      · subst hback
        cases pattern with
        | nil => exact ⟨_, [], .backslash, .inl rfl⟩
        | cons ch pattern =>
          obtain ⟨es, rest, hscan, hrest⟩ := ih _ (by simp only [length_cons]; omega) pattern rfl
          exact ⟨_, rest, hscan.escaped ch, hrest⟩
      by_cases hopen : ch = 91
      · subst hopen
        by_cases hclosed : 93 ∈ classBody pattern
        · obtain ⟨contents, tail, hbody, hnot⟩ := eq_append_cons_of_mem hclosed
          have hlen : tail.length < (91 :: pattern).length := by
            have hle := length_classBody_le pattern
            rw [hbody] at hle
            simp only [length_append, length_cons] at hle ⊢
            omega
          obtain ⟨es, rest, hscan, hrest⟩ := ih _ hlen tail rfl
          exact ⟨_, rest, .charClass hbody hnot hscan, hrest⟩
        · exact ⟨[], 91 :: pattern, .done _, .inr ⟨pattern, rfl, hclosed⟩⟩
      · obtain ⟨es, rest, hscan, hrest⟩ := ih _ (Nat.lt_succ_self _) pattern rfl
        refine ⟨_, rest, hscan.literal ?_, hrest⟩
        simp [hstar, hquestion, hback, hopen]

/-- A class with a reversed range is met on the way. -/
theorem exists_faulty {pattern : List UInt8} {es : List Element} (h : Scans pattern es rest)
    (hes : ¬ ∀ e ∈ es, e.Sound) : ∃ es' text, Scans pattern es' (91 :: text) ∧ Faulty text := by
  induction h with
  | done pattern => exact absurd (fun e he => absurd he not_mem_nil) hes
  | star _ ih =>
    obtain ⟨es', text, hscan, hfaulty⟩ := ih fun hall =>
      hes (forall_mem_cons.mpr ⟨trivial, hall⟩)
    exact ⟨_, text, hscan.star, hfaulty⟩
  | question _ ih =>
    obtain ⟨es', text, hscan, hfaulty⟩ := ih fun hall =>
      hes (forall_mem_cons.mpr ⟨trivial, hall⟩)
    exact ⟨_, text, hscan.question, hfaulty⟩
  | escaped ch _ ih =>
    obtain ⟨es', text, hscan, hfaulty⟩ := ih fun hall =>
      hes (forall_mem_cons.mpr ⟨trivial, hall⟩)
    exact ⟨_, text, hscan.escaped ch, hfaulty⟩
  | literal hch _ ih =>
    obtain ⟨es', text, hscan, hfaulty⟩ := ih fun hall =>
      hes (forall_mem_cons.mpr ⟨trivial, hall⟩)
    exact ⟨_, text, hscan.literal hch, hfaulty⟩
  | backslash => exact absurd (forall_mem_singleton.mpr trivial) hes
  | @charClass text contents _ _ _ hbody hclosed _ ih =>
    by_cases hrev : Reversed contents
    · exact ⟨[], text, .done _, .inr ⟨contents, _, hbody, hclosed, hrev⟩⟩
    · obtain ⟨es', text', hscan, hfaulty⟩ := ih fun hall =>
        hes (forall_mem_cons.mpr ⟨hrev, hall⟩)
      exact ⟨_, text', .charClass hbody hclosed hscan, hfaulty⟩

theorem compile_faulty {text : List UInt8} (h : Faulty text) : compile (91 :: text) = none := by
  rcases h with hopen | ⟨contents, pattern, hbody, hclosed, hrev⟩
  · rw [compile_charClass, parseCharClass_eq, parseClassContents_open hopen, Option.bind_none]
  · rw [compile_closed hbody hclosed, if_pos hrev]

theorem compile_eq_none_iff (pattern : List UInt8) :
    compile pattern = none ↔ ∃ es text, Scans pattern es (91 :: text) ∧ Faulty text := by
  constructor
  · intro hnone
    obtain ⟨es, rest, hscan, hrest⟩ := exists_scan pattern
    rcases hrest with rfl | ⟨text, rfl, hopen⟩
    · refine exists_faulty hscan fun hall => ?_
      rw [compile_scan hscan, segments, if_pos hall] at hnone
      cases hnone
    · exact ⟨es, text, hscan, .inl hopen⟩
  · rintro ⟨es, text, hscan, hfaulty⟩
    rw [compile_scan hscan, compile_faulty hfaulty, segments]
    split <;> rfl

/-! ### Matching -/

theorem takes_segment {e : Element} (hstar : e ≠ .star) (piece : List UInt8) :
    e.Takes piece ↔ ∃ ch, piece = [ch] ∧ e.segment.takes ch = true := by
  cases e with
  | star => exact absurd rfl hstar
  | question => simp [Element.Takes, Element.segment, Segment.takes]
  | charClass negate contents => simp only [Element.Takes, Element.segment, mem_classSegment]
  | literal c => simp [Element.Takes, Element.segment, Segment.takes]

theorem segment_eq_star {e : Element} (h : e.segment = .star) : e = .star := by
  cases e with
  | star => rfl
  | question => cases h
  | charClass negate contents => cases h
  | literal ch => cases h

/-- A match is a cut of the data into one piece per element. -/
theorem matches_iff_pieces (es : List Element) (data : List UInt8) :
    Matches (es.map Element.segment) data ↔
      ∃ pieces, List.Forall₂ Element.Takes es pieces ∧ data = pieces.flatten := by
  induction es generalizing data with
  | nil =>
    constructor
    · intro h
      cases h
      exact ⟨[], .nil, rfl⟩
    · rintro ⟨pieces, hpieces, rfl⟩
      cases hpieces
      exact .nil
  | cons e es ih =>
    rw [map_cons]
    constructor
    · intro h
      generalize hseg : e.segment = seg at h
      cases h with
      | star piece rest =>
        obtain ⟨pieces, hpieces, rfl⟩ := (ih _).mp rest
        obtain rfl := segment_eq_star hseg
        exact ⟨piece :: pieces, .cons trivial hpieces, rfl⟩
      | @one _ ch htakes _ _ rest =>
        obtain ⟨pieces, hpieces, rfl⟩ := (ih _).mp rest
        have hstar : e ≠ .star := by
          rintro rfl
          subst hseg
          cases htakes
        exact ⟨[ch] :: pieces, .cons ((takes_segment hstar _).mpr ⟨ch, rfl, hseg ▸ htakes⟩)
          hpieces, rfl⟩
    · rintro ⟨pieces, hpieces, rfl⟩
      cases hpieces with
      | @cons _ piece _ pieces htakes hpieces =>
        have hrest := (ih _).mpr ⟨pieces, hpieces, rfl⟩
        by_cases hstar : e = .star
        · subst hstar
          exact .star piece hrest
        · obtain ⟨ch, rfl, hone⟩ := (takes_segment hstar _).mp htakes
          exact .one hone hrest

/-- A pattern in which a backslash is put before every byte. -/
def escape (s : List UInt8) : List UInt8 := s.flatMap fun ch => [92, ch]

theorem scans_escape (s : List UInt8) : Scans (escape s) (s.map .literal) [] := by
  induction s with
  | nil => exact .done []
  | cons ch s ih => exact ih.escaped ch

theorem pieces_literal {s : List UInt8} {pieces : List (List UInt8)} :
    List.Forall₂ Element.Takes (s.map .literal) pieces ↔ pieces = s.map fun ch => [ch] := by
  induction s generalizing pieces with
  | nil =>
    constructor
    · intro h
      cases h
      rfl
    · rintro rfl
      exact .nil
  | cons ch s ih =>
    constructor
    · intro h
      cases h with
      | cons htakes hpieces => rw [map_cons, htakes, ih.mp hpieces]
    · rintro rfl
      exact .cons rfl (ih.mpr rfl)

/-- Patterns mean what the grammar says. -/
theorem glob_grammar (pattern : List UInt8) :
    (compile pattern = none ↔ ∃ es text, Scans pattern es (91 :: text) ∧ Faulty text) ∧
      (∀ segs, compile pattern = some segs → (∃ es, Scans pattern es []) ∧
        ∀ es, Scans pattern es [] → ∀ s, matchImpl segs s = true ↔
          ∃ pieces, List.Forall₂ Element.Takes es pieces ∧ s = pieces.flatten) ∧
      ∀ s t, ∃ segs, compile (escape s) = some segs ∧ (matchImpl segs t = true ↔ t = s) := by
  refine ⟨compile_eq_none_iff pattern, fun segs hsegs => ⟨?_, fun es hscan s => ?_⟩, fun s t => ?_⟩
  · obtain ⟨es, rest, hscan, hrest⟩ := exists_scan pattern
    rcases hrest with rfl | ⟨text, rfl, hopen⟩
    · exact ⟨es, hscan⟩
    · have hnone := (compile_eq_none_iff pattern).mpr ⟨es, text, hscan, .inl hopen⟩
      rw [hsegs] at hnone
      cases hnone
  · rw [compile_scan hscan, segments] at hsegs
    split at hsegs
    · rw [compile_nil, Option.map_some, append_nil] at hsegs
      cases hsegs
      rw [matchImpl_iff, matches_iff_pieces]
    · cases hsegs
  have hsound : ∀ e ∈ s.map Element.literal, e.Sound := by
    intro e he
    obtain ⟨ch, -, rfl⟩ := mem_map.mp he
    trivial
  refine ⟨(s.map Element.literal).map Element.segment, ?_, ?_⟩
  · rw [compile_scan (scans_escape s), segments, if_pos hsound, compile_nil, Option.map_some,
      append_nil]
  · rw [matchImpl_iff, matches_iff_pieces]
    simp only [pieces_literal, exists_eq_left]
    rw [← flatMap_def, flatMap_singleton']

end GlobPattern

end ServerLink

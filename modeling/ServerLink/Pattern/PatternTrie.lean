import Mathlib.Algebra.Group.Nat.Defs
import Mathlib.Data.Finset.Card
import Mathlib.Data.Multiset.AddSub
import ServerLink.Pattern.GlobPattern

/-!
# ServerLink.Pattern.PatternTrie

The pattern subscriptions of a subscriber (`pattern_trie.cpp`): a vector of patterns, each
with its compiled form and a 32-bit count of the subscriptions to it.

A pattern trie is a multiset of valid patterns: `Refines` relates the two, and
`add_spec`, `rm_spec` and `check_iff` say what the operations do to it.
-/

namespace ServerLink

open Multiset GlobPattern

/-- `pattern_trie_t::pattern_entry_t`. -/
structure PatternEntry where
  patternStr : List UInt8
  matcher : GlobPattern
  refcount : Nat
  deriving Repr, DecidableEq

/-- `pattern_trie_t`. -/
structure PatternTrie where
  patterns : List PatternEntry

namespace PatternTrie

def empty : PatternTrie := ⟨[]⟩

/-- `find_pattern`: the position of the pattern, the end if it is not there. -/
def findPattern (t : PatternTrie) (pattern : List UInt8) : Nat :=
  t.patterns.findIdx fun e => e.patternStr == pattern

/-- `add`: true if the pattern is new (and valid). -/
def add (t : PatternTrie) (pattern : List UInt8) : PatternTrie × Bool :=
  match t.patterns[t.findPattern pattern]? with
  | some e =>
    (⟨t.patterns.set (t.findPattern pattern) { e with refcount := (e.refcount + 1) % 2 ^ 32 }⟩,
      false)
  | none =>
    match compile pattern with
    | some matcher => (⟨t.patterns ++ [⟨pattern, matcher, 1⟩]⟩, true)
    | none => (t, false)

/-- `rm`: true if the pattern was there. -/
def rm (t : PatternTrie) (pattern : List UInt8) : PatternTrie × Bool :=
  match t.patterns[t.findPattern pattern]? with
  | none => (t, false)
  | some e =>
    let refcount := (e.refcount + 2 ^ 32 - 1) % 2 ^ 32
    if refcount = 0 then (⟨t.patterns.eraseIdx (t.findPattern pattern)⟩, true)
    else (⟨t.patterns.set (t.findPattern pattern) { e with refcount }⟩, true)

/-- `check`: some pattern matches the data. -/
def check (t : PatternTrie) (data : List UInt8) : Bool :=
  t.patterns.any fun e => e.matcher.matchImpl data

def numPatterns (t : PatternTrie) : Nat := t.patterns.length

/-! ### The multiset of patterns -/

/-- A pattern that compiles. -/
def Valid (pattern : List UInt8) : Prop := (compile pattern).isSome = true

instance (pattern : List UInt8) : Decidable (Valid pattern) := inferInstanceAs (Decidable (_ = _))

/-- The data matches the pattern as a whole. -/
def PatternMatches (pattern data : List UInt8) : Prop :=
  ∃ segs, compile pattern = some segs ∧ GlobPattern.Matches segs data

instance (pattern data : List UInt8) : Decidable (PatternMatches pattern data) :=
  decidable_of_iff ((compile pattern).any (·.matchImpl data) = true) (by
    unfold PatternMatches
    cases compile pattern with
    | none => simp
    | some segs => simp [matchImpl_iff])

/-- The vector holds every pattern of the multiset once, with its multiplicity. -/
structure Refines (t : PatternTrie) (m : Multiset (List UInt8)) : Prop where
  nodup : (t.patterns.map PatternEntry.patternStr).Nodup
  entry : ∀ e ∈ t.patterns, compile e.patternStr = some e.matcher ∧
    e.refcount = m.count e.patternStr ∧ 0 < e.refcount ∧ e.refcount < 2 ^ 32
  mem : ∀ p ∈ m, ∃ e ∈ t.patterns, e.patternStr = p

variable {t : PatternTrie} {m : Multiset (List UInt8)}

theorem empty_refines : empty.Refines 0 :=
  ⟨List.nodup_nil, by simp [empty], by simp⟩

theorem Refines.numPatterns_eq (h : t.Refines m) : t.numPatterns = m.toFinset.card := by
  have hset : (t.patterns.map PatternEntry.patternStr).toFinset = m.toFinset := by
    ext p
    rw [List.mem_toFinset, mem_toFinset, List.mem_map]
    constructor
    · rintro ⟨e, he, rfl⟩
      obtain ⟨-, hcount, hpos, -⟩ := h.entry e he
      exact count_pos.mp (by omega)
    · intro hp
      obtain ⟨e, he, heq⟩ := h.mem p hp
      exact ⟨e, he, heq⟩
  rw [← hset, List.toFinset_card_of_nodup h.nodup, List.length_map]
  rfl

theorem Refines.numPatterns_eq_zero (h : t.Refines m) : t.numPatterns = 0 ↔ m = 0 := by
  rw [h.numPatterns_eq, Finset.card_eq_zero, toFinset_eq_empty]

/-- `check` finds the patterns of the multiset that match. -/
theorem Refines.check_iff (h : t.Refines m) {data : List UInt8} :
    t.check data = true ↔ ∃ p ∈ m, PatternMatches p data := by
  unfold check
  rw [List.any_eq_true]
  constructor
  · rintro ⟨e, he, hmatch⟩
    obtain ⟨hcompile, hcount, hpos, -⟩ := h.entry e he
    refine ⟨e.patternStr, count_pos.mp (by omega), e.matcher, hcompile, ?_⟩
    exact matchImpl_iff.mp hmatch
  rintro ⟨p, hp, segs, hcompile, hmatch⟩
  obtain ⟨e, he, rfl⟩ := h.mem p hp
  obtain ⟨hcompile', -⟩ := h.entry e he
  rw [hcompile] at hcompile'
  cases hcompile'
  exact ⟨e, he, matchImpl_iff.mpr hmatch⟩

/-- A pattern is not there, or the vector splits at its entry. -/
theorem findPattern_cases (t : PatternTrie) (pattern : List UInt8) :
    (t.patterns[t.findPattern pattern]? = none ∧ ∀ e ∈ t.patterns, e.patternStr ≠ pattern) ∨
      ∃ pre e post, t = ⟨pre ++ e :: post⟩ ∧ e.patternStr = pattern ∧
        t.findPattern pattern = pre.length := by
  unfold findPattern
  by_cases hex : ∃ e ∈ t.patterns, (e.patternStr == pattern) = true
  · right
    have hlt := List.findIdx_lt_length.mpr hex
    generalize hi : t.patterns.findIdx (fun e => e.patternStr == pattern) = i at hlt
    refine ⟨t.patterns.take i, t.patterns[i], t.patterns.drop (i + 1), ?_, ?_, ?_⟩
    · rw [List.getElem_cons_drop, List.take_append_drop]
    · subst hi
      exact eq_of_beq (List.findIdx_getElem (w := hlt))
    · rw [List.length_take, Nat.min_eq_left (Nat.le_of_lt hlt)]
  · left
    have hnot : ∀ e ∈ t.patterns, e.patternStr ≠ pattern :=
      fun e he heq => hex ⟨e, he, beq_iff_eq.mpr heq⟩
    refine ⟨List.getElem?_eq_none ?_, hnot⟩
    rw [List.findIdx_eq_length.mpr]
    · intro e he
      simpa using hnot e he

section Entry

variable {pre post : List PatternEntry} {e : PatternEntry} {m' : Multiset (List UInt8)}
  (h : Refines ⟨pre ++ e :: post⟩ m)
  (hcount : ∀ q, q ≠ e.patternStr → m'.count q = m.count q)

include h hcount

/-- The entries next to one of a given pattern are for other patterns, whose
multiplicities do not change. -/
theorem Refines.others : ∀ e' ∈ pre ++ post, compile e'.patternStr = some e'.matcher ∧
      e'.refcount = m'.count e'.patternStr ∧ 0 < e'.refcount ∧ e'.refcount < 2 ^ 32 := by
  intro e' he'
  have hne : e'.patternStr ≠ e.patternStr := by
    have hnodup := h.nodup
    rw [List.map_append, List.map_cons, List.nodup_middle] at hnodup
    intro heq
    refine (List.nodup_cons.mp hnodup).1 ?_
    rw [← heq, ← List.map_append]
    exact List.mem_map_of_mem he'
  have hmem : e' ∈ pre ++ e :: post := by
    rw [List.mem_append] at he' ⊢
    exact he'.imp_right (List.mem_cons_of_mem _)
  rw [hcount _ hne]
  exact h.entry e' hmem

theorem Refines.mem_others {q : List UInt8} (hq : q ∈ m') (hne : q ≠ e.patternStr) :
    ∃ e' ∈ pre ++ post, e'.patternStr = q := by
  have hq' : q ∈ m := by
    rw [← count_pos, ← hcount q hne]
    exact count_pos.mpr hq
  obtain ⟨e', he', rfl⟩ := h.mem q hq'
  refine ⟨e', ?_, rfl⟩
  rw [List.mem_append, List.mem_cons, or_left_comm, ← List.mem_append] at he'
  rcases he' with rfl | he'
  · exact absurd rfl hne
  · exact he'

/-- The multiplicity of one pattern changes. -/
theorem Refines.update {r : Nat} (hr : r = m'.count e.patternStr) (hpos : 0 < r)
    (hlt : r < 2 ^ 32) : Refines ⟨pre ++ { e with refcount := r } :: post⟩ m' := by
  refine ⟨by simpa using h.nodup, fun e' he' => ?_, fun q hq => ?_⟩
  · rw [List.mem_append, List.mem_cons, or_left_comm, ← List.mem_append] at he'
    rcases he' with rfl | he'
    · exact ⟨(h.entry e (by simp)).1, hr, hpos, hlt⟩
    · exact h.others hcount e' he'
  by_cases hne : q = e.patternStr
  · exact ⟨{ e with refcount := r }, by simp, hne.symm⟩
  · obtain ⟨e', he', rfl⟩ := h.mem_others hcount hq hne
    rw [List.mem_append] at he'
    exact ⟨e', List.mem_append.mpr (he'.imp_right (List.mem_cons_of_mem _)), rfl⟩

/-- The last subscription to one pattern goes away. -/
theorem Refines.delete (hzero : m'.count e.patternStr = 0) : Refines ⟨pre ++ post⟩ m' := by
  refine ⟨?_, h.others hcount, fun q hq => h.mem_others hcount hq ?_⟩
  · have hnodup := h.nodup
    rw [List.map_append, List.map_cons, List.nodup_middle] at hnodup
    rw [List.map_append]
    exact (List.nodup_cons.mp hnodup).2
  · rintro rfl
    exact count_eq_zero.mp hzero hq

end Entry

theorem Refines.push (h : t.Refines m) {p : List UInt8} {matcher : GlobPattern}
    (hnot : ∀ e ∈ t.patterns, e.patternStr ≠ p)
    (hc : compile p = some matcher) :
    Refines ⟨t.patterns ++ [⟨p, matcher, 1⟩]⟩ (p ::ₘ m) := by
  have hm : p ∉ m := fun hp => by
    obtain ⟨e, he, heq⟩ := h.mem p hp
    exact hnot e he heq
  refine ⟨?_, fun e he => ?_, fun q hq => ?_⟩
  · rw [List.map_append, List.map_singleton, List.nodup_append]
    refine ⟨h.nodup, List.nodup_singleton _, ?_⟩
    intro q hq q' hq' heq
    obtain ⟨e, he, rfl⟩ := List.mem_map.mp hq
    rw [List.mem_singleton] at hq'
    exact hnot e he (heq.trans hq')
  · rcases List.mem_append.mp he with he | he
    · obtain ⟨h1, h2, h3, h4⟩ := h.entry e he
      exact ⟨h1, by rw [count_cons_of_ne (hnot e he), h2], h3, h4⟩
    · obtain rfl := List.mem_singleton.mp he
      refine ⟨hc, ?_, Nat.one_pos, Nat.one_lt_two_pow (by decide)⟩
      rw [count_cons_self, count_eq_zero.mpr hm]
  · rcases mem_cons.mp hq with rfl | hq
    · exact ⟨_, List.mem_append_right _ (List.mem_singleton.mpr rfl), rfl⟩
    · obtain ⟨e, he, rfl⟩ := h.mem q hq
      exact ⟨e, List.mem_append_left _ he, rfl⟩

/-- `add` adds a valid pattern to the multiset and ignores the others. -/
theorem Refines.add (h : t.Refines m) (p : List UInt8) (hroom : m.count p + 1 < 2 ^ 32) :
    (t.add p).1.Refines (if Valid p then p ::ₘ m else m) ∧
      (t.add p).2 = decide (Valid p ∧ p ∉ m) := by
  unfold PatternTrie.add
  rcases findPattern_cases t p with ⟨hnone, hnot⟩ | ⟨pre, e, post, rfl, rfl, hidx⟩
  · have hm : p ∉ m := fun hp => by
      obtain ⟨e, he, heq⟩ := h.mem p hp
      exact hnot e he heq
    rw [hnone]
    cases hc : compile p with
    | none =>
      have hv : ¬ Valid p := by simp [Valid, hc]
      rw [if_neg hv]
      exact ⟨h, by simp [hv]⟩
    | some matcher =>
      have hv : Valid p := by simp [Valid, hc]
      rw [if_pos hv]
      exact ⟨h.push hnot hc, by simp [hv, hm]⟩
  · obtain ⟨h1, h2, h3, h4⟩ := h.entry e (by simp)
    have hm : e.patternStr ∈ m := count_pos.mp (by omega)
    have hv : Valid e.patternStr := by simp [Valid, h1]
    rw [hidx, if_pos hv]
    simp only [List.getElem?_append_right (Nat.le_refl _), Nat.sub_self,
      List.getElem?_cons_zero, List.set_append_right _ _ (Nat.le_refl _), List.set_cons_zero]
    rw [h2, Nat.mod_eq_of_lt hroom]
    have hself := (count_cons_self e.patternStr m).symm
    exact ⟨h.update (fun q hq => count_cons_of_ne hq m) hself (Nat.succ_pos _) hroom, by simp [hm]⟩

theorem Refines.rm (h : t.Refines m) (p : List UInt8) :
    (t.rm p).1.Refines (m.erase p) ∧ (t.rm p).2 = decide (p ∈ m) := by
  unfold PatternTrie.rm
  rcases findPattern_cases t p with ⟨hnone, hnot⟩ | ⟨pre, e, post, rfl, rfl, hidx⟩
  · have hm : p ∉ m := fun hp => by
      obtain ⟨e, he, heq⟩ := h.mem p hp
      exact hnot e he heq
    rw [hnone, erase_of_notMem hm]
    exact ⟨h, by simp [hm]⟩
  obtain ⟨h1, h2, h3, h4⟩ := h.entry e (by simp)
  have hm : e.patternStr ∈ m := count_pos.mp (by omega)
  have hcount : ∀ q, q ≠ e.patternStr → (m.erase e.patternStr).count q = m.count q :=
    fun q hq => count_erase_of_ne hq m
  have hself := count_erase_self e.patternStr m
  rw [hidx]
  simp only [List.getElem?_append_right (Nat.le_refl _), Nat.sub_self,
    List.getElem?_cons_zero, List.set_append_right _ _ (Nat.le_refl _), List.set_cons_zero,
    List.eraseIdx_append_of_length_le (Nat.le_refl _), List.eraseIdx_cons_zero]
  rw [show (e.refcount + 2 ^ 32 - 1) % 2 ^ 32 = e.refcount - 1 by omega]
  by_cases hone : e.refcount - 1 = 0
  · rw [if_pos hone]
    exact ⟨h.delete hcount (by omega), by simp [hm]⟩
  · rw [if_neg hone]
    exact ⟨h.update hcount (by omega) (by omega) (by omega), by simp [hm]⟩

/-- The pattern that is added is the only one. -/
theorem Refines.add_first_iff (h : t.Refines m) (p : List UInt8) (hroom : m.count p + 1 < 2 ^ 32) :
    ((t.add p).2 = true ∧ (t.add p).1.numPatterns = 1) ↔ Valid p ∧ m = 0 := by
  obtain ⟨hadd, hres⟩ := h.add p hroom
  rw [hres, decide_eq_true_iff]
  constructor
  · rintro ⟨⟨hvalid, hnew⟩, hone⟩
    refine ⟨hvalid, ?_⟩
    rw [if_pos hvalid] at hadd
    rw [hadd.numPatterns_eq, toFinset_cons,
      Finset.card_insert_of_notMem (by simpa using hnew)] at hone
    rw [← toFinset_eq_empty, ← Finset.card_eq_zero]
    omega
  · rintro ⟨hvalid, rfl⟩
    refine ⟨⟨hvalid, notMem_zero p⟩, ?_⟩
    rw [hadd.numPatterns_eq, if_pos hvalid]
    simp

/-- The pattern that is given up was the only one. -/
theorem Refines.rm_last_iff (h : t.Refines m) (p : List UInt8) :
    ((t.rm p).2 = true ∧ (t.rm p).1.numPatterns = 0) ↔ p ∈ m ∧ m.erase p = 0 := by
  obtain ⟨hrm, hres⟩ := h.rm p
  rw [hres, decide_eq_true_iff, hrm.numPatterns_eq_zero]

/-! ### Sequences of calls -/

/-- What calls have made of an empty pattern trie, and what they were meant to make of a multiset.
A count has 32 bits. -/
inductive Calls : PatternTrie → Multiset (List UInt8) → Prop
  | empty : Calls empty 0
  | add {t : PatternTrie} {m : Multiset (List UInt8)} (h : Calls t m) (p : List UInt8)
      (hroom : m.count p + 1 < 2 ^ 32) : Calls (t.add p).1 (if Valid p then p ::ₘ m else m)
  | rm {t : PatternTrie} {m : Multiset (List UInt8)} (h : Calls t m) (p : List UInt8) :
      Calls (t.rm p).1 (m.erase p)

theorem Calls.refines (h : Calls t m) : t.Refines m := by
  induction h with
  | empty => exact empty_refines
  | add _ p hroom ih => exact (ih.add p hroom).1
  | rm _ p ih => exact (ih.rm p).1

/-- **The pattern subscriptions are a multiset.** After all calls, `check` accepts what a pattern of
the multiset matches, there is one entry for each of its patterns, `add` returns whether a valid
pattern is new, and `rm` whether the pattern was there. -/
theorem patterns_are_multiset (h : Calls t m) :
    (∀ data, t.check data = true ↔ ∃ p ∈ m, PatternMatches p data) ∧
      t.numPatterns = m.toFinset.card ∧ (∀ p, (t.rm p).2 = decide (p ∈ m)) ∧
      ∀ p, m.count p + 1 < 2 ^ 32 → (t.add p).2 = decide (Valid p ∧ p ∉ m) :=
  ⟨fun _ => h.refines.check_iff, h.refines.numPatterns_eq, fun p => (h.refines.rm p).2,
    fun p hroom => (h.refines.add p hroom).2⟩

/-- Two copies of `*` and one of `a*` are added, with an invalid pattern between them; a copy of
`*` and `a*` go again, and the other copy of `*` stays. -/
theorem patterns_are_multiset_copies : ∃ t, Calls t {[42]} ∧
    t = [[42], [97, 42]].foldl (fun t p => (t.rm p).1)
      ([[42], [42], [91], [97, 42]].foldl (fun t p => (t.add p).1) empty) ∧
    (∀ data, t.check data = true ↔ ∃ p ∈ ({[42]} : Multiset (List UInt8)), PatternMatches p data) ∧
    t.numPatterns = 1 ∧ (t.rm [42]).2 = true ∧ (t.rm [97, 42]).2 = false ∧
    (t.add [42]).2 = false ∧ (t.add [97, 42]).2 = true := by
  have h : Calls _ ((({[97, 42], [42], [42]} : Multiset (List UInt8)).erase [42]).erase [97, 42]) :=
    ((((Calls.empty.add [42] (by decide)).add [42] (by decide)).add [91] (by decide)).add [97, 42]
      (by decide)).rm [42] |>.rm [97, 42]
  obtain ⟨hcheck, hnum, hrm, hadd⟩ := patterns_are_multiset h
  exact ⟨_, h, rfl, hcheck, hnum, hrm _, hrm _, hadd _ (by decide), hadd _ (by decide)⟩

end PatternTrie

end ServerLink

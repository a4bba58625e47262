import Mathlib.Data.List.Sort
import Mathlib.Tactic.Common

/-!
# Multimaps that are traversed

A multimap is a list of entries in the order of their keys; a new entry goes behind the entries
with the same key. A loop that inserts into the map it traverses keeps two iterators: `start`,
where it began, and `it`, where it is. An insertion moves neither of them. A `Cursor` is a map
that is cut at both: the new entry goes before `start`, between the two, or behind `it`, and only
in the last case the loop will come to it.

* `sorted_insert`, `insert_append_of_le` — insertion into a sorted list;
* `Cursor.entries_insert_reset` — a cursor at the first entry;
* `Cursor.entries_insert`, `Cursor.kept_insert` — a cursor at any entry;
* `Cursor.insert_of_le` — an entry that is not before `it`.
-/

namespace Multimap

open List

variable {α : Type}
variable {a : Nat × α}

/-- Insert an entry behind those whose key is not greater. -/
def insert (e : Nat × α) (l : List (Nat × α)) : List (Nat × α) :=
  l.orderedInsert (fun a b => a.1 < b.1) e

/-- The entries are in the order of their keys. -/
def Sorted (l : List (Nat × α)) : Prop := l.Pairwise fun a b => a.1 ≤ b.1

variable {e : Nat × α} {l m : List (Nat × α)}

theorem insert_nil (e : Nat × α) : insert e [] = [e] := rfl

theorem insert_cons_of_lt (h : e.1 < a.1) (l : List (Nat × α)) :
    insert e (a :: l) = e :: a :: l := by
  rw [insert, orderedInsert, if_pos h]

theorem insert_cons_of_le (h : a.1 ≤ e.1) (l : List (Nat × α)) :
    insert e (a :: l) = a :: insert e l := by
  rw [insert, orderedInsert, if_neg (Nat.not_lt.mpr h)]
  rfl

theorem perm_insert (e : Nat × α) (l : List (Nat × α)) : (insert e l).Perm (e :: l) :=
  perm_orderedInsert _ e l

theorem mem_insert : a ∈ insert e l ↔ a = e ∨ a ∈ l := by
  rw [(perm_insert e l).mem_iff, mem_cons]

theorem insert_append_of_le (h : ∀ a ∈ l, a.1 ≤ e.1) (m : List (Nat × α)) :
    insert e (l ++ m) = l ++ insert e m := by
  induction l with
  | nil => rfl
  | cons a l ih =>
    rw [cons_append, insert_cons_of_le (h a mem_cons_self),
      ih fun b hb => h b (mem_cons_of_mem _ hb), cons_append]

theorem insert_append_of_lt (h : ∀ a ∈ m.head?, e.1 < a.1) (l : List (Nat × α)) :
    insert e (l ++ m) = insert e l ++ m := by
  induction l with
  | nil =>
    cases m with
    | nil => rfl
    | cons a m => exact insert_cons_of_lt (h a rfl) m
  | cons a l ih =>
    by_cases hlt : e.1 < a.1
    · rw [cons_append, insert_cons_of_lt hlt, insert_cons_of_lt hlt]
      rfl
    · have hle := Nat.not_lt.mp hlt
      rw [cons_append, insert_cons_of_le hle, insert_cons_of_le hle, ih]
      rfl

theorem sorted_insert (h : Sorted l) : Sorted (insert e l) := by
  induction l with
  | nil => exact pairwise_singleton _ _
  | cons a l ih =>
    obtain ⟨ha, hl⟩ := pairwise_cons.mp h
    by_cases hlt : e.1 < a.1
    · rw [insert_cons_of_lt hlt]
      refine pairwise_cons.mpr ⟨fun b hb => ?_, h⟩
      rcases mem_cons.mp hb with rfl | hb
      · exact Nat.le_of_lt hlt
      · exact Nat.le_trans (Nat.le_of_lt hlt) (ha b hb)
    rw [insert_cons_of_le (Nat.not_lt.mp hlt)]
    refine pairwise_cons.mpr ⟨fun b hb => ?_, ih hl⟩
    rcases mem_insert.mp hb with rfl | hb
    · exact Nat.not_lt.mp hlt
    · exact ha b hb

/-- The keys up to a bound are in front. -/
theorem Sorted.split (h : Sorted l) (t : Nat) :
    ∃ l1 l2, l = l1 ++ l2 ∧ (∀ a ∈ l1, a.1 ≤ t) ∧ ∀ a ∈ l2, t < a.1 := by
  induction l with
  | nil => exact ⟨[], [], rfl, fun a ha => absurd ha not_mem_nil, fun a ha => absurd ha not_mem_nil⟩
  | cons a l ih =>
    obtain ⟨ha, hl⟩ := pairwise_cons.mp h
    by_cases hle : a.1 ≤ t
    · obtain ⟨l1, l2, rfl, h1, h2⟩ := ih hl
      exact ⟨a :: l1, l2, rfl, forall_mem_cons.mpr ⟨hle, h1⟩, h2⟩
    · refine ⟨[], a :: l, rfl, fun b hb => absurd hb not_mem_nil, ?_⟩
      refine forall_mem_cons.mpr ⟨Nat.not_le.mp hle, fun b hb => ?_⟩
      exact Nat.lt_of_lt_of_le (Nat.not_le.mp hle) (ha b hb)

/-- A map, cut at the two iterators of a loop. -/
structure Cursor (α : Type) where
  before : List (Nat × α) := []
  visited : List (Nat × α) := []
  rest : List (Nat × α) := []
  deriving DecidableEq

namespace Cursor

/-- The whole map. -/
def entries (c : Cursor α) : List (Nat × α) := c.before ++ c.visited ++ c.rest

/-- Both iterators are at the first entry. -/
def reset (c : Cursor α) : Cursor α := { rest := c.entries }

/-- Insert an entry; the iterators stay at the entries they are at. -/
def insert (c : Cursor α) (e : Nat × α) : Cursor α :=
  if (c.visited ++ c.rest).head?.any (fun a => decide (e.1 < a.1)) then
    { c with before := Multimap.insert e c.before }
  else if c.rest.head?.any (fun a => decide (e.1 < a.1)) then
    { c with visited := Multimap.insert e c.visited }
  else { c with rest := Multimap.insert e c.rest }

/-- The loop goes on to the next entry. -/
def advance (c : Cursor α) : Cursor α :=
  { c with visited := c.visited ++ c.rest.take 1, rest := c.rest.tail }

/-- Erase the entries from `start` to `it`. -/
def eraseVisited (c : Cursor α) : Cursor α := { rest := c.before ++ c.rest }

theorem entries_insert_reset (c : Cursor α) (e : Nat × α) :
    (c.reset.insert e).entries = Multimap.insert e c.entries := by
  unfold insert reset
  cases hl : c.entries with
  | nil => rfl
  | cons a l =>
    by_cases hlt : e.1 < a.1
    · simp [hlt, entries, insert_cons_of_lt, insert_nil]
    · simp [hlt, entries]

theorem insert_of_lt {e : Nat × α} (h : e.1 < a.1) (before visited rest : List (Nat × α)) :
    ∃ before' visited', (⟨before, visited, a :: rest⟩ : Cursor α).insert e =
      ⟨before', visited', a :: rest⟩ := by
  unfold insert
  split
  · exact ⟨_, _, rfl⟩
  have hit : (a :: rest).head?.any (fun b => decide (e.1 < b.1)) = true := by simpa using h
  rw [if_pos hit]
  exact ⟨_, _, rfl⟩

theorem insert_of_le {before visited rest : List (Nat × α)} {e : Nat × α}
    (hvisited : ∀ b ∈ visited, b.1 ≤ a.1) (h : a.1 ≤ e.1) :
    (⟨before, visited, a :: rest⟩ : Cursor α).insert e =
      ⟨before, visited, a :: Multimap.insert e rest⟩ := by
  have hstart : (visited ++ a :: rest).head?.any (fun b => decide (e.1 < b.1)) = false := by
    cases visited with
    | nil => simpa using h
    | cons b visited =>
      have := hvisited b mem_cons_self
      simp only [cons_append, head?_cons, Option.any_some, decide_eq_false_iff_not]
      omega
  have hit : (a :: rest).head?.any (fun b => decide (e.1 < b.1)) = false := by simpa using h
  simp only [insert, hstart, hit, Bool.false_eq_true, if_false]
  rw [insert_cons_of_le h]

theorem entries_advance (c : Cursor α) : c.advance.entries = c.entries := by
  have hrest : c.rest.take 1 ++ c.rest.tail = c.rest := by cases c.rest <;> rfl
  rw [entries, entries, advance, append_assoc, append_assoc, append_assoc, hrest, ← append_assoc]

theorem insert_head {c : Cursor α} {rest : List (Nat × α)} (h : c.rest = a :: rest)
    (e : Nat × α) : ∃ rest', (c.insert e).rest = a :: rest' := by
  unfold insert
  split
  · exact ⟨rest, h⟩
  split
  · exact ⟨rest, h⟩
  rename_i hit
  refine ⟨Multimap.insert e rest, ?_⟩
  have hle : a.1 ≤ e.1 := by simpa [h] using hit
  simp only [h, insert_cons_of_le hle]

theorem mem_rest_insert {c : Cursor α} {b : Nat × α} (h : b ∈ c.rest) (e : Nat × α) :
    b ∈ (c.insert e).rest := by
  unfold insert
  split
  · exact h
  · split
    · exact h
    · exact mem_insert.mpr (.inr h)

/-- What `eraseVisited` keeps. -/
def kept (c : Cursor α) : List (Nat × α) := c.before ++ c.rest

/-- Inside a loop: the cut makes no difference to the map. -/
theorem entries_insert {before visited rest : List (Nat × α)}
    (h : Sorted (before ++ visited ++ a :: rest)) (e : Nat × α) :
    ((⟨before, visited, a :: rest⟩ : Cursor α).insert e).entries =
      Multimap.insert e (before ++ visited ++ a :: rest) := by
  obtain ⟨-, -, hcut⟩ := pairwise_append.mp h
  obtain ⟨b, tail, hb⟩ := exists_cons_of_ne_nil
    (append_ne_nil_of_right_ne_nil visited (cons_ne_nil a rest))
  have hbefore : ∀ c ∈ before, c.1 ≤ b.1 := by
    rw [append_assoc, hb] at h
    exact fun c hc => (pairwise_append.mp h).2.2 c hc b mem_cons_self
  unfold insert
  rw [hb]
  by_cases hstart : e.1 < b.1
  · have hhead : ∀ c ∈ (b :: tail).head?, e.1 < c.1 := by
      intro c hc
      cases hc
      exact hstart
    simp only [head?_cons, Option.any_some, hstart, decide_true, if_true, entries]
    rw [append_assoc, append_assoc, hb, insert_append_of_lt hhead]
  have hle : ∀ c ∈ before, c.1 ≤ e.1 := fun c hc => (hbefore c hc).trans (Nat.not_lt.mp hstart)
  by_cases hit : e.1 < a.1
  · have hhead : ∀ c ∈ (a :: rest).head?, e.1 < c.1 := by
      intro c hc
      cases hc
      exact hit
    simp only [head?_cons, Option.any_some, hstart, hit, decide_true, decide_false,
      Bool.false_eq_true, if_true, if_false, entries]
    rw [append_assoc, append_assoc, insert_append_of_le hle, insert_append_of_lt hhead]
  · have hle' : ∀ c ∈ before ++ visited, c.1 ≤ e.1 :=
      fun c hc => (hcut c hc a mem_cons_self).trans (Nat.not_lt.mp hit)
    simp only [head?_cons, Option.any_some, hstart, hit, decide_false, Bool.false_eq_true,
      if_false, entries]
    rw [insert_append_of_le hle']

/-- An entry that is inserted among the visited ones is not kept. -/
theorem kept_insert (c : Cursor α) (e : Nat × α) :
    (c.insert e).kept.Perm (e :: c.kept) ∨ (c.insert e).kept = c.kept := by
  unfold insert
  split
  · exact .inl ((perm_insert e c.before).append_right c.rest)
  split
  · exact .inr rfl
  · refine .inl (((perm_insert e c.rest).append_left c.before).trans ?_)
    exact perm_middle

end Cursor

end Multimap

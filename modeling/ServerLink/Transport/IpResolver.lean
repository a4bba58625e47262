import Mathlib.Tactic.Common
import Mathlib.Algebra.Order.Group.Int
import Mathlib.Data.List.TakeWhile
import ServerLink.Util.Err

/-!
# ServerLink.Transport.IpResolver

The port of a tcp address (`ip_resolver.cpp`). It is read by `atoi`, which skips blanks, takes a
sign, stops at the first character that is not a digit and cuts a number that is too large; the
result is reduced to 16 bits. So what is accepted is not only the number of a port.

`bind` resolves its address in this way, as a bindable one. (A connecter hands the string behind the
last colon to the resolver of the system.) The rest of the address is not looked at: what `resolve`
does after the port is left out. Strings are lists of bytes, and their characters those of ASCII.
-/

namespace ServerLink

open List

namespace IpResolver

def isDigit (c : UInt8) : Bool := 48 ≤ c && c ≤ 57

def isSpace (c : UInt8) : Bool := c == 32 || (9 ≤ c && c ≤ 13)

/-- The characters `:`, `*` and `0`. -/
def colon : UInt8 := 58
def star : UInt8 := 42
def zero : UInt8 := 48

/-- The value of a string of digits. -/
def decimal (digits : List UInt8) : Nat :=
  digits.foldl (fun n c => 10 * n + (c.toNat - 48)) 0

/-- The number a string begins with, after blanks and a sign. -/
def leadingNumber (s : List UInt8) : Int :=
  match s.dropWhile isSpace with
  | 45 :: digits => -(decimal (digits.takeWhile isDigit) : Int)
  | 43 :: digits => decimal (digits.takeWhile isDigit)
  | digits => decimal (digits.takeWhile isDigit)

/-- `atoi`, a cast of `strtol` to an `int`. A number out of the range of `long` is replaced by the
nearest one in it. -/
def atoi (s : List UInt8) : Int :=
  (max (-2 ^ 63) (min (2 ^ 63 - 1) (leadingNumber s))).bmod (2 ^ 32)

/-- The address and the string behind the last colon. -/
def splitPort (name : List UInt8) : Option (List UInt8 × List UInt8) :=
  match name.reverse.dropWhile (· ≠ colon) with
  | [] => none
  | _ :: addr => some (addr.reverse, (name.reverse.takeWhile (· ≠ colon)).reverse)

def resolvePort (bindable : Bool) (portStr : List UInt8) : Option Nat :=
  if portStr = [star] then if bindable then some 0 else none
  else if portStr = [zero] then some 0
  else
    let port := (atoi portStr % 2 ^ 16).toNat
    if port = 0 then none else some port

/-- `resolve`, as far as the port. -/
def resolve (bindable : Bool) (name : List UInt8) : Except Errno (List UInt8 × Nat) :=
  match splitPort name with
  | none => .error .einval
  | some (addr, portStr) =>
    match resolvePort bindable portStr with
    | none => .error .einval
    | some port => .ok (addr, port)

/-! ### What a port is -/

/-- The string stands for the port. -/
def PortOf (bindable : Bool) (s : List UInt8) (n : Nat) : Prop :=
  (bindable = true ∧ s = [star] ∧ n = 0) ∨ (s = [zero] ∧ n = 0) ∨
    (s.all isDigit = true ∧ decimal s = n ∧ 1 ≤ n ∧ n ≤ 65535)

/-- Resolution goes on exactly with a string that stands for a port, and with that port. -/
def Exact (bindable : Bool) (addr s : List UInt8) : Prop :=
  (∀ n, resolve bindable (addr ++ colon :: s) = .ok (addr, n) ↔ PortOf bindable s n) ∧
    ((¬ ∃ n, PortOf bindable s n) → resolve bindable (addr ++ colon :: s) = .error .einval)

/-- The string is a number of 16 bits, or the number it begins with is a multiple of `2 ^ 16`; one
below the range of `long` counts as such. -/
def Plain (s : List UInt8) : Prop :=
  (s.all isDigit = true ∧ decimal s < 2 ^ 16) ∨ leadingNumber s ≤ -2 ^ 63 ∨
    (leadingNumber s < 2 ^ 63 ∧ leadingNumber s % 2 ^ 16 = 0)

variable {s addr : List UInt8} {bindable : Bool}

theorem isDigit_apart {c : UInt8} (h : isDigit c = true) :
    isSpace c = false ∧ c ≠ 45 ∧ c ≠ 43 := by
  simp [isDigit, isSpace, UInt8.le_iff_toNat_le, ← UInt8.toNat_inj] at *
  omega

/-- A digit is neither a blank nor a sign. -/
theorem leadingNumber_digits (h : s.all isDigit = true) : leadingNumber s = decimal s := by
  have htake : s.takeWhile isDigit = s := takeWhile_eq_self_iff.mpr (all_eq_true.mp h)
  cases s with
  | nil => rfl
  | cons c rest =>
    obtain ⟨hspace, hminus, hplus⟩ := isDigit_apart (all_eq_true.mp h c mem_cons_self)
    unfold leadingNumber
    rw [dropWhile_cons_of_neg (by simp [hspace])]
    split
    · rename_i heq
      exact absurd (cons.inj heq).1 hminus
    · rename_i heq
      exact absurd (cons.inj heq).1 hplus
    · rw [htake]

theorem splitPort_append (hs : colon ∉ s) : splitPort (addr ++ colon :: s) = some (addr, s) := by
  have hall : ∀ c ∈ s.reverse, decide (c ≠ colon) = true := by
    intro c hc
    have hne : c ≠ colon := fun h => hs (h ▸ mem_reverse.mp hc)
    simpa using hne
  have hrev : (addr ++ colon :: s).reverse = s.reverse ++ colon :: addr.reverse := by simp
  rw [splitPort, hrev, dropWhile_append_of_pos hall, takeWhile_append_of_pos hall]
  simp

/-- The number a string begins with, cut to the range of `long` and then to 16 bits. -/
def cut (x : Int) : Nat := (max (-2 ^ 63) (min (2 ^ 63 - 1) x) % 2 ^ 16).toNat

theorem atoi_port (s : List UInt8) : (atoi s % 2 ^ 16).toNat = cut (leadingNumber s) := by
  rw [atoi, cut, Int.bmod_def]
  omega

theorem cut_eq_zero_iff (x : Int) : cut x = 0 ↔ x ≤ -2 ^ 63 ∨ (x < 2 ^ 63 ∧ x % 2 ^ 16 = 0) := by
  unfold cut
  omega

/-- Apart from `*` and `0` the port is that of `atoi`, and should be that of the digits. -/
theorem resolvePort_exact_iff (bindable : Bool) (s : List UInt8) :
    (∀ n, resolvePort bindable s = some n ↔ PortOf bindable s n) ↔ Plain s := by
  by_cases hstar : s = [star]
  · subst hstar
    refine iff_of_true (fun n => ?_) (.inr (.inr ⟨by decide, by decide⟩))
    cases bindable <;> simp [resolvePort, PortOf, star, zero, isDigit, eq_comm]
  by_cases hzero : s = [zero]
  · subst hzero
    refine iff_of_true (fun n => ?_) (.inl ⟨by decide, by decide⟩)
    refine ⟨fun h => .inr (.inl ⟨rfl, (Option.some.inj h).symm⟩), ?_⟩
    rintro (⟨-, h, -⟩ | ⟨-, rfl⟩ | ⟨-, rfl, h, -⟩)
    · exact absurd h hstar
    · rfl
    · exact absurd h (by decide)
  have hport : ∀ n, resolvePort bindable s = some n ↔
      cut (leadingNumber s) = n ∧ cut (leadingNumber s) ≠ 0 := by
    intro n
    simp only [resolvePort, hstar, hzero, if_false, atoi_port]
    split <;> simp [*]
  simp only [hport, PortOf, Plain, hstar, hzero, false_and, and_false, false_or,
    ← cut_eq_zero_iff (leadingNumber s)]
  by_cases hdigits : s.all isDigit = true
  · -- the digits are the number, and below `2 ^ 16` nothing is cut
    have hcut : decimal s < 2 ^ 16 → cut (leadingNumber s) = decimal s := by
      rw [leadingNumber_digits hdigits, cut]
      omega
    simp only [hdigits, true_and]
    refine ⟨fun h => ?_, fun h n => ?_⟩
    · have := h (cut (leadingNumber s))
      omega
    · omega
  · simp only [hdigits]
    refine ⟨fun h => ?_, fun h n => ?_⟩
    · have := h (cut (leadingNumber s))
      simpa using this
    · simpa using fun _ => h

/-- When the port of an address is read exactly, whether it is to be bound or not. -/
theorem port_exact_iff (hs : colon ∉ s) : Exact bindable addr s ↔ Plain s := by
  rw [← resolvePort_exact_iff bindable s]
  simp only [Exact, resolve, splitPort_append hs]
  cases resolvePort bindable s with
  | none => simp
  | some port =>
    refine ⟨fun h n => by simpa using h.1 n, fun h => ⟨fun n => by simpa using h n, fun hno => ?_⟩⟩
    exact absurd ⟨port, (h port).mp rfl⟩ hno

/-- The port 80, and the number 65536, which is refused as it should be. -/
theorem port_exact_iff_80 : Exact true [star] [56, 48] ∧ Exact false [97] [56, 48] ∧
    Exact true [star] [54, 53, 53, 51, 54] := by
  have hplain : Plain [56, 48] := .inl ⟨by decide, by decide⟩
  refine ⟨(port_exact_iff (by decide)).mpr hplain, (port_exact_iff (by decide)).mpr hplain, ?_⟩
  exact (port_exact_iff (by decide)).mpr (.inr (.inr ⟨by decide, by decide⟩))

/-- The addresses `127.0.0.1:65537` and `127.0.0.1:80x` are bound: the ports are 1 and 80. -/
theorem port_not_exact :
    resolve true [49, 50, 55, 46, 48, 46, 48, 46, 49, 58, 54, 53, 53, 51, 55] =
      .ok ([49, 50, 55, 46, 48, 46, 48, 46, 49], 1) ∧
    resolve true [49, 50, 55, 46, 48, 46, 48, 46, 49, 58, 56, 48, 120] =
      .ok ([49, 50, 55, 46, 48, 46, 48, 46, 49], 80) ∧
    ¬ Exact true [49, 50, 55, 46, 48, 46, 48, 46, 49] [54, 53, 53, 51, 55] ∧
    ¬ Exact true [49, 50, 55, 46, 48, 46, 48, 46, 49] [56, 48, 120] := by
  refine ⟨by decide, by decide, fun h => ?_, fun h => ?_⟩
  · exact absurd ((h.1 1).mp (by decide)) (by unfold PortOf; decide)
  · exact absurd ((h.1 80).mp (by decide)) (by unfold PortOf; decide)

end IpResolver

end ServerLink

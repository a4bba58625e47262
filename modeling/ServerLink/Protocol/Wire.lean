import Mathlib.Algebra.Group.Nat.Defs
import Mathlib.Data.List.Basic
import Mathlib.Tactic.Common

/-!
# ServerLink.Protocol.Wire

Integers in network byte order (`wire.hpp`) and the frame flags of ZMTP
(`v2_protocol.hpp`). A byte string is a list of `UInt8`; an unsigned integer is a
`Nat`, truncated to its width where it is stored.
-/

namespace ServerLink

/-- `put_uint32`: four bytes, the most significant first. -/
def putUint32 (value : Nat) : List UInt8 :=
  [UInt8.ofNat (value >>> 24), UInt8.ofNat (value >>> 16), UInt8.ofNat (value >>> 8),
    UInt8.ofNat value]

/-- `put_uint64`: eight bytes, the most significant first. -/
def putUint64 (value : Nat) : List UInt8 :=
  [UInt8.ofNat (value >>> 56), UInt8.ofNat (value >>> 48), UInt8.ofNat (value >>> 40),
    UInt8.ofNat (value >>> 32), UInt8.ofNat (value >>> 24), UInt8.ofNat (value >>> 16),
    UInt8.ofNat (value >>> 8), UInt8.ofNat value]

/-- `get_uint32`, on four bytes. -/
def getUint32 : List UInt8 → Nat
  | [b0, b1, b2, b3] => b0.toNat * 2 ^ 24 + b1.toNat * 2 ^ 16 + b2.toNat * 2 ^ 8 + b3.toNat
  | _ => 0

/-- `get_uint64`. The shifted bytes do not overlap, so the `|` of the source is a
sum. Only read on eight bytes. -/
def getUint64 : List UInt8 → Nat
  | [b0, b1, b2, b3, b4, b5, b6, b7] =>
    b0.toNat * 2 ^ 56 + b1.toNat * 2 ^ 48 + b2.toNat * 2 ^ 40 + b3.toNat * 2 ^ 32
      + b4.toNat * 2 ^ 24 + b5.toNat * 2 ^ 16 + b6.toNat * 2 ^ 8 + b7.toNat
  | _ => 0

@[simp] theorem putUint32_length (n : Nat) : (putUint32 n).length = 4 := rfl

/-- A 32-bit value survives the trip over the wire. -/
theorem getUint32_putUint32 {n : Nat} (h : n < 2 ^ 32) : getUint32 (putUint32 n) = n := by
  simp only [putUint32, getUint32, UInt8.toNat_ofNat', Nat.shiftRight_eq_div_pow]
  omega

/-- Four bytes are the encoding of one value. -/
theorem exists_putUint32 {bs : List UInt8} (h : bs.length = 4) :
    getUint32 bs < 2 ^ 32 ∧ putUint32 (getUint32 bs) = bs := by
  obtain ⟨b0, b1, b2, b3, rfl⟩ := List.length_eq_four.mp h
  have h0 := b0.toNat_lt
  have h1 := b1.toNat_lt
  have h2 := b2.toNat_lt
  have h3 := b3.toNat_lt
  refine ⟨by simp only [getUint32]; omega, ?_⟩
  simp only [putUint32, getUint32, Nat.shiftRight_eq_div_pow, List.cons.injEq, and_true]
  refine ⟨?_, ?_, ?_, ?_⟩ <;>
    (apply UInt8.toNat_inj.mp; rw [UInt8.toNat_ofNat']; omega)

@[simp] theorem putUint64_length (n : Nat) : (putUint64 n).length = 8 := rfl

theorem getUint64_putUint64 {n : Nat} (h : n < 2 ^ 64) : getUint64 (putUint64 n) = n := by
  simp only [putUint64, getUint64, UInt8.toNat_ofNat', Nat.shiftRight_eq_div_pow]
  omega

namespace V2Protocol

/-- More message parts follow. -/
def moreFlag : UInt8 := 1
/-- The message size takes eight bytes. -/
def largeFlag : UInt8 := 2
/-- The frame is a command. -/
def commandFlag : UInt8 := 4

/-- The flags byte of a frame. -/
def flagsByte (more large command : Bool) : UInt8 :=
  (if more then moreFlag else 0) ||| (if large then largeFlag else 0)
    ||| (if command then commandFlag else 0)

@[simp] theorem flagsByte_more (m l c : Bool) : (flagsByte m l c &&& moreFlag != 0) = m := by
  cases m <;> cases l <;> cases c <;> rfl

@[simp] theorem flagsByte_large (m l c : Bool) : (flagsByte m l c &&& largeFlag != 0) = l := by
  cases m <;> cases l <;> cases c <;> rfl

@[simp] theorem flagsByte_command (m l c : Bool) : (flagsByte m l c &&& commandFlag != 0) = c := by
  cases m <;> cases l <;> cases c <;> rfl

end V2Protocol

end ServerLink

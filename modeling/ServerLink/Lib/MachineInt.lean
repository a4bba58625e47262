import Mathlib.Algebra.Group.Int.Defs

/-!
# ServerLink.Lib.MachineInt

The integers of 32 bits with a sign. A computation with them is a computation with integers that
fails where a result is out of range, since the source language does not say what happens there.
-/

namespace MachineInt

/-- The largest number. -/
def maxInt : Int := 2 ^ 31 - 1

/-- The number is in range. -/
def InRange (x : Int) : Prop := -2 ^ 31 ≤ x ∧ x ≤ maxInt

instance (x : Int) : Decidable (InRange x) := inferInstanceAs (Decidable (_ ∧ _))

/-- The result of a computation. -/
def checked (x : Int) : Option Int := if InRange x then some x else none

theorem checked_eq {x : Int} (h : InRange x) : checked x = some x := if_pos h

end MachineInt

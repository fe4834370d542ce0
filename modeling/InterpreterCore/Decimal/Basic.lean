import InterpreterCore.Binary.Rounding

namespace InterpreterCore

/-- The number `coefficient * 10 ^ exponent`. -/
structure Decimal where
  coefficient : Nat
  exponent : Int
deriving DecidableEq

namespace Decimal

/-- Position of the leading decimal digit of a number, counted from zero at its last place and
    found within the given number of steps. -/
def leadingPlaceWithin : Nat → Nat → Nat
  | 0, _ => 0
  | steps + 1, n => if n < 10 then 0 else leadingPlaceWithin steps (n / 10) + 1

/-- The exponent of the largest power of ten that does not exceed a positive number. It has fewer
    decimal places than binary ones, so those bound the search. -/
def leadingPlace (n : Nat) : Nat := leadingPlaceWithin n.log2 n

/-- Drop trailing zeros of the coefficient into the exponent, in at most the given number of
    steps. -/
def stripWithin : Nat → Decimal → Decimal
  | 0, d => d
  | steps + 1, d =>
    if d.coefficient % 10 = 0 then stripWithin steps ⟨d.coefficient / 10, d.exponent + 1⟩ else d

/-- The same number with the shortest coefficient. -/
def strip (d : Decimal) : Decimal :=
  if d.coefficient = 0 then d else stripWithin d.coefficient.log2 d

/-- The decimal digits of the coefficient, the leading one first. -/
def digits (d : Decimal) : List Char := Nat.toDigits 10 d.coefficient

/-- The power of ten that the leading digit counts. -/
def leadingExponent (d : Decimal) : Int := d.exponent + leadingPlace d.coefficient

/-- The value of a binary format nearest to a decimal. Outside the clamp every decimal with this
    coefficient is past the format's range on the same side, so the powers stay small. -/
def toBinary (format : Binary.Format) (negative : Bool) (d : Decimal) : Binary format :=
  let low : Int := format.leastExponent - d.coefficient.log2 - 2
  let high : Int := format.overflowExponent
  let exponent := max low (min d.exponent high)
  Binary.nearest format negative (d.coefficient * Nat.pow 10 exponent.toNat)
    (Nat.pow 10 (-exponent).toNat)

end Decimal

end InterpreterCore

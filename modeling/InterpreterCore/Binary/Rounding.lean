import InterpreterCore.Binary.Basic

namespace InterpreterCore.Binary

variable {format : Format}

/-- The whole number nearest to a quotient; halfway between two of them, the even one. -/
def roundQuotient (num den : Nat) : Nat :=
  let whole := num / den
  match compare (2 * (num % den)) den with
  | .lt => whole
  | .gt => whole + 1
  | .eq => if whole % 2 = 0 then whole else whole + 1

/-- The exponent of the largest power of two that does not exceed a positive quotient. -/
def quotientLog (num den : Nat) : Int :=
  let estimate : Int := num.log2 - den.log2
  if num * Nat.pow 2 (-estimate).toNat < den * Nat.pow 2 estimate.toNat then estimate - 1 else estimate

/-- The value nearest to a quotient, with the given sign. A quotient that rounds to zero keeps the
    sign. -/
def nearest (format : Format) (negative : Bool) (num den : Nat) : Binary format :=
  if num = 0 then zero format negative
  else
    let exponent := max (quotientLog num den + 1 - format.precision) format.leastExponent
    let significand := roundQuotient (num * Nat.pow 2 (-exponent).toNat) (den * Nat.pow 2 exponent.toNat)
    saturating format negative
      ((exponent - format.leastExponent).toNat * format.leadingWeight + significand)

/-- The value nearest to a multiple of a power of two. -/
def nearestScaled (format : Format) (negative : Bool) (size : Nat) (exponent : Int) :
    Binary format :=
  nearest format negative (size * Nat.pow 2 exponent.toNat) (Nat.pow 2 (-exponent).toNat)

/-- The value nearest to an integer. -/
def ofInt (format : Format) (n : Int) : Binary format :=
  nearest format (n < 0) n.natAbs 1

/-- The value of another format nearest to a value. Zeros and infinities keep their sign. -/
def convert (target : Format) (x : Binary format) : Binary target :=
  if x.isNaN then notANumber target
  else if x.isInfinite then infinite target x.negative
  else nearestScaled target x.negative x.significand x.exponent

end InterpreterCore.Binary

import InterpreterCore.Binary.Rounding

namespace InterpreterCore.Binary

variable {format : Format}

/-- The sum. Values that cancel give a positive zero, and only two negative zeros a negative one. -/
def add (x y : Binary format) : Binary format :=
  if x.isNaN || y.isNaN then notANumber format
  else if x.isInfinite then
    if y.isInfinite && x.negative != y.negative then notANumber format else x
  else if y.isInfinite then y
  else
    let exponent := min x.exponent y.exponent
    let sum := x.scaled exponent + y.scaled exponent
    if sum = 0 then zero format (x.negative && y.negative)
    else nearestScaled format (sum < 0) sum.natAbs exponent

/-- The difference is the sum with the opposite value. -/
def sub (x y : Binary format) : Binary format := x.add y.neg

/-- The product. -/
def mul (x y : Binary format) : Binary format :=
  let negative := x.negative != y.negative
  if x.isNaN || y.isNaN then notANumber format
  else if x.isInfinite || y.isInfinite then
    if x.isZero || y.isZero then notANumber format else infinite format negative
  else nearestScaled format negative (x.significand * y.significand) (x.exponent + y.exponent)

/-- The quotient. A zero divisor of a nonzero value gives an infinity. -/
def div (x y : Binary format) : Binary format :=
  let negative := x.negative != y.negative
  if x.isNaN || y.isNaN then notANumber format
  else if x.isInfinite then
    if y.isInfinite then notANumber format else infinite format negative
  else if y.isInfinite then zero format negative
  else if y.isZero then
    if x.isZero then notANumber format else infinite format negative
  else
    let exponent := x.exponent - y.exponent
    nearest format negative
      (x.significand * Nat.pow 2 exponent.toNat) (y.significand * Nat.pow 2 (-exponent).toNat)

/-- What is left of the dividend when the divisor is taken out of it a whole number of times,
    counted toward zero. It is exact and has the sign of the dividend. -/
def rem (x y : Binary format) : Binary format :=
  if x.isNaN || y.isNaN || x.isInfinite || y.isZero then notANumber format
  else if y.isInfinite then x
  else
    let exponent := min x.exponent y.exponent
    let left := (x.scaled exponent).natAbs % (y.scaled exponent).natAbs
    nearestScaled format x.negative left exponent

end InterpreterCore.Binary

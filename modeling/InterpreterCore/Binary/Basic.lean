import InterpreterCore.Binary.Format

namespace InterpreterCore

/-- A value of a binary floating format: finite, infinite or not a number. The magnitude is the bit
    pattern without the sign bit, so finite values of one sign are ordered as their magnitudes
    are. -/
structure Binary (format : Binary.Format) where
  negative : Bool
  magnitude : Nat
  magnitude_lt : magnitude < format.magnitudes
deriving DecidableEq

/-- A value of the 32-bit format. -/
abbrev Single : Type := Binary .single

/-- A value of the 64-bit format. -/
abbrev Double : Type := Binary .double

namespace Binary

variable {format : Format}

/-- The value with the given bit pattern; bits beyond the width of the format are dropped. -/
def ofBits (format : Format) (bits : Nat) : Binary format where
  negative := bits / format.magnitudes % 2 == 1
  magnitude := bits % format.magnitudes
  magnitude_lt := Nat.mod_lt _ (Nat.lt_of_le_of_lt (Nat.zero_le _) format.infinity_lt_magnitudes)

/-- The bit pattern, with the sign as the highest bit. -/
def toBits (x : Binary format) : Nat :=
  (if x.negative then format.magnitudes else 0) + x.magnitude

/-- The value of the given sign and magnitude, where every magnitude past the finite ones stands
    for an infinity. -/
def saturating (format : Format) (negative : Bool) (magnitude : Nat) : Binary format where
  negative := negative
  magnitude := min magnitude format.infinity
  magnitude_lt := Nat.lt_of_le_of_lt (Nat.min_le_right _ _) format.infinity_lt_magnitudes

/-- Zero of the given sign. -/
def zero (format : Format) (negative : Bool) : Binary format := saturating format negative 0

/-- Infinity of the given sign. -/
def infinite (format : Format) (negative : Bool) : Binary format :=
  saturating format negative format.infinity

/-- The value that operations without a numeric result give. -/
def notANumber (format : Format) : Binary format :=
  ofBits format (format.infinity + format.leadingWeight / 2)

def isNaN (x : Binary format) : Bool := format.infinity < x.magnitude

def isInfinite (x : Binary format) : Bool := x.magnitude == format.infinity

def isFinite (x : Binary format) : Bool := x.magnitude < format.infinity

def isZero (x : Binary format) : Bool := x.magnitude == 0

/-- The exponent field. Field zero holds the values too small for a full significand. -/
def exponentField (x : Binary format) : Nat := x.magnitude / format.leadingWeight

/-- The significand of a finite value, as a whole number of last places. -/
def significand (x : Binary format) : Nat :=
  if x.exponentField = 0 then x.magnitude
  else format.leadingWeight + x.magnitude % format.leadingWeight

/-- The binary exponent of the last place of a finite value. Fields zero and one share it, which
    makes the step from the smallest values to the full significands even. -/
def exponent (x : Binary format) : Int := format.leastExponent + (x.exponentField - 1 : Nat)

/-- A finite value as a whole multiple of two to the given exponent, which may not exceed the
    value's own. -/
def scaled (x : Binary format) (exponent : Int) : Int :=
  let size : Int := (x.significand * Nat.pow 2 (x.exponent - exponent).toNat : Nat)
  if x.negative then -size else size

/-- The magnitude with its sign. It orders the numbers of a format, and gives both zeros one
    place. -/
def signed (x : Binary format) : Int :=
  if x.negative then -(x.magnitude : Int) else x.magnitude

/-- Numeric order, in which a value that is not a number has no place. -/
def compare? (x y : Binary format) : Option Ordering :=
  if x.isNaN || y.isNaN then none else some (compare x.signed y.signed)

/-- Numeric equality: the zeros are equal, and nothing equals a value that is not a number. -/
def equals (x y : Binary format) : Bool := x.compare? y == some .eq

/-- Change of sign, which every value has. -/
def neg (x : Binary format) : Binary format := { x with negative := !x.negative }

/-- The whole part of a finite value, cut toward zero; other values have none. -/
def truncate? (x : Binary format) : Option Int :=
  if x.isFinite then
    let whole : Int :=
      (x.significand * Nat.pow 2 x.exponent.toNat / Nat.pow 2 (-x.exponent).toNat : Nat)
    some (if x.negative then -whole else whole)
  else none

end Binary

end InterpreterCore

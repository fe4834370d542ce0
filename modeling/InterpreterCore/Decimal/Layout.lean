import InterpreterCore.Decimal.Shortest

namespace InterpreterCore

/-- The decisions of a written form. -/
structure Decimal.Layout where
  /-- Leading exponents from the first number up to, but not including, the second are written
      positionally and all others with an exponent; without a range, everything is positional. -/
  positional : Option (Int × Int)
  /-- Whether a whole number written positionally ends in a point and a zero. -/
  pointZero : Bool

namespace Decimal

/-- The point stands among the digits or beside them, with zeros as fillers. -/
def writePositional (layout : Layout) (digits : List Char) (leading : Int) : List Char :=
  if leading < 0 then '0' :: '.' :: List.replicate (-leading - 1).toNat '0' ++ digits
  else
    let whole := leading.toNat + 1
    if whole < digits.length then digits.take whole ++ '.' :: digits.drop whole
    else
      digits ++ List.replicate (whole - digits.length) '0' ++
        if layout.pointZero then ['.', '0'] else []

/-- One digit before the point, and none after it where there is but one. -/
def writeScientific (digits : List Char) (leading : Int) : List Char :=
  let mantissa := match digits with
    | first :: second :: rest => first :: '.' :: second :: rest
    | _ => digits
  let size := Nat.toDigits 10 leading.natAbs
  mantissa ++ 'e' :: if leading < 0 then '-' :: size else size

/-- The written form of a nonzero decimal. -/
def write (layout : Layout) (d : Decimal) : List Char :=
  match layout.positional with
  | none => writePositional layout d.digits d.leadingExponent
  | some (least, limit) =>
    if least ≤ d.leadingExponent ∧ d.leadingExponent < limit then
      writePositional layout d.digits d.leadingExponent
    else writeScientific d.digits d.leadingExponent

end Decimal

namespace Binary

variable {format : Format}

/-- The written form of a size, the sign left aside. -/
def writeSize (layout : Decimal.Layout) (x : Binary format) : List Char :=
  if x.isInfinite then ['i', 'n', 'f']
  else if x.isZero then '0' :: if layout.pointZero then ['.', '0'] else []
  else x.shortest.write layout

/-- The written form of a value. A sign is kept on zero, and a value that is not a number has
    none. -/
def write (layout : Decimal.Layout) (x : Binary format) : List Char :=
  if x.isNaN then ['N', 'a', 'N']
  else if x.negative then '-' :: x.writeSize layout
  else x.writeSize layout

end Binary

end InterpreterCore

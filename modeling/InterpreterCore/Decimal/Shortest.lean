import InterpreterCore.Decimal.Basic

namespace InterpreterCore.Binary

variable {format : Format}

/-- A decimal reads back to a value when the value is what it denotes. -/
def readsBack (x : Binary format) (d : Decimal) : Bool := d.toBinary format x.negative == x

/-- Numerator and denominator of the size of a finite value. -/
def ratio (x : Binary format) : Nat × Nat :=
  (x.significand * Nat.pow 2 x.exponent.toNat, Nat.pow 2 (-x.exponent).toNat)

/-- The least power of ten above a positive quotient. -/
def decimalScale (num den : Nat) : Int :=
  if den ≤ num then Decimal.leadingPlace (num / den) + 1
  else -(Decimal.leadingPlace ((den - 1) / num) : Int)

/-- Digits after which some decimal always reads back. -/
def digitLimit (format : Format) : Nat := format.precision * 30103 / 100000 + 2

/-- The decimal that reads back on the grid of multiples of a power of ten. Only the two grid
    points around the value are candidates; of two that read back the nearer is taken, and from
    halfway the upper. -/
def shortestOnGrid? (x : Binary format) (exponent : Int) : Option Decimal :=
  let num := x.ratio.1 * Nat.pow 10 (-exponent).toNat
  let den := x.ratio.2 * Nat.pow 10 exponent.toNat
  let below : Decimal := ⟨num / den, exponent⟩
  let above : Decimal := ⟨num / den + 1, exponent⟩
  if x.readsBack below then
    if x.readsBack above && den ≤ 2 * (num % den) then some above else some below
  else if x.readsBack above then some above else none

/-- The exact decimal of a finite value. -/
def exactDecimal (x : Binary format) : Decimal :=
  ⟨x.significand * Nat.pow 2 x.exponent.toNat * Nat.pow 5 (-x.exponent).toNat, min x.exponent 0⟩

/-- The shortest decimal of a finite nonzero value, without trailing zeros. -/
def shortest (x : Binary format) : Decimal :=
  let scale := decimalScale x.ratio.1 x.ratio.2
  let found := (List.range (digitLimit format)).findSome? fun count =>
    x.shortestOnGrid? (scale - (count + 1 : Nat))
  (found.getD x.exactDecimal).strip

end InterpreterCore.Binary

import InterpreterCore.Integer.Range
import InterpreterCore.Text.Digits

namespace InterpreterCore.Integer

open InterpreterCore.Text

/-- The integer that a text spells, if it spells one that is in range. -/
def read? (text : List Char) : Option Int64 :=
  let (negative, digits) := splitSign text
  if digits.isEmpty || !digits.all Char.isDigit then none
  else
    let size := digitsValue digits
    ofInt? (if negative then -(size : Int) else size)

/-- The decimal digits of an integer, with a sign only below zero. -/
def write (n : Int64) : List Char :=
  let digits := Nat.toDigits 10 n.toInt.natAbs
  if n.toInt < 0 then '-' :: digits else digits

end InterpreterCore.Integer

import InterpreterCore.Decimal.Basic
import InterpreterCore.Text.Digits

namespace InterpreterCore.Decimal

open Text

/-- Once the digits of an exponent spell at least this number, no more of them count. -/
def exponentCap : Nat := 65536

/-- The size of a written exponent. A digit counts while those before it spell less than the cap,
    so what is read may pass the cap by one digit, and sizes below the cap are read as they are
    written. -/
def exponentSize (digits : List Char) : Nat :=
  digits.foldl (fun size c => if size < exponentCap then size * 10 + digitValue c else size) 0

/-- The exponent after its mark: an optional sign and at least one digit, to the end. -/
def readExponent? (text : List Char) : Option Int :=
  let (negative, digits) := splitSign text
  if digits.isEmpty || !digits.all Char.isDigit then none
  else
    let size := exponentSize digits
    some (if negative then -(size : Int) else size)

/-- What may follow the digits: nothing, or an exponent mark with its exponent. -/
def readExponentPart? : List Char → Option Int
  | [] => some 0
  | mark :: rest => if mark = 'e' ∨ mark = 'E' then readExponent? rest else none

/-- An unsigned decimal. The point may stand before, among or after the digits, of which there is
    at least one. -/
def read? (text : List Char) : Option Decimal :=
  let whole := text.takeWhile Char.isDigit
  let rest := text.dropWhile Char.isDigit
  let (places, rest) := match rest with
    | '.' :: rest => (rest.takeWhile Char.isDigit, rest.dropWhile Char.isDigit)
    | _ => ([], rest)
  if whole.isEmpty && places.isEmpty then none
  else
    (readExponentPart? rest).map fun exponent =>
      ⟨digitsValue (whole ++ places), exponent - (places.length : Nat)⟩

end InterpreterCore.Decimal

namespace InterpreterCore.Binary

open Text

/-- The value that a text spells, or nothing if it spells none. Letters may be of either case. -/
def read? (format : Format) (text : List Char) : Option (Binary format) :=
  let (negative, size) := splitSign text
  let name := String.ofList (size.map Char.toLower)
  if name = "inf" ∨ name = "infinity" then some (infinite format negative)
  else if name = "nan" then some (notANumber format)
  else (Decimal.read? size).map (Decimal.toBinary format negative)

end InterpreterCore.Binary

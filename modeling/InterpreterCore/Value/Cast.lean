import InterpreterCore.Binary.Rounding
import InterpreterCore.Decimal.Reading
import InterpreterCore.Fault
import InterpreterCore.Text.Blank
import InterpreterCore.Value.Text

namespace InterpreterCore

namespace Cast

/-- A refused number is quoted positionally in full, and a whole one as its digits alone. -/
def quotedLayout : Decimal.Layout where
  positional := none
  pointZero := false

/-- A double as a refusal quotes it. -/
def quoteDouble (x : Double) : String := String.ofList (x.write quotedLayout)

/-- A text as a refusal quotes it, blanks included. -/
def quoteText (text : String) : String := "\"" ++ text ++ "\""

/-- Zero and one are the integers that stand for truth values. -/
def integerToBoolean (n : Int64) : Outcome Bool :=
  if n = 0 then .ok false
  else if n = 1 then .ok true
  else .error (.invalidCast (String.ofList (Integer.write n)) "a boolean")

/-- The whole part of a double, cut toward zero, where it is an integer in range. -/
def doubleToInteger (x : Double) : Outcome Int64 :=
  match x.truncate?.bind Integer.ofInt? with
  | some n => .ok n
  | none => .error (.invalidCast (quoteDouble x) "an integer")

/-- The largest finite value of the 32-bit format. -/
def largestSingle : Single := Binary.saturating .single false (Binary.Format.single.infinity - 1)

/-- Whether a finite double lies outside the finite values of the 32-bit format. -/
def exceedsSingle (x : Double) : Bool :=
  x.isFinite && (largestSingle.convert .double).magnitude < x.magnitude

/-- The nearest value of the 32-bit format. Finite doubles past its range are refused; infinities
    and values that are not numbers pass. -/
def doubleToFloat (x : Double) : Outcome Single :=
  if exceedsSingle x then .error (.invalidCast (quoteDouble x) "a float")
  else .ok (x.convert .single)

/-- The integer that a text spells between blanks. -/
def textToInteger (text : String) : Outcome Int64 :=
  match Integer.read? (Text.trim text.toList) with
  | some n => .ok n
  | none => .error (.invalidCast (quoteText text) "an integer")

/-- The double that a text spells between blanks. -/
def textToDouble (text : String) : Outcome Double :=
  match Binary.read? .double (Text.trim text.toList) with
  | some x => .ok x
  | none => .error (.invalidCast (quoteText text) "a double")

end Cast

end InterpreterCore

import InterpreterCore.Binary.Arithmetic
import InterpreterCore.Integer.Range
import InterpreterCore.Fault
import InterpreterCore.Value.Basic

namespace InterpreterCore

/-- A number of one of the three numeric kinds. -/
inductive Numeric where
  | integer (n : Int64)
  | float (x : Single)
  | double (x : Double)
deriving DecidableEq

/-- Two numbers of one kind. -/
inductive NumericPair where
  | integers (x y : Int64)
  | floats (x y : Single)
  | doubles (x y : Double)
deriving DecidableEq

/-- The number that a datum is. -/
def Datum.numeric? : Datum → Option Numeric
  | integer n => some (.integer n)
  | float x => some (.float x)
  | double x => some (.double x)
  | boolean _ | string _ | object _ => none

namespace Numeric

/-- A number as the value that holds it. -/
def toValue : Numeric → Value
  | integer n => .integer n
  | float x => .float x
  | double x => .double x

/-- The nearest value of the 32-bit format. -/
def toSingle : Numeric → Single
  | integer n => Binary.ofInt .single n.toInt
  | float x => x
  | double x => x.convert .single

/-- The nearest value of the 64-bit format. -/
def toDouble : Numeric → Double
  | integer n => Binary.ofInt .double n.toInt
  | float x => x.convert .double
  | double x => x

/-- Two numbers brought to the wider of their kinds. Double is wider than float, and float wider than
    integer. -/
def promote (a b : Numeric) : NumericPair :=
  match a, b with
  | integer x, integer y => .integers x y
  | double _, _ | _, double _ => .doubles a.toDouble b.toDouble
  | _, _ => .floats a.toSingle b.toSingle

end Numeric

namespace Arithmetic

/-- A whole result, unless it is out of range. -/
def inRange (operation : String) (result : Int) : Outcome Int64 :=
  match Integer.ofInt? result with
  | some n => .ok n
  | none => .error (.integerOverflow operation)

/-- Arithmetic on integers is exact or refused. A quotient is cut toward zero, and a remainder
    exists where its quotient does. -/
def onIntegers (op : Arithmetic) (x y : Int64) : Outcome Int64 :=
  match op with
  | .add => inRange "addition" (x.toInt + y.toInt)
  | .sub => inRange "subtraction" (x.toInt - y.toInt)
  | .mul => inRange "multiplication" (x.toInt * y.toInt)
  | .div =>
    if y = 0 then .error .divisionByZero else inRange "division" (x.toInt.tdiv y.toInt)
  | .mod =>
    if y = 0 then .error .moduloByZero
    else (inRange "remainder" (x.toInt.tdiv y.toInt)).map fun _ => x % y

/-- Arithmetic on floating values is that of their format, but for zero divisors, which are
    refused. -/
def onBinaries {format : Binary.Format} (op : Arithmetic) (x y : Binary format) :
    Outcome (Binary format) :=
  match op with
  | .add => .ok (x.add y)
  | .sub => .ok (x.sub y)
  | .mul => .ok (x.mul y)
  | .div => if y.isZero then .error .divisionByZero else .ok (x.div y)
  | .mod => if y.isZero then .error .moduloByZero else .ok (x.rem y)

/-- Arithmetic on two numbers of one kind gives a number of that kind. -/
def onPair (op : Arithmetic) : NumericPair → Outcome Numeric
  | .integers x y => (op.onIntegers x y).map .integer
  | .floats x y => (op.onBinaries x y).map .float
  | .doubles x y => (op.onBinaries x y).map .double

end Arithmetic

/-- The order of two numbers of one kind. Floating values that are not numbers have none. -/
def NumericPair.compare? : NumericPair → Option Ordering
  | integers x y => some (compare x.toInt y.toInt)
  | floats x y => x.compare? y
  | doubles x y => x.compare? y

end InterpreterCore

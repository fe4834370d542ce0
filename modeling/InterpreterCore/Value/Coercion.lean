import InterpreterCore.Value.Cast

namespace InterpreterCore.Value

/-- The refusal of a value whose kind does not count as the target. -/
def refuse (v : Value) (target : String) : Outcome α :=
  .error (.invalidCoercion v.kind.name target)

/-- Integers count as truth values when they are zero or one, and strings when they spell one. -/
def toBoolean (v : Value) : Outcome Bool :=
  match v.datum with
  | .boolean b => .ok b
  | .integer n => Cast.integerToBoolean n
  | .string s =>
    if s = "true" then .ok true
    else if s = "false" then .ok false
    else .error (.invalidCast (Cast.quoteText s) "a boolean")
  | .float _ | .double _ | .object _ => v.refuse "boolean"

/-- Floating values count as their whole parts. -/
def toInteger (v : Value) : Outcome Int64 :=
  match v.datum with
  | .integer n => .ok n
  | .float x => Cast.doubleToInteger (x.convert .double)
  | .double x => Cast.doubleToInteger x
  | .string s => Cast.textToInteger s
  | .boolean _ | .object _ => v.refuse "integer"

/-- Integers are rounded, and doubles and the doubles that strings spell are narrowed. -/
def toFloat (v : Value) : Outcome Single :=
  match v.datum with
  | .integer n => .ok (Binary.ofInt .single n.toInt)
  | .float x => .ok x
  | .double x => Cast.doubleToFloat x
  | .string s => Cast.textToDouble s >>= Cast.doubleToFloat
  | .boolean _ | .object _ => v.refuse "float"

/-- Integers are rounded and floats are widened. -/
def toDouble (v : Value) : Outcome Double :=
  match v.datum with
  | .integer n => .ok (Binary.ofInt .double n.toInt)
  | .float x => .ok (x.convert .double)
  | .double x => .ok x
  | .string s => Cast.textToDouble s
  | .boolean _ | .object _ => v.refuse "double"

/-- Every value but an object counts as its text. -/
def toText (v : Value) : Outcome String :=
  match v.datum with
  | .object _ => v.refuse "string"
  | _ => .ok v.text

end InterpreterCore.Value

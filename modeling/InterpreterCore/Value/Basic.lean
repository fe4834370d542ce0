import InterpreterCore.Binary.Basic
import InterpreterCore.Instance

namespace InterpreterCore

/-- The kinds of data. -/
inductive Kind where
  | boolean
  | integer
  | float
  | double
  | string
  | object
deriving DecidableEq

/-- The name of a kind in diagnostics. -/
def Kind.name : Kind → String
  | boolean => "boolean"
  | integer => "integer"
  | float => "float"
  | double => "double"
  | string => "string"
  | object => "object"

/-- Whether the data of a kind are numbers. -/
def Kind.isNumeric : Kind → Bool
  | integer | float | double => true
  | boolean | string | object => false

/-- The data that a value carries. -/
inductive Datum where
  | boolean (b : Bool)
  | integer (n : Int64)
  | float (x : Single)
  | double (x : Double)
  | string (s : String)
  | object (o : Instance)
deriving DecidableEq

namespace Datum

def kind : Datum → Kind
  | boolean _ => .boolean
  | integer _ => .integer
  | float _ => .float
  | double _ => .double
  | string _ => .string
  | object _ => .object

/-- Equality of data. Data of different kinds differ, numbers are equal as numbers are, and
    objects are equal when they are one instance. -/
def equals : Datum → Datum → Bool
  | boolean a, boolean b => a == b
  | integer a, integer b => a == b
  | float a, float b => a.equals b
  | double a, double b => a.equals b
  | string a, string b => a == b
  | object a, object b => a.same b
  | _, _ => false

end Datum

/-- A datum and whether it is latched constant. Nothing here refuses to overwrite a constant; the
    storage that holds it does. -/
structure Value where
  datum : Datum
  isConst : Bool := false
deriving DecidableEq

namespace Value

def boolean (b : Bool) : Value := ⟨.boolean b, false⟩

def integer (n : Int64) : Value := ⟨.integer n, false⟩

def float (x : Single) : Value := ⟨.float x, false⟩

def double (x : Double) : Value := ⟨.double x, false⟩

def string (s : String) : Value := ⟨.string s, false⟩

def object (o : Instance) : Value := ⟨.object o, false⟩

def kind (v : Value) : Kind := v.datum.kind

def isNumeric (v : Value) : Bool := v.kind.isNumeric

/-- The text of a string value. -/
def asString? (v : Value) : Option String :=
  match v.datum with
  | .string s => some s
  | _ => none

/-- The instance of an object value. -/
def asObject? (v : Value) : Option Instance :=
  match v.datum with
  | .object o => some o
  | _ => none

/-- The value latched constant. -/
def latch (v : Value) : Value := { v with isConst := true }

/-- Equality of data, which the constant mark does not enter. -/
def sameData (l r : Value) : Bool := l.datum.equals r.datum

end Value

end InterpreterCore

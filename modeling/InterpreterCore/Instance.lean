namespace InterpreterCore

/-- A handle to an instance. Its identity is its number; the class is fixed when it is made. -/
structure Instance where
  id : Nat
  className : String
deriving DecidableEq

namespace Instance

/-- Two handles stand for one instance. -/
def same (x y : Instance) : Bool := x.id == y.id

/-- How an instance is shown. -/
def text (x : Instance) : String := "<" ++ x.className ++ " instance>"

end Instance

end InterpreterCore

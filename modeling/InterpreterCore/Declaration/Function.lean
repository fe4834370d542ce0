import InterpreterCore.Declaration.Table

namespace InterpreterCore

/-- A function, as far as storage is concerned: its name, the static nesting level at which its body
    runs, and its parameters in declaration order. The body belongs to whoever runs it. -/
structure FunctionDecl where
  name : String
  level : Nat
  parameters : List String := []
deriving DecidableEq

namespace FunctionDecl

/-- The number of parameters. -/
def arity (decl : FunctionDecl) : Nat := decl.parameters.length

/-- The implicit function that owns level zero. -/
def main : FunctionDecl where
  name := "%main"
  level := 0

instance : Declared FunctionDecl where
  noun := "function"
  name := FunctionDecl.name

end FunctionDecl

end InterpreterCore

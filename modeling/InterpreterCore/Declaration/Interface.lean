import InterpreterCore.Declaration.Table

namespace InterpreterCore

/-- An interface: a name and the names of the methods that a class provides under it. -/
structure InterfaceDecl where
  name : String
  methods : List String := []
deriving DecidableEq

namespace InterfaceDecl

/-- Whether the interface names a method. -/
def demands (decl : InterfaceDecl) (method : String) : Bool := decl.methods.contains method

instance : Declared InterfaceDecl where
  noun := "interface"
  name := InterfaceDecl.name

end InterfaceDecl

/-- The interfaces of a program. -/
abbrev InterfaceTable : Type := DeclTable InterfaceDecl

end InterpreterCore

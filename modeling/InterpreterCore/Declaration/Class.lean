import InterpreterCore.Declaration.Function

namespace InterpreterCore

/-- A class: its superclass and interfaces by name, and the methods and classes declared in it. -/
structure ClassDecl where
  name : String
  superclass : Option String := none
  interfaces : List String := []
  methods : List FunctionDecl := []
  classes : List ClassDecl := []

namespace ClassDecl

instance : Declared ClassDecl where
  noun := "class"
  name := ClassDecl.name

/-- The class with one more method, after those that it has. -/
def withMethod (decl : ClassDecl) (method : FunctionDecl) : ClassDecl :=
  { decl with methods := decl.methods ++ [method] }

/-- The class with one more class in it, after those that it has. -/
def withClass (decl nested : ClassDecl) : ClassDecl :=
  { decl with classes := decl.classes ++ [nested] }

/-- The method that the class itself declares under a name. -/
def method? (decl : ClassDecl) (name : String) : Option FunctionDecl :=
  decl.methods.find? fun method => method.name == name

/-- The class declared under a name immediately in the class. -/
def nested? (decl : ClassDecl) (name : String) : Option ClassDecl :=
  decl.classes.find? fun nested => nested.name == name

/-- Whether the class itself lists an interface. -/
def lists (decl : ClassDecl) (interface : String) : Bool := decl.interfaces.contains interface

mutual

/-- The first class of a name below a class. Each class comes before the classes in it, and those
    before the next class. -/
def findBelow? (name : String) : ClassDecl → Option ClassDecl
  | ⟨_, _, _, _, classes⟩ => findAmong? name classes

/-- The first class of a name among some classes and all the classes below them. -/
def findAmong? (name : String) : List ClassDecl → Option ClassDecl
  | [] => none
  | first :: rest =>
    if first.name = name then some first
    else
      match findBelow? name first with
      | some found => some found
      | none => findAmong? name rest

end

/-- The first class of a name at any depth below the class. -/
def descendant? (decl : ClassDecl) (name : String) : Option ClassDecl := findBelow? name decl

end ClassDecl

end InterpreterCore

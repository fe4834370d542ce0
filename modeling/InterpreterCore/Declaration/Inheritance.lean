import InterpreterCore.Declaration.Class

namespace InterpreterCore

/-- The classes that a program declares outside any other class. -/
abbrev ClassTable : Type := DeclTable ClassDecl

namespace ClassTable

/-- The implicit class that owns the classes of a program. -/
def root (table : ClassTable) : ClassDecl where
  name := "%program"
  classes := table.entries

/-- The first class of a name anywhere in the program. -/
def anywhere? (table : ClassTable) (name : String) : Option ClassDecl :=
  table.root.descendant? name

/-- The superclass of a class, if it names one and the program declares it. -/
def parent? (table : ClassTable) (decl : ClassDecl) : Option ClassDecl :=
  decl.superclass.bind table.anywhere?

/-- A class and its ancestors, nearest first, to at most the given number of classes. -/
def lineage (table : ClassTable) : Nat → ClassDecl → List ClassDecl
  | 0, _ => []
  | count + 1, decl =>
    decl :: match table.parent? decl with
      | some parent => table.lineage count parent
      | none => []

/-- How many classes a walk along superclasses visits. -/
def lineageLimit : Nat := 256

/-- The lineage of a named class; none if the program does not declare it. -/
def ancestry (table : ClassTable) (name : String) : List ClassDecl :=
  match table.anywhere? name with
  | some decl => table.lineage lineageLimit decl
  | none => []

/-- The method of a name that a class declares or inherits from its nearest ancestor with one. -/
def methodOf? (table : ClassTable) (className method : String) : Option FunctionDecl :=
  (table.ancestry className).findSome? fun decl => decl.method? method

/-- Whether a class or one of its ancestors lists an interface. -/
def implements (table : ClassTable) (className interface : String) : Bool :=
  (table.ancestry className).any fun decl => decl.lists interface

end ClassTable

end InterpreterCore

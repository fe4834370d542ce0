import InterpreterCore.Display.Basic

namespace InterpreterCore.Display

/-- Declare a class outside any other class, under the display's policy. -/
def declareClass (decl : ClassDecl) : Update Display ClassDecl := fun display =>
  Update.within (fun display => .ok display.classes)
    (fun classes display => { display with classes })
    (DeclTable.add display.redefinition decl) display

/-- The first class of a name anywhere in the program, which is expected to exist. -/
def requireClass (display : Display) (name : String) : Outcome ClassDecl :=
  match display.classes.anywhere? name with
  | some decl => .ok decl
  | none => .error (.undefinedClass name)

/-- Declare an interface, under the display's policy. -/
def declareInterface (decl : InterfaceDecl) : Update Display InterfaceDecl := fun display =>
  Update.within (fun display => .ok display.interfaces)
    (fun interfaces display => { display with interfaces })
    (DeclTable.add display.redefinition decl) display

/-- The interface of a name, which is expected to exist. -/
def requireInterface (display : Display) (name : String) : Outcome InterfaceDecl :=
  match display.interfaces.find? name with
  | some decl => .ok decl
  | none => .error (.undefinedInterface name)

end InterpreterCore.Display

import InterpreterCore.Display.Basic

namespace InterpreterCore.Display

/-- The innermost function of a name. -/
def function? (display : Display) (name : String) : Option FunctionDecl :=
  display.innermost? fun _ frame => frame.activation.function? name

/-- The innermost function of a name, which is expected to exist. -/
def requireFunction (display : Display) (name : String) : Outcome FunctionDecl :=
  match display.function? name with
  | some decl => .ok decl
  | none => .error (.undefinedFunction name)

/-- The function that the current scope itself declares under a name. -/
def functionHere? (display : Display) (name : String) : Option FunctionDecl :=
  (display.activation? display.level).bind fun activation => activation.function? name

/-- Declare a function in the current scope. -/
def declare (decl : FunctionDecl) : Update Display Unit := fun display =>
  onCurrent (Frame.onActivation (Activation.declare display.redefinition decl)) display

/-- Declare a function in the current scope whose body runs one level deeper. -/
def declareInner (name : String) (parameters : List String) : Update Display FunctionDecl := do
  let level ← Update.read innerLevel
  let decl : FunctionDecl := { name, level, parameters }
  declare decl
  return decl

/-- Take a function of the current scope away and return it. -/
def undeclare (name : String) : Update Display (Option FunctionDecl) := fun display =>
  match display.frame? display.level with
  | none => .ok none display
  | some _ => onCurrent (Frame.onActivation (Activation.undeclare name)) display

/-- The functions of the current scope, in the order of their latest declarations. -/
def functions (display : Display) : List FunctionDecl :=
  match display.activation? display.level with
  | some activation => activation.functions
  | none => []

end InterpreterCore.Display

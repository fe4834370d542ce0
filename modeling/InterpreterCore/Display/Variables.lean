import InterpreterCore.Display.Basic

namespace InterpreterCore.Display

/-- The innermost variable of a name. -/
def resolve? (display : Display) (name : String) : Option Reference :=
  display.innermost? fun depth frame =>
    (frame.activation.slotOf? name).map fun slot => ⟨depth, slot, frame.stamp⟩

/-- The value that a reference leads to. -/
def get (display : Display) (reference : Reference) : Outcome Value :=
  issuer reference display >>= fun frame => frame.activation.value reference.slot

/-- The value of the innermost variable of a name. -/
def lookup (display : Display) (name : String) : Outcome Value :=
  match display.resolve? name with
  | some reference => display.get reference
  | none => .error (.undefinedVariable name)

/-- Store through a reference, over a constant too. -/
def store (reference : Reference) (value : Value) : Update Display Unit :=
  onIssuer reference (Frame.onActivation (Activation.store reference.slot value))

/-- Store through a reference, unless a constant is stored there. -/
def assign (reference : Reference) (value : Value) : Update Display Unit :=
  onIssuer reference (Frame.onActivation (Activation.assign reference.slot value))

/-- Define a variable in the current scope. -/
def define (name : String) : Update Display Reference := fun display =>
  let inFrame : Update Frame Reference := fun frame =>
    (Frame.onActivation (Activation.define display.redefinition name)).map
      (fun slot => ⟨display.level, slot, frame.stamp⟩) frame
  onCurrent inFrame display

/-- Remove a variable of the current scope. The answer is whether there was one. -/
def remove (name : String) : Update Display Bool := fun display =>
  match display.frame? display.level with
  | none => .ok false display
  | some _ => onCurrent (Frame.onActivation (Activation.remove name)) display

/-- The names of the variables of the current scope, in the order of their slots. -/
def variableNames (display : Display) : List String :=
  match display.activation? display.level with
  | some activation => activation.visibleNames
  | none => []

end InterpreterCore.Display

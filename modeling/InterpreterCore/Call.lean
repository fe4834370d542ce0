import InterpreterCore.Display.Declarations
import InterpreterCore.Display.Functions
import InterpreterCore.Display.Variables
import InterpreterCore.Instance.Heap

namespace InterpreterCore

namespace Display

/-- The display with an activation running at its static level under the next mark. -/
def install (display : Display) (activation : Activation) : Display :=
  { display.withFrame activation.level (some ⟨display.nextStamp, activation⟩) with
    level := activation.level
    nextStamp := display.nextStamp.next }

/-- The display after a call at a level has ended: the earlier occupant of the level is back, and so
    is the level that was current. -/
def restore (display : Display) (level : Nat) (occupant : Option Frame) (current : Nat) : Display :=
  { display.withFrame level occupant with level := current }

end Display

/-- The state of a run: the display, the fields of all instances, and what the evaluator of
    function bodies keeps for itself. -/
structure Machine (σ : Type) where
  display : Display
  heap : Heap := {}
  host : σ

/-- An evaluator runs the body of a function whose activation has just been installed. It may
    change the whole state, and make calls of its own. -/
abbrev Evaluator (σ : Type) : Type := FunctionDecl → Update (Machine σ) Value

namespace Machine

variable {σ α : Type}

/-- An operation on the display. -/
def onDisplay (operation : Update Display α) : Update (Machine σ) α :=
  Update.within (fun machine => .ok machine.display)
    (fun display machine => { machine with display }) operation

/-- Run an activation at its static level. Afterwards what was installed there is back, and so is the
    level that was current, whether the body ended in a value or in a fault. -/
def call (activation : Activation) (evaluate : Evaluator σ) : Update (Machine σ) Value :=
  fun machine =>
    let occupant := machine.display.frame? activation.level
    let current := machine.display.level
    let restored (after : Machine σ) : Machine σ :=
      { after with display := after.display.restore activation.level occupant current }
    match machine.display.allow activation.level with
    | .error fault => .error fault machine
    | .ok () =>
      match evaluate activation.function
          { machine with display := machine.display.install activation } with
      | .ok value after => .ok value (restored after)
      | .error fault after => .error fault (restored after)

/-- Store a value in a field of an instance. -/
def setField (o : Instance) (name : String) (value : Value) : Update (Machine σ) Unit :=
  fun machine => .ok () { machine with heap := machine.heap.setField o name value }

end Machine

end InterpreterCore

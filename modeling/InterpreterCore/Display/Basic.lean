import InterpreterCore.Activation.Functions
import InterpreterCore.Declaration.Inheritance
import InterpreterCore.Declaration.Interface

namespace InterpreterCore

/-- The mark of one installation of an activation. Marks are handed out in turn and start again
    when the words are used up. -/
structure Stamp where
  number : UInt64
deriving DecidableEq

/-- The mark that is handed out after another. -/
def Stamp.next (stamp : Stamp) : Stamp := ⟨stamp.number + 1⟩

/-- An installed activation and the mark of its installation. -/
structure Frame where
  stamp : Stamp
  activation : Activation
deriving DecidableEq

/-- A variable by level and slot. It is usable while the activation it was issued for is installed
    at its level. -/
structure Reference where
  depth : Nat
  slot : Nat
  stamp : Stamp
deriving DecidableEq

/-- The activations of a run, one for each static nesting level, and the declarations that are not
    bound to a level. The body of a function runs at the function's own level, so the levels from
    the current one down to zero are exactly the scopes that enclose the running code. -/
structure Display where
  frames : Array (Option Frame)
  level : Nat
  nextStamp : Stamp
  levelLimit : Nat
  redefinition : Redefinition
  classes : ClassTable
  interfaces : InterfaceTable

namespace Display

/-- The choices with which a display is made. -/
structure Settings where
  /-- The number of static levels, level zero included. A display has at least that one. -/
  levelLimit : Nat := 64
  redefinition : Redefinition := .reject

/-- A display on which the main function is installed at level zero. -/
def create (settings : Settings) : Display where
  frames := #[some ⟨⟨0⟩, .ofFunction .main⟩]
  level := 0
  nextStamp := ⟨1⟩
  levelLimit := max settings.levelLimit 1
  redefinition := settings.redefinition
  classes := {}
  interfaces := {}

/-- The frame installed at a level. -/
def frame? (display : Display) (level : Nat) : Option Frame := display.frames[level]?.join

/-- The activation installed at a level. -/
def activation? (display : Display) (level : Nat) : Option Activation :=
  (display.frame? level).map Frame.activation

/-- The display with another occupant at a level. Levels past the known ones are vacant until they
    are first occupied. -/
def withFrame (display : Display) (level : Nat) (occupant : Option Frame) : Display :=
  let vacant := Array.replicate (level + 1 - display.frames.size) none
  { display with frames := (display.frames ++ vacant).setIfInBounds level occupant }

/-- Levels from the limit on cannot be occupied. -/
def allow (display : Display) (level : Nat) : Outcome Unit :=
  if level < display.levelLimit then .ok ()
  else .error (.nestingLimitExceeded level display.levelLimit)

/-- The level at which a function declared in the current scope runs. -/
def innerLevel (display : Display) : Outcome Nat :=
  (display.allow (display.level + 1)).map fun _ => display.level + 1

/-- The first answer found at a level or, level by level, below it. Vacant levels are passed
    over. -/
def searchFrom {α : Type} (display : Display) (find : Nat → Frame → Option α) :
    Nat → Option α
  | 0 => (display.frame? 0).bind (find 0)
  | level + 1 =>
    match (display.frame? (level + 1)).bind (find (level + 1)) with
    | some found => some found
    | none => display.searchFrom find level

/-- The innermost answer among the scopes of the running code. -/
def innermost? {α : Type} (display : Display) (find : Nat → Frame → Option α) : Option α :=
  display.searchFrom find display.level

/-- The frame at a level that is to be changed. -/
def occupied (level : Nat) (display : Display) : Outcome Frame :=
  match display.frame? level with
  | some frame => .ok frame
  | none => .error (.vacantLevel level)

/-- The frame that a reference was issued for. -/
def issuer (reference : Reference) (display : Display) : Outcome Frame :=
  match display.frame? reference.depth with
  | some frame =>
    if frame.stamp = reference.stamp then .ok frame
    else .error (.staleReference reference.depth)
  | none => .error (.staleReference reference.depth)

end Display

/-- An operation on an activation, as one on the frame that holds it. -/
def Frame.onActivation {α : Type} (operation : Update Activation α) : Update Frame α :=
  Update.within (fun frame => .ok frame.activation)
    (fun activation frame => { frame with activation }) operation

namespace Display

/-- An operation on the frame of the current level. -/
def onCurrent {α : Type} (operation : Update Frame α) : Update Display α := fun display =>
  Update.within (occupied display.level) (fun frame display => display.withFrame display.level frame)
    operation display

/-- An operation on the frame that a reference was issued for. -/
def onIssuer {α : Type} (reference : Reference) (operation : Update Frame α) : Update Display α :=
  Update.within (issuer reference)
    (fun frame display => display.withFrame reference.depth frame) operation

end Display

end InterpreterCore

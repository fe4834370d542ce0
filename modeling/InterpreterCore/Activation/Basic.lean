import InterpreterCore.Declaration.Function
import InterpreterCore.Value.Basic

namespace InterpreterCore

/-- The storage of one variable, empty until something is stored. -/
structure Slot where
  name : String
  content : Option Value := none
deriving DecidableEq

/-- One instantiation of a function. Variables live in numbered slots, which are only ever added.
    The visible names are kept in the order of the slots that they stand for. -/
structure Activation where
  function : FunctionDecl
  slots : Array Slot := #[]
  visible : List (String × Nat) := []
  functions : List FunctionDecl := []
deriving DecidableEq

namespace Activation

/-- The static level at which the activation runs. -/
def level (activation : Activation) : Nat := activation.function.level

/-- The first of some names that is among those before it. -/
def firstRepeated? (before : List String) : List String → Option String
  | [] => none
  | name :: rest => if name ∈ before then some name else firstRepeated? (name :: before) rest

/-- An activation with an empty slot for each parameter, in declaration order. -/
def ofFunction (function : FunctionDecl) : Activation where
  function := function
  slots := (function.parameters.map fun name => { name }).toArray
  visible := function.parameters.zipIdx

/-- A fresh activation of a function whose parameters have distinct names. -/
def fresh (function : FunctionDecl) : Outcome Activation :=
  match firstRepeated? [] function.parameters with
  | some name => .error (.duplicateDefinition "parameter" name)
  | none => .ok (ofFunction function)

/-- The slot that a visible name stands for. -/
def slotOf? (activation : Activation) (name : String) : Option Nat :=
  activation.visible.lookup name

/-- The name that a slot was made for. -/
def nameOf? (activation : Activation) (slot : Nat) : Option String :=
  activation.slots[slot]?.map Slot.name

/-- The visible names, in the order of their slots. -/
def visibleNames (activation : Activation) : List String := activation.visible.map Prod.fst

/-- The failure to reach a slot that does not exist. -/
def noSuchSlot (activation : Activation) (slot : Nat) : Fault :=
  .noSuchSlot slot activation.function.name

/-- The value stored in a slot. -/
def value (activation : Activation) (slot : Nat) : Outcome Value :=
  match activation.slots[slot]? with
  | some ⟨_, some stored⟩ => .ok stored
  | some ⟨name, none⟩ => .error (.uninitializedVariable name)
  | none => .error (activation.noSuchSlot slot)

/-- The storage after a value has been put into a slot, or a slot has been cleared. -/
def withContent (activation : Activation) (slot : Nat) (content : Option Value) : Activation :=
  { activation with
    slots := activation.slots.modify slot fun (stored : Slot) => { stored with content } }

/-- Store a value in a slot. -/
def store (slot : Nat) (value : Value) : Update Activation Unit := fun activation =>
  if slot < activation.slots.size then .ok () (activation.withContent slot (some value))
  else .error (activation.noSuchSlot slot) activation

/-- Store a value in a slot, unless the slot holds a constant. -/
def assign (slot : Nat) (value : Value) : Update Activation Unit := fun activation =>
  match activation.slots[slot]? with
  | some ⟨name, some stored⟩ =>
    if stored.isConst then .error (.constantAssignment name) activation
    else store slot value activation
  | _ => store slot value activation

/-- Bind a parameter, by its position. -/
def bindParameter (index : Nat) (value : Value) : Update Activation Unit := fun activation =>
  let function := activation.function
  if index < function.arity then store index value activation
  else .error (.argumentOutOfRange function.name index function.arity) activation

/-- The visible names without one of them. -/
def otherNames (activation : Activation) (name : String) : List (String × Nat) :=
  activation.visible.filter fun entry => entry.1 != name

/-- The storage with one more slot, which its name now stands for. -/
def withVariable (activation : Activation) (name : String) : Activation :=
  { activation with
    slots := activation.slots.push { name }
    visible := activation.otherNames name ++ [(name, activation.slots.size)] }

/-- Give a name a slot of its own and return the slot's number. A visible name is refused or moved
    as the policy says; its older slot stays as it is. -/
def define (policy : Redefinition) (name : String) : Update Activation Nat := fun activation =>
  if policy = .reject ∧ (activation.slotOf? name).isSome then
    .error (.duplicateDefinition "variable" name) activation
  else .ok activation.slots.size (activation.withVariable name)

/-- Hide a visible name and clear its slot. The answer is whether the name was visible. -/
def remove (name : String) : Update Activation Bool := fun activation =>
  match activation.slotOf? name with
  | none => .ok false activation
  | some slot =>
    .ok true { activation.withContent slot none with visible := activation.otherNames name }

end Activation

end InterpreterCore

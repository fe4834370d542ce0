import InterpreterCore.Operator

namespace InterpreterCore

/-- The cause of a failure. Kinds of values and of declarations appear under the names that
    diagnostics use for them. -/
inductive Fault where
  | divisionByZero
  | moduloByZero
  | integerOverflow (operation : String)
  /-- A primitive has no counterpart of the target kind. -/
  | invalidCast (value target : String)
  /-- Values of a kind cannot be turned into the target kind. -/
  | invalidCoercion (kind target : String)
  | invalidUnaryOp (kind : String) (op : UnaryOp)
  | invalidBinaryOp (kind : String) (op : BinaryOp)
  | binaryTypeMismatch (left right : String) (op : BinaryOp)
  | notComparable (left right : String)
  | undefinedVariable (name : String)
  | undefinedFunction (name : String)
  | undefinedClass (name : String)
  | undefinedInterface (name : String)
  | uninitializedVariable (name : String)
  /-- A name is declared twice in one scope. -/
  | duplicateDefinition (noun name : String)
  | constantAssignment (name : String)
  /-- The activation that a reference was issued for is not at its level. -/
  | staleReference (depth : Nat)
  | argumentOutOfRange (function : String) (index arity : Nat)
  | nestingLimitExceeded (level limit : Nat)
  /-- A slot number lies past the slots of an activation. -/
  | noSuchSlot (slot : Nat) (function : String)
  /-- No activation is at the level that is to be changed. -/
  | vacantLevel (level : Nat)
  /-- A failure that the running program raises in its own words. -/
  | raised (message : String)
deriving DecidableEq

namespace Fault

/-- The text of a fault. -/
def message : Fault → String
  | divisionByZero => "division by zero"
  | moduloByZero => "modulo by zero"
  | integerOverflow operation => "integer overflow in " ++ operation
  | invalidCast value target => "could not cast " ++ value ++ " to " ++ target
  | invalidCoercion kind target => "cannot convert " ++ kind ++ " to " ++ target
  | invalidUnaryOp kind op => "operator `" ++ op.symbol ++ "` cannot be applied to " ++ kind
  | invalidBinaryOp kind op =>
    "operator `" ++ op.symbol ++ "` cannot be applied to " ++ kind
  | binaryTypeMismatch left right op =>
    "operator `" ++ op.symbol ++ "` cannot be applied to " ++ left ++ " and " ++ right
  | notComparable left right => "cannot compare " ++ left ++ " with " ++ right
  | undefinedVariable name => "undefined variable: " ++ name
  | undefinedFunction name => "undefined function: " ++ name
  | undefinedClass name => "undefined class: " ++ name
  | undefinedInterface name => "undefined interface: " ++ name
  | uninitializedVariable name => "variable " ++ name ++ " is used before it is assigned"
  | duplicateDefinition noun name => noun ++ " " ++ name ++ " is already defined in this scope"
  | constantAssignment name => "cannot assign to constant " ++ name
  | staleReference depth => "reference to level " ++ depth.repr ++ " outlived its activation"
  | argumentOutOfRange function index arity =>
    "argument " ++ index.repr ++ " is out of range for " ++ function ++ ", which takes " ++ arity.repr
  | nestingLimitExceeded level limit =>
    "function nesting level " ++ level.repr ++ " exceeds the maximum of " ++ limit.repr
  | noSuchSlot slot function => "slot " ++ slot.repr ++ " does not exist in " ++ function
  | vacantLevel level => "no activation at level " ++ level.repr
  | raised message => message

end Fault

/-- The result of an operation that reads and changes nothing. -/
abbrev Outcome (α : Type) : Type := Except Fault α

end InterpreterCore

import InterpreterCore.Update

namespace InterpreterCore

/-- What happens when a name is declared twice in one scope. -/
inductive Redefinition where
  /-- The second declaration fails. -/
  | reject
  /-- The second declaration takes the place of the first. -/
  | shadow
deriving DecidableEq

/-- Things that are declared under a name. -/
class Declared (α : Type) where
  /-- The word for such a thing in diagnostics. -/
  noun : String
  name : α → String

/-- The failure to declare a name that its scope already has. -/
def Declared.twice (α : Type) [Declared α] (name : String) : Fault :=
  .duplicateDefinition (noun α) name

/-- The declarations of one kind, in the order in which their names were first declared. -/
structure DeclTable (α : Type) where
  entries : List α := []

namespace DeclTable

variable {α : Type} [Declared α]

/-- The declared names, in order. -/
def names (table : DeclTable α) : List String := table.entries.map Declared.name

/-- The declaration of a name. -/
def find? (table : DeclTable α) (name : String) : Option α :=
  table.entries.find? fun entry => Declared.name entry == name

/-- Whether a name is declared. -/
def declares (table : DeclTable α) (name : String) : Bool :=
  table.entries.any fun entry => Declared.name entry == name

/-- Enter a declaration: at the place of the one with its name, or else at the end. -/
def put (table : DeclTable α) (decl : α) : DeclTable α :=
  if table.declares (Declared.name decl) then
    ⟨table.entries.map fun entry =>
      if Declared.name entry == Declared.name decl then decl else entry⟩
  else ⟨table.entries ++ [decl]⟩

/-- Declare a name. A name that is present is refused or replaced as the policy says. -/
def add (policy : Redefinition) (decl : α) : Update (DeclTable α) α := fun table =>
  if policy = .reject ∧ table.declares (Declared.name decl) = true then
    .error (Declared.twice α (Declared.name decl)) table
  else .ok decl (table.put decl)

end DeclTable

end InterpreterCore

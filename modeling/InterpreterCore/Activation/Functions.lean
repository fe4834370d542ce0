import InterpreterCore.Activation.Basic

namespace InterpreterCore.Activation

/-- The function declared under a name. -/
def function? (activation : Activation) (name : String) : Option FunctionDecl :=
  activation.functions.find? fun decl => decl.name == name

/-- The functions without that of a name. -/
def otherFunctions (activation : Activation) (name : String) : List FunctionDecl :=
  activation.functions.filter fun decl => decl.name != name

/-- Declare a function after all others. A declared name is refused or replaced as the policy
    says. -/
def declare (policy : Redefinition) (decl : FunctionDecl) : Update Activation Unit :=
  fun activation =>
    if policy = .reject ∧ (activation.function? decl.name).isSome then
      .error (Declared.twice FunctionDecl decl.name) activation
    else
      .ok () { activation with functions := activation.otherFunctions decl.name ++ [decl] }

/-- Take a declared function away and return it. -/
def undeclare (name : String) : Update Activation (Option FunctionDecl) := fun activation =>
  .ok (activation.function? name) { activation with functions := activation.otherFunctions name }

end InterpreterCore.Activation

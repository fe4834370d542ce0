import InterpreterCore.Proofs.Display.Edit

namespace InterpreterCore

/-- A question to a machine. It changes nothing. -/
inductive Query : Type → Type where
  | level : Query Nat
  | levelLimit : Query Nat
  | redefinition : Query Redefinition
  | activation (depth : Nat) : Query (Option Activation)
  | innerLevel : Query Nat
  | resolve (name : String) : Query (Option Reference)
  | lookup (name : String) : Query Value
  | get (reference : Reference) : Query Value
  | variableNames : Query (List String)
  | function (name : String) : Query (Option FunctionDecl)
  | requireFunction (name : String) : Query FunctionDecl
  | functionHere (name : String) : Query (Option FunctionDecl)
  | functions : Query (List FunctionDecl)
  | classes : Query ClassTable
  | requireClass (name : String) : Query ClassDecl
  | interfaces : Query InterfaceTable
  | requireInterface (name : String) : Query InterfaceDecl
  | field (o : Instance) (name : String) : Query (Option Value)

variable {σ α : Type}

/-- The answer to a question. -/
def Query.answer (machine : Machine σ) : Query α → Outcome α
  | level => .ok machine.display.level
  | levelLimit => .ok machine.display.levelLimit
  | redefinition => .ok machine.display.redefinition
  | activation depth => .ok (machine.display.activation? depth)
  | innerLevel => machine.display.innerLevel
  | resolve name => .ok (machine.display.resolve? name)
  | lookup name => machine.display.lookup name
  | get reference => machine.display.get reference
  | variableNames => .ok machine.display.variableNames
  | function name => .ok (machine.display.function? name)
  | requireFunction name => machine.display.requireFunction name
  | functionHere name => .ok (machine.display.functionHere? name)
  | functions => .ok machine.display.functions
  | classes => .ok machine.display.classes
  | requireClass name => machine.display.requireClass name
  | interfaces => .ok machine.display.interfaces
  | requireInterface name => machine.display.requireInterface name
  | field o name => .ok (machine.heap.field? o name)

/-- One step of a program, calls apart. -/
inductive Operation : Type → Type 1 where
  | ask {α : Type} (query : Query α) : Operation α
  | define (name : String) : Operation Reference
  | remove (name : String) : Operation Bool
  | store (reference : Reference) (value : Value) : Operation Unit
  | assign (reference : Reference) (value : Value) : Operation Unit
  | declare (decl : FunctionDecl) : Operation Unit
  | declareInner (name : String) (parameters : List String) : Operation FunctionDecl
  | undeclare (name : String) : Operation (Option FunctionDecl)
  | declareClass (decl : ClassDecl) : Operation ClassDecl
  | declareInterface (decl : InterfaceDecl) : Operation InterfaceDecl
  | allocate (className : String) : Operation Instance
  | setField (o : Instance) (name : String) (value : Value) : Operation Unit

/-- What an operation does to a machine. -/
def Operation.run : Operation α → Update (Machine σ) α
  | ask query => Update.read fun machine => query.answer machine
  | define name => Machine.onDisplay (Display.define name)
  | remove name => Machine.onDisplay (Display.remove name)
  | store reference value => Machine.onDisplay (Display.store reference value)
  | assign reference value => Machine.onDisplay (Display.assign reference value)
  | declare decl => Machine.onDisplay (Display.declare decl)
  | declareInner name parameters => Machine.onDisplay (Display.declareInner name parameters)
  | undeclare name => Machine.onDisplay (Display.undeclare name)
  | declareClass decl => Machine.onDisplay (Display.declareClass decl)
  | declareInterface decl => Machine.onDisplay (Display.declareInterface decl)
  | allocate className => fun machine =>
    let (o, heap) := machine.heap.allocate className
    .ok o { machine with heap }
  | setField o name value => Machine.setField o name value

/-- What an evaluator can do with a machine while it runs a body, as data. Each answer, also a
    failure, decides how the program goes on; the body of a call is a program again, and may depend
    on the function that is called. -/
inductive Program : Type 1 where
  | done (result : Outcome Value)
  | perform {α : Type} (operation : Operation α) (next : Outcome α → Program)
  | call (activation : Activation) (body : FunctionDecl → Program)
      (next : Outcome Value → Program)

namespace Program

/-- Run a program. Calls are those of the machine, with the bodies of the program. -/
def run : Program → Update (Machine σ) Value
  | done result => Update.read fun _ => result
  | perform operation next => fun machine =>
    (next (operation.run.answer machine)).run (operation.run.after machine)
  | call activation body next => fun machine =>
    let called := Machine.call activation fun function => (body function).run
    (next (called.answer machine)).run (called.after machine)

/-- Bodies as an evaluator of them. -/
def evaluator (body : FunctionDecl → Program) : Evaluator σ := fun function => (body function).run

theorem after_perform (operation : Operation α) (next : Outcome α → Program)
    (machine : Machine σ) :
    (perform operation next).run.after machine =
      (next (operation.run.answer machine)).run.after (operation.run.after machine) := rfl

theorem answer_perform (operation : Operation α) (next : Outcome α → Program)
    (machine : Machine σ) :
    (perform operation next).run.answer machine =
      (next (operation.run.answer machine)).run.answer (operation.run.after machine) := rfl

theorem after_call (activation : Activation) (body : FunctionDecl → Program)
    (next : Outcome Value → Program) (machine : Machine σ) :
    (call activation body next).run.after machine =
      (next ((Machine.call activation (evaluator body)).answer machine)).run.after
        ((Machine.call activation (evaluator body)).after machine) := rfl

theorem answer_call (activation : Activation) (body : FunctionDecl → Program)
    (next : Outcome Value → Program) (machine : Machine σ) :
    (call activation body next).run.answer machine =
      (next ((Machine.call activation (evaluator body)).answer machine)).run.answer
        ((Machine.call activation (evaluator body)).after machine) := rfl

/-- A program that ends with a call ends as the call does. -/
theorem answer_call_done (activation : Activation) (body : FunctionDecl → Program)
    (machine : Machine σ) :
    (call activation body done).run.answer machine =
      (Machine.call activation (evaluator body)).answer machine := by
  rw [answer_call, run, Update.answer_read]

theorem after_call_done (activation : Activation) (body : FunctionDecl → Program)
    (machine : Machine σ) :
    (call activation body done).run.after machine =
      (Machine.call activation (evaluator body)).after machine := by
  rw [after_call, run, Update.after_read]

end Program

namespace Machine

theorem answer_onDisplay (operation : Update Display α) (machine : Machine σ) :
    (onDisplay operation).answer machine = operation.answer machine.display := by
  rw [onDisplay, Update.answer_within]
  rfl

theorem after_onDisplay (operation : Update Display α) (machine : Machine σ) :
    (onDisplay operation).after machine =
      { machine with display := operation.after machine.display } := by
  rw [onDisplay, Update.after_within]

/-- The machine in which the body of a call starts. -/
def entered (machine : Machine σ) (activation : Activation) : Machine σ :=
  { machine with display := machine.display.install activation }

/-- The machine after a call whose body has ended in another machine. -/
def left (machine : Machine σ) (activation : Activation) (ended : Machine σ) : Machine σ :=
  { ended with
    display := ended.display.restore activation.level (machine.display.frame? activation.level)
      machine.display.level }

variable {activation : Activation} {machine : Machine σ}

/-- A call past the limit is refused and changes nothing. -/
theorem call_of_refused (evaluate : Evaluator σ)
    (hrefused : machine.display.levelLimit ≤ activation.level) :
    call activation evaluate machine =
      .error (.nestingLimitExceeded activation.level machine.display.levelLimit) machine := by
  simp only [call, Display.allow, if_neg (Nat.not_lt.mpr hrefused)]

theorem answer_call (evaluate : Evaluator σ)
    (hroom : activation.level < machine.display.levelLimit) :
    (call activation evaluate).answer machine =
      (evaluate activation.function).answer (machine.entered activation) := by
  simp only [Update.answer, call, Display.allow, if_pos hroom, entered]
  cases evaluate activation.function _ <;> rfl

theorem after_call (evaluate : Evaluator σ)
    (hroom : activation.level < machine.display.levelLimit) :
    (call activation evaluate).after machine =
      machine.left activation
        ((evaluate activation.function).after (machine.entered activation)) := by
  simp only [Update.after, call, Display.allow, if_pos hroom, entered, left]
  cases evaluate activation.function _ <;> rfl

end Machine

end InterpreterCore

import InterpreterCore.Proofs.Program.Basic

namespace InterpreterCore

variable {σ τ α β : Type}

/-- The outcome is a fault. -/
def Outcome.Failed (outcome : Outcome α) : Prop := ∃ fault, outcome = .error fault

namespace Update

/-- In a state, an operation whose answer is among the idle ones leaves the state as it is. -/
def IdleAt (idle : Outcome α → Prop) (operation : Update σ α) (state : σ) : Prop :=
  idle (operation.answer state) → operation.after state = state

/-- An operation that leaves every state in which it fails as it is. -/
def Atomic (operation : Update σ α) : Prop := ∀ state, operation.IdleAt Outcome.Failed state

/-- An operation on a part is idle where it is so on the part, if putting back what was read is no
    change. Where the part is missing nothing is changed anyway. -/
theorem IdleAt.within {idle : Outcome α → Prop} {part : σ → Outcome τ} {put : τ → σ → σ}
    {operation : Update τ α} {state : σ}
    (hput : ∀ inner, part state = .ok inner → put inner state = state)
    (hoperation : ∀ inner, part state = .ok inner → operation.IdleAt idle inner) :
    (Update.within part put operation).IdleAt idle state := by
  intro hidle
  rw [after_within]
  cases hpart : part state with
  | error fault => rfl
  | ok inner =>
    rw [answer_within, hpart] at hidle
    have hsame : operation.after inner = inner := hoperation inner hpart hidle
    dsimp only
    rw [hsame, hput inner hpart]

theorem IdleAt.map {operation : Update σ α} {state : σ} (f : α → β)
    (hoperation : operation.IdleAt Outcome.Failed state) :
    IdleAt Outcome.Failed (operation.map f) state := by
  rintro ⟨fault, hfault⟩
  have hanswer : answer (operation.map f) state = (operation.answer state).map f := by
    simp only [answer, EStateM.map]
    cases operation state <;> rfl
  have hafter : after (operation.map f) state = operation.after state := by
    simp only [after, EStateM.map]
    cases operation state <;> rfl
  rw [hafter]
  refine hoperation ⟨fault, ?_⟩
  rw [hanswer] at hfault
  cases houtcome : operation.answer state with
  | ok value =>
    rw [houtcome] at hfault
    cases hfault
  | error other =>
    rw [houtcome] at hfault
    exact congrArg Except.error (Except.error.inj hfault)

end Update

namespace Activation

theorem atomic_store (slot : Nat) (value : Value) : (Activation.store slot value).Atomic := by
  rintro activation ⟨fault, hfault⟩
  rw [answer_store] at hfault
  split at hfault
  · cases hfault
  · rename_i hslot
    rw [after_store, withContent_of_size_le _ _ (Nat.le_of_not_lt hslot)]

theorem atomic_assign (slot : Nat) (value : Value) : (Activation.assign slot value).Atomic := by
  intro activation hfailed
  cases hconstant : activation.holdsConstant slot with
  | true =>
    obtain ⟨name, _, hrefused⟩ := assign_of_constant value hconstant
    rw [Update.after, hrefused]
  | false =>
    have hsame := assign_of_not_constant value hconstant
    simp only [Update.answer, Update.after, hsame] at hfailed ⊢
    exact atomic_store slot value activation hfailed

theorem atomic_bindParameter (index : Nat) (value : Value) :
    (bindParameter index value).Atomic := by
  intro activation hfailed
  by_cases hindex : index < activation.function.arity
  · simp only [Update.answer, Update.after, bindParameter, if_pos hindex] at hfailed ⊢
    exact atomic_store index value activation hfailed
  · rw [after_bindParameter, if_neg hindex]

theorem atomic_define (policy : Redefinition) (name : String) :
    (Activation.define policy name).Atomic := by
  rintro activation ⟨fault, hfault⟩
  rw [answer_define] at hfault
  split at hfault
  · rename_i hrefused
    rw [after_define, if_pos hrefused]
  · cases hfault

theorem atomic_declare (policy : Redefinition) (decl : FunctionDecl) :
    (Activation.declare policy decl).Atomic := by
  rintro activation ⟨fault, hfault⟩
  rw [answer_declare] at hfault
  split at hfault
  · rename_i hrefused
    rw [after_declare, if_pos hrefused]
  · cases hfault

/-- Where there is no variable to remove, nothing is removed. -/
theorem idleAt_remove (name : String) (activation : Activation) :
    (Activation.remove name).IdleAt (· = .ok false) activation := by
  intro hnothing
  rw [answer_remove] at hnothing
  have habsent : activation.slotOf? name = none :=
    Option.isSome_eq_false_iff.mp (Except.ok.inj hnothing) |> Option.isNone_iff_eq_none.mp
  rw [after_remove, habsent]

/-- Where there is no function to take away, none is taken away. -/
theorem idleAt_undeclare (name : String) (activation : Activation) :
    (Activation.undeclare name).IdleAt (· = .ok none) activation := by
  intro hnothing
  have habsent : activation.function? name = none := Except.ok.inj hnothing
  have hothers : activation.otherFunctions name = activation.functions := by
    rw [otherFunctions, List.filter_eq_self]
    intro decl hdecl
    have hname := List.find?_eq_none.mp habsent decl hdecl
    simpa using hname
  rw [after_undeclare, hothers]

end Activation

theorem DeclTable.atomic_add [Declared α] (policy : Redefinition) (decl : α) :
    (DeclTable.add policy decl).Atomic := by
  rintro table ⟨fault, hfault⟩
  by_cases hrefused : policy = .reject ∧ table.declares (Declared.name decl) = true
  · simp only [Update.after, add, if_pos hrefused]
  · simp only [Update.answer, add, if_neg hrefused] at hfault
    cases hfault

namespace Display

variable {idle : Outcome α → Prop} {display : Display}

theorem idleAt_onActivation {operation : Update Activation α} {frame : Frame}
    (hoperation : operation.IdleAt idle frame.activation) :
    (Frame.onActivation operation).IdleAt idle frame := by
  refine .within (fun _ hread => ?_) fun _ hread => ?_
  · rw [← Except.ok.inj hread]
  · rw [← Except.ok.inj hread]
    exact hoperation

theorem idleAt_onCurrent (display : Display) {operation : Update Frame α}
    (hoperation : ∀ frame, operation.IdleAt idle frame) :
    (onCurrent operation).IdleAt idle display := by
  refine Update.IdleAt.within (fun frame hread => ?_) fun frame _ => hoperation frame
  unfold occupied at hread
  split at hread
  · rename_i hframe
    cases hread
    exact withFrame_of_frame? hframe
  · cases hread

theorem atomic_onIssuer {operation : Update Activation α} (hoperation : operation.Atomic)
    (reference : Reference) : (onIssuer reference (Frame.onActivation operation)).Atomic := by
  intro display
  refine .within (fun frame hread => ?_) fun frame _ => ?_
  · exact withFrame_of_frame? (frame?_of_issuer hread).1
  · exact idleAt_onActivation (hoperation _)

theorem atomic_define (name : String) : (define name).Atomic := fun display =>
  idleAt_onCurrent display fun _ =>
    (idleAt_onActivation (Activation.atomic_define display.redefinition name _)).map _

theorem atomic_declare (decl : FunctionDecl) : (declare decl).Atomic := fun display =>
  idleAt_onCurrent display fun _ =>
    idleAt_onActivation (Activation.atomic_declare display.redefinition decl _)

theorem atomic_store (reference : Reference) (value : Value) : (store reference value).Atomic :=
  atomic_onIssuer (Activation.atomic_store reference.slot value) reference

theorem atomic_assign (reference : Reference) (value : Value) : (assign reference value).Atomic :=
  atomic_onIssuer (Activation.atomic_assign reference.slot value) reference

/-- The level is checked before anything is declared. -/
theorem atomic_declareInner (name : String) (parameters : List String) :
    (declareInner name parameters).Atomic := by
  intro display hfailed
  by_cases hroom : display.level + 1 < display.levelLimit
  · simp only [Update.answer, Update.after, declareInner_eq, if_pos hroom] at hfailed ⊢
    exact (atomic_declare _ display).map _ hfailed
  · rw [after_declareInner, if_neg hroom]

theorem idleAt_remove (name : String) (display : Display) :
    (remove name).IdleAt (· = .ok false) display := by
  intro hnothing
  cases hframe : display.frame? display.level with
  | none => simp only [Update.after, remove, hframe]
  | some frame =>
    simp only [Update.answer, Update.after, remove, hframe] at hnothing ⊢
    exact idleAt_onCurrent _ (fun _ => idleAt_onActivation (Activation.idleAt_remove name _)) hnothing

theorem idleAt_undeclare (name : String) (display : Display) :
    (undeclare name).IdleAt (· = .ok none) display := by
  intro hnothing
  cases hframe : display.frame? display.level with
  | none => simp only [Update.after, undeclare, hframe]
  | some frame =>
    simp only [Update.answer, Update.after, undeclare, hframe] at hnothing ⊢
    exact idleAt_onCurrent _ (fun _ => idleAt_onActivation (Activation.idleAt_undeclare name _))
      hnothing

/-- Neither removal fails. What is not there is reported as such. -/
theorem not_failed_remove (name : String) (display : Display) :
    ¬ ((remove name).answer display).Failed := by
  rintro ⟨fault, hfault⟩
  cases hframe : display.frame? display.level with
  | none =>
    rw [answer_remove_of_vacant name hframe] at hfault
    cases hfault
  | some frame =>
    rw [answer_remove name hframe] at hfault
    cases hfault

theorem not_failed_undeclare (name : String) (display : Display) :
    ¬ ((undeclare name).answer display).Failed := by
  rintro ⟨fault, hfault⟩
  cases hframe : display.frame? display.level with
  | none =>
    rw [answer_undeclare_of_vacant name hframe] at hfault
    cases hfault
  | some frame =>
    rw [answer_undeclare name hframe] at hfault
    cases hfault

theorem atomic_declareClass (decl : ClassDecl) : (declareClass decl).Atomic := by
  rintro display ⟨fault, hfault⟩
  rw [answer_declareClass] at hfault
  have hsame := DeclTable.atomic_add display.redefinition decl display.classes ⟨fault, hfault⟩
  rw [after_declareClass, hsame]

theorem atomic_declareInterface (decl : InterfaceDecl) : (declareInterface decl).Atomic := by
  rintro display ⟨fault, hfault⟩
  rw [answer_declareInterface] at hfault
  have hsame := DeclTable.atomic_add display.redefinition decl display.interfaces ⟨fault, hfault⟩
  rw [after_declareInterface, hsame]

end Display

theorem Machine.idleAt_onDisplay {idle : Outcome α → Prop} {operation : Update Display α}
    {machine : Machine σ} (hoperation : operation.IdleAt idle machine.display) :
    (onDisplay operation).IdleAt idle machine := by
  refine .within (fun _ hread => ?_) fun _ hread => ?_
  · rw [← Except.ok.inj hread]
  · rw [← Except.ok.inj hread]
    exact hoperation

/-- A program's operation that fails leaves the whole machine as it is. -/
theorem Operation.atomic_run (operation : Operation α) :
    (operation.run : Update (Machine σ) α).Atomic := by
  intro machine hfailed
  cases operation with
  | ask query => rw [run, Update.after_read]
  | define name => exact Machine.idleAt_onDisplay (Display.atomic_define name _) hfailed
  | remove name =>
    rw [run, Machine.answer_onDisplay] at hfailed
    exact absurd hfailed (Display.not_failed_remove name _)
  | store reference value =>
    exact Machine.idleAt_onDisplay (Display.atomic_store reference value _) hfailed
  | assign reference value =>
    exact Machine.idleAt_onDisplay (Display.atomic_assign reference value _) hfailed
  | declare decl => exact Machine.idleAt_onDisplay (Display.atomic_declare decl _) hfailed
  | declareInner name parameters =>
    exact Machine.idleAt_onDisplay (Display.atomic_declareInner name parameters _) hfailed
  | undeclare name =>
    rw [run, Machine.answer_onDisplay] at hfailed
    exact absurd hfailed (Display.not_failed_undeclare name _)
  | declareClass decl =>
    exact Machine.idleAt_onDisplay (Display.atomic_declareClass decl _) hfailed
  | declareInterface decl =>
    exact Machine.idleAt_onDisplay (Display.atomic_declareInterface decl _) hfailed
  | allocate className =>
    obtain ⟨fault, hfault⟩ := hfailed
    cases hfault
  | setField o name value =>
    obtain ⟨fault, hfault⟩ := hfailed
    cases hfault

/-- A call past the limit is refused before anything is installed. -/
theorem Machine.call_of_disallowed {activation : Activation} {machine : Machine σ} {fault : Fault}
    (evaluate : Evaluator σ) (hrefused : machine.display.allow activation.level = .error fault) :
    call activation evaluate machine = .error fault machine := by
  rw [call, hrefused]

/-- What is refused and what finds nothing to do changes nothing. An operation of a program that
    fails, a removal that reports that there was nothing of the name, and a call that is refused for
    its level leave the machine as it is: the current level, all frames with their marks, slots,
    names and functions, the next mark, the classes and the interfaces. An operation on an activation
    that is not installed leaves it as it is when it fails. All of this holds in every state, be it
    one of a run or not. -/
theorem declined_unchanged (σ : Type) :
    (∀ {α : Type} (operation : Operation α), (operation.run : Update (Machine σ) α).Atomic) ∧
    (∀ name (machine : Machine σ),
      (Operation.remove name).run.IdleAt (· = .ok false) machine ∧
      (Operation.undeclare name).run.IdleAt (· = .ok none) machine) ∧
    (∀ activation (machine : Machine σ) fault,
      machine.display.allow activation.level = .error fault →
      ∀ evaluate, Machine.call activation evaluate machine = .error fault machine) ∧
    (∀ index value, (Activation.bindParameter index value).Atomic) ∧
    (∀ slot value, (Activation.store slot value).Atomic) ∧
    (∀ policy name, (Activation.define policy name).Atomic) ∧
    (∀ policy decl, (Activation.declare policy decl).Atomic) :=
  ⟨fun operation => operation.atomic_run,
    fun name machine => ⟨Machine.idleAt_onDisplay (Display.idleAt_remove name machine.display),
      Machine.idleAt_onDisplay (Display.idleAt_undeclare name machine.display)⟩,
    fun _ _ _ hrefused evaluate => Machine.call_of_disallowed evaluate hrefused,
    Activation.atomic_bindParameter, Activation.atomic_store, Activation.atomic_define,
    Activation.atomic_declare⟩

/-- In a body at the limit, where a constant is in place: a second definition of its name, an
    assignment to it, an inner function and a removal of another name are declined, each for its own
    reason, and the machine stays as it is. -/
theorem declined_at_limit :
    let reference : Reference := ⟨0, 0, ⟨0⟩⟩
    let constant : Value := ⟨.boolean true, true⟩
    let machine : Machine Unit :=
      (Operation.store reference constant).run.after
        ((Operation.define "x").run.after ⟨.create { levelLimit := 1 }, {}, ()⟩)
    let declined {α : Type} (operation : Operation α) (outcome : Outcome α) : Prop :=
      operation.run.answer machine = outcome ∧ operation.run.after machine = machine
    declined (.define "x") (.error (.duplicateDefinition "variable" "x")) ∧
      declined (.assign reference (.boolean false)) (.error (.constantAssignment "x")) ∧
      declined (.declareInner "f" []) (.error (.nestingLimitExceeded 1 1)) ∧
      declined (.remove "y") (.ok false) := by
  intro reference constant machine declined
  obtain ⟨hoperations, hremovals, _⟩ := declined_unchanged Unit
  exact ⟨⟨rfl, hoperations _ _ ⟨_, rfl⟩⟩, ⟨rfl, hoperations _ _ ⟨_, rfl⟩⟩,
    ⟨rfl, hoperations _ _ ⟨_, rfl⟩⟩, rfl, (hremovals "y" machine).1 rfl⟩

end InterpreterCore

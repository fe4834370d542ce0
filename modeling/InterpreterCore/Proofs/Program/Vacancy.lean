import InterpreterCore.Proofs.Program.Effect

namespace InterpreterCore

variable {σ α β : Type}

/-- The answer is not that a level is vacant. -/
def Outcome.NotVacant (outcome : Outcome α) : Prop :=
  ∀ level, outcome ≠ .error (.vacantLevel level)

namespace Outcome

theorem notVacant_ok (value : α) : NotVacant (.ok value) := by
  intro level h
  cases h

theorem notVacant_ite {condition : Prop} [Decidable condition] {first second : Outcome α}
    (hfirst : NotVacant first) (hsecond : NotVacant second) :
    NotVacant (if condition then first else second) := by
  split
  · exact hfirst
  · exact hsecond

theorem NotVacant.map {outcome : Outcome α} (hnot : NotVacant outcome) (f : α → β) :
    NotVacant (outcome.map f) := by
  intro level h
  cases outcome with
  | ok value => cases h
  | error fault => exact hnot level (congrArg Except.error (Except.error.inj h))

theorem notVacant_error {fault : Fault} (hfault : ∀ level, fault ≠ .vacantLevel level) :
    NotVacant (α := α) (.error fault) := by
  intro level h
  exact hfault level (Except.error.inj h)

end Outcome

open Outcome

namespace Activation

theorem notVacant_value (activation : Activation) (slot : Nat) :
    NotVacant (activation.value slot) := by
  intro level h
  unfold Activation.value at h
  split at h <;> cases h

theorem notVacant_store (activation : Activation) (slot : Nat) (value : Value) :
    NotVacant ((Activation.store slot value).answer activation) := by
  rw [answer_store]
  exact notVacant_ite (notVacant_ok _) (notVacant_error fun _ h => by cases h)

theorem notVacant_define (activation : Activation) (policy : Redefinition) (name : String) :
    NotVacant ((Activation.define policy name).answer activation) := by
  rw [answer_define]
  exact notVacant_ite (notVacant_error fun _ h => by cases h) (notVacant_ok _)

theorem notVacant_declare (activation : Activation) (policy : Redefinition)
    (decl : FunctionDecl) :
    NotVacant ((Activation.declare policy decl).answer activation) := by
  rw [answer_declare]
  exact notVacant_ite (notVacant_error fun _ h => by cases h) (notVacant_ok _)

end Activation

theorem DeclTable.notVacant_add [Declared α] (table : DeclTable α) (policy : Redefinition)
    (decl : α) : NotVacant ((DeclTable.add policy decl).answer table) := by
  intro level h
  simp only [Update.answer, add] at h
  by_cases hrefused : policy = .reject ∧ table.declares (Declared.name decl) = true
  · simp only [if_pos hrefused] at h
    cases h
  · simp only [if_neg hrefused] at h
    cases h

namespace Display

theorem notVacant_allow (display : Display) (level : Nat) : NotVacant (display.allow level) :=
  notVacant_ite (notVacant_ok _) (notVacant_error fun _ h => by cases h)

theorem notVacant_get (display : Display) (reference : Reference) :
    NotVacant (display.get reference) := by
  unfold get
  cases hissuer : display.issuer reference with
  | ok frame => exact Activation.notVacant_value _ _
  | error fault =>
    intro level h
    obtain rfl := issuer_error hissuer
    cases h

theorem notVacant_store (display : Display) (reference : Reference) (value : Value) :
    NotVacant ((store reference value).answer display) := by
  cases hissuer : display.issuer reference with
  | ok frame =>
    rw [answer_store value hissuer]
    exact Activation.notVacant_store _ _ _
  | error fault =>
    intro level h
    simp only [Update.answer, store_of_issuer_error value hissuer, issuer_error hissuer] at h
    cases h

theorem notVacant_assign (display : Display) (reference : Reference) (value : Value) :
    NotVacant ((assign reference value).answer display) := by
  cases hissuer : display.issuer reference with
  | ok frame =>
    cases hconstant : frame.activation.holdsConstant reference.slot with
    | true =>
      obtain ⟨name, _, hrefused⟩ := assign_of_constant value hissuer hconstant
      intro level h
      simp only [Update.answer, hrefused] at h
      cases h
    | false =>
      have hsame := assign_of_not_constant value hissuer hconstant
      simp only [Update.answer, hsame]
      exact notVacant_store display reference value
  | error fault =>
    intro level h
    simp only [Update.answer, assign_of_issuer_error value hissuer, issuer_error hissuer] at h
    cases h

end Display

/-- No question is answered with a vacant level. -/
theorem Query.notVacant_answer (machine : Machine σ) (query : Query α) :
    NotVacant (query.answer machine) := by
  cases query with
  | innerLevel => exact (Display.notVacant_allow _ _).map _
  | lookup name =>
    simp only [answer, Display.lookup]
    split
    · exact Display.notVacant_get _ _
    · exact notVacant_error fun _ h => by cases h
  | get reference => exact Display.notVacant_get _ _
  | requireFunction name =>
    simp only [answer, Display.requireFunction]
    split
    · exact notVacant_ok _
    · exact notVacant_error fun _ h => by cases h
  | requireClass name =>
    simp only [answer, Display.requireClass]
    split
    · exact notVacant_ok _
    · exact notVacant_error fun _ h => by cases h
  | requireInterface name =>
    simp only [answer, Display.requireInterface]
    split
    · exact notVacant_ok _
    · exact notVacant_error fun _ h => by cases h
  | level => exact notVacant_ok _
  | levelLimit => exact notVacant_ok _
  | redefinition => exact notVacant_ok _
  | activation depth => exact notVacant_ok _
  | resolve name => exact notVacant_ok _
  | variableNames => exact notVacant_ok _
  | function name => exact notVacant_ok _
  | functionHere name => exact notVacant_ok _
  | functions => exact notVacant_ok _
  | classes => exact notVacant_ok _
  | interfaces => exact notVacant_ok _
  | field o name => exact notVacant_ok _

/-- No operation answers with a vacant level while the current level is occupied. -/
theorem Operation.notVacant_answer (operation : Operation α) {machine : Machine σ} {frame : Frame}
    (hframe : machine.display.frame? machine.display.level = some frame) :
    NotVacant (operation.run.answer machine) := by
  cases operation with
  | ask query =>
    rw [run, Update.answer_read]
    exact query.notVacant_answer machine
  | define name =>
    rw [run, Machine.answer_onDisplay, Display.answer_define name hframe]
    exact (Activation.notVacant_define _ _ _).map _
  | remove name =>
    rw [run, Machine.answer_onDisplay, Display.answer_remove name hframe]
    exact notVacant_ok _
  | store reference value =>
    rw [run, Machine.answer_onDisplay]
    exact Display.notVacant_store _ _ _
  | assign reference value =>
    rw [run, Machine.answer_onDisplay]
    exact Display.notVacant_assign _ _ _
  | declare decl =>
    rw [run, Machine.answer_onDisplay, Display.answer_declare decl hframe]
    exact Activation.notVacant_declare _ _ _
  | declareInner name parameters =>
    rw [run, Machine.answer_onDisplay, Display.answer_declareInner,
      Display.answer_declare _ hframe]
    exact notVacant_ite ((Activation.notVacant_declare _ _ _).map _)
      (notVacant_error fun _ h => by cases h)
  | undeclare name =>
    rw [run, Machine.answer_onDisplay, Display.answer_undeclare name hframe]
    exact notVacant_ok _
  | declareClass decl =>
    rw [run, Machine.answer_onDisplay, Display.answer_declareClass]
    exact DeclTable.notVacant_add _ _ _
  | declareInterface decl =>
    rw [run, Machine.answer_onDisplay, Display.answer_declareInterface]
    exact DeclTable.notVacant_add _ _ _
  | allocate className => exact notVacant_ok _
  | setField o name value => exact notVacant_ok _

end InterpreterCore

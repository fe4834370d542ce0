import InterpreterCore.Proofs.Program.Basic

namespace InterpreterCore

variable {σ α : Type}

namespace Operation

/-- The edit that an operation makes on a display, with the level at which it makes it. -/
def edit? (display : Display) : Operation α → Option (Nat × Edit)
  | define name => some (display.level, .define display.redefinition name)
  | remove name => some (display.level, .remove name)
  | store reference value =>
    match display.issuer reference with
    | .ok _ => some (reference.depth, .store reference.slot value)
    | .error _ => none
  | assign reference value =>
    match display.issuer reference with
    | .ok frame =>
      if frame.activation.holdsConstant reference.slot then none
      else some (reference.depth, .store reference.slot value)
    | .error _ => none
  | declare decl => some (display.level, .declare display.redefinition decl)
  | declareInner name parameters =>
    if display.level + 1 < display.levelLimit then
      some (display.level,
        .declare display.redefinition ⟨name, display.level + 1, parameters⟩)
    else none
  | undeclare name => some (display.level, .undeclare name)
  | _ => none

/-- An operation edits nothing outside the current level except by storing values. -/
theorem edit?_elsewhere {operation : Operation α} {display : Display} {level : Nat} {edit : Edit}
    (hedit : operation.edit? display = some (level, edit)) :
    level = display.level ∨ ∃ slot value, edit = .store slot value := by
  cases operation with
  | define name => cases hedit; exact .inl rfl
  | remove name => cases hedit; exact .inl rfl
  | store reference value =>
    simp only [edit?] at hedit
    split at hedit <;> cases hedit
    exact .inr ⟨_, _, rfl⟩
  | assign reference value =>
    simp only [edit?] at hedit
    split at hedit
    · split at hedit <;> cases hedit
      exact .inr ⟨_, _, rfl⟩
    · cases hedit
  | declare decl => cases hedit; exact .inl rfl
  | declareInner name parameters =>
    simp only [edit?] at hedit
    split at hedit <;> cases hedit
    exact .inl rfl
  | undeclare name => cases hedit; exact .inl rfl
  | ask query => cases hedit
  | declareClass decl => cases hedit
  | declareInterface decl => cases hedit
  | allocate className => cases hedit
  | setField o name value => cases hedit

/-- The classes after an operation. -/
def classesAfter (redefinition : Redefinition) (classes : ClassTable) : Operation α → ClassTable
  | declareClass decl => (DeclTable.add redefinition decl).after classes
  | _ => classes

/-- The interfaces after an operation. -/
def interfacesAfter (redefinition : Redefinition) (interfaces : InterfaceTable) :
    Operation α → InterfaceTable
  | declareInterface decl => (DeclTable.add redefinition decl).after interfaces
  | _ => interfaces

/-- What an operation does to a display: the edit that it makes, or nothing but a declaration
    outside all levels. -/
theorem display_after (operation : Operation α) (machine : Machine σ) :
    (operation.run.after machine).display =
      match operation.edit? machine.display with
      | some (level, edit) => machine.display.editAt level edit
      | none => { machine.display with
          classes := operation.classesAfter machine.display.redefinition machine.display.classes
          interfaces :=
            operation.interfacesAfter machine.display.redefinition machine.display.interfaces } := by
  cases operation with
  | ask query =>
    rw [run, Update.after_read]
    rfl
  | define name =>
    rw [run, Machine.after_onDisplay]
    exact Display.after_define ..
  | remove name =>
    rw [run, Machine.after_onDisplay]
    exact Display.after_remove ..
  | store reference value =>
    rw [run, Machine.after_onDisplay, edit?]
    cases hissuer : machine.display.issuer reference with
    | ok frame => exact Display.after_store value hissuer
    | error fault =>
      simp only [Update.after, Display.store_of_issuer_error value hissuer]
      rfl
  | assign reference value =>
    rw [run, Machine.after_onDisplay, edit?]
    cases hissuer : machine.display.issuer reference with
    | ok frame =>
      dsimp only
      cases hconstant : frame.activation.holdsConstant reference.slot with
      | true =>
        obtain ⟨name, _, hrefused⟩ := Display.assign_of_constant value hissuer hconstant
        simp only [Update.after, hrefused]
        rfl
      | false =>
        have hsame := Display.assign_of_not_constant value hissuer hconstant
        simp only [Update.after, hsame]
        exact Display.after_store value hissuer
    | error fault =>
      simp only [Update.after, Display.assign_of_issuer_error value hissuer]
      rfl
  | declare decl =>
    rw [run, Machine.after_onDisplay]
    exact Display.after_declare ..
  | declareInner name parameters =>
    rw [run, Machine.after_onDisplay, edit?, Display.after_declareInner]
    by_cases hroom : machine.display.level + 1 < machine.display.levelLimit
    · simp only [if_pos hroom]
    · simp only [if_neg hroom]
      rfl
  | undeclare name =>
    rw [run, Machine.after_onDisplay]
    exact Display.after_undeclare ..
  | declareClass decl =>
    rw [run, Machine.after_onDisplay]
    exact Display.after_declareClass ..
  | declareInterface decl =>
    rw [run, Machine.after_onDisplay]
    exact Display.after_declareInterface ..
  | allocate className => rfl
  | setField o name value => rfl

theorem display_of_edit {operation : Operation α} {machine : Machine σ} {level : Nat} {edit : Edit}
    (hedit : operation.edit? machine.display = some (level, edit)) :
    (operation.run.after machine).display = machine.display.editAt level edit := by
  have hafter := operation.display_after machine
  rw [hedit] at hafter
  exact hafter

theorem display_of_no_edit {operation : Operation α} {machine : Machine σ}
    (hedit : operation.edit? machine.display = none) :
    ∃ classes interfaces,
      (operation.run.after machine).display =
        { machine.display with classes, interfaces } := by
  have hafter := operation.display_after machine
  rw [hedit] at hafter
  exact ⟨_, _, hafter⟩

/-- No operation changes the number of levels, the next mark or the limit of a display. -/
theorem keeps_bounds (operation : Operation α) (machine : Machine σ) :
    (operation.run.after machine).display.frames.size = machine.display.frames.size ∧
      (operation.run.after machine).display.nextStamp = machine.display.nextStamp ∧
      (operation.run.after machine).display.levelLimit = machine.display.levelLimit := by
  cases hedit : operation.edit? machine.display with
  | none =>
    obtain ⟨classes, interfaces, hafter⟩ := display_of_no_edit hedit
    rw [hafter]
    exact ⟨rfl, rfl, rfl⟩
  | some made =>
    rw [display_of_edit hedit]
    exact ⟨Display.size_editAt .., Display.nextStamp_editAt .., Display.levelLimit_editAt ..⟩

end Operation

namespace Display

theorem frame?_install (display : Display) (activation : Activation) (level : Nat) :
    (display.install activation).frame? level =
      if level = activation.level then some ⟨display.nextStamp, activation⟩
      else display.frame? level :=
  frame?_withFrame ..

theorem frame?_restore (display : Display) (level other current : Nat) (occupant : Option Frame) :
    (display.restore level occupant current).frame? other =
      if other = level then occupant else display.frame? other :=
  frame?_withFrame ..

theorem size_install (display : Display) (activation : Activation) :
    (display.install activation).frames.size = max display.frames.size (activation.level + 1) :=
  size_withFrame ..

theorem size_restore (display : Display) (level current : Nat) (occupant : Option Frame) :
    (display.restore level occupant current).frames.size = max display.frames.size (level + 1) :=
  size_withFrame ..

/-- What a program keeps of the display on which it starts: its level, and all frames of other
    levels, except that values may have been stored in them. -/
structure KeepsOthers (before after : Display) : Prop where
  level : after.level = before.level
  others : ∀ level, level ≠ before.level →
    (after.frame? level).map Frame.emptied = (before.frame? level).map Frame.emptied

theorem KeepsOthers.refl (display : Display) : display.KeepsOthers display :=
  ⟨rfl, fun _ _ => rfl⟩

theorem KeepsOthers.trans {before between after : Display} (hfirst : before.KeepsOthers between)
    (hsecond : between.KeepsOthers after) : before.KeepsOthers after where
  level := hsecond.level.trans hfirst.level
  others level hlevel :=
    (hsecond.others level (hfirst.level ▸ hlevel)).trans (hfirst.others level hlevel)

theorem keepsOthers_editAt (display : Display) {level : Nat} {edit : Edit}
    (helsewhere : level = display.level ∨ ∃ slot value, edit = .store slot value) :
    display.KeepsOthers (display.editAt level edit) := by
  refine ⟨level_editAt .., fun other hother => ?_⟩
  rw [frame?_editAt]
  split
  · rename_i heq
    obtain hcurrent | ⟨slot, value, rfl⟩ := helsewhere
    · exact absurd (heq.trans hcurrent) hother
    · rw [heq, Option.map_map]
      congr 1
      funext frame
      exact frame.emptied_edit_store slot value
  · rfl

end Display

theorem Operation.keepsOthers (operation : Operation α) (machine : Machine σ) :
    machine.display.KeepsOthers (operation.run.after machine).display := by
  cases hedit : operation.edit? machine.display with
  | none =>
    obtain ⟨classes, interfaces, hafter⟩ := display_of_no_edit hedit
    rw [hafter]
    exact ⟨rfl, fun _ _ => rfl⟩
  | some made =>
    rw [display_of_edit hedit]
    exact Display.keepsOthers_editAt _ (edit?_elsewhere hedit)

/-- A call puts back the level and the frame that it displaced, and keeps all other frames as its
    body does, which runs at the level of the call. -/
theorem Machine.left_keeps {machine ended : Machine σ} {activation : Activation}
    (hbody : (machine.entered activation).display.KeepsOthers ended.display) :
    (machine.left activation ended).display.level = machine.display.level ∧
      (machine.left activation ended).display.frame? activation.level =
        machine.display.frame? activation.level ∧
      ∀ level, level ≠ activation.level →
        ((machine.left activation ended).display.frame? level).map Frame.emptied =
          (machine.display.frame? level).map Frame.emptied := by
  refine ⟨rfl, ?_, fun level hlevel => ?_⟩
  · rw [left, Display.frame?_restore, if_pos rfl]
  · rw [left, Display.frame?_restore, if_neg hlevel, hbody.others level hlevel, entered,
      Display.frame?_install, if_neg hlevel]

namespace Program

/-- A program ends at the level at which it starts, and changes no frame of another level except
    by storing values. -/
theorem run_keepsOthers (program : Program) (machine : Machine σ) :
    machine.display.KeepsOthers (program.run.after machine).display := by
  induction program generalizing machine with
  | done result =>
    rw [run, Update.after_read]
    exact .refl _
  | perform operation next ih =>
    rw [after_perform]
    exact (operation.keepsOthers machine).trans (ih _ _)
  | call activation body next ihbody ihnext =>
    rw [after_call]
    refine .trans ?_ (ihnext _ _)
    by_cases hroom : activation.level < machine.display.levelLimit
    · rw [Machine.after_call _ hroom]
      obtain ⟨hlevel, hsame, hothers⟩ :=
        Machine.left_keeps (ihbody activation.function (machine.entered activation))
      refine ⟨hlevel, fun level _ => ?_⟩
      by_cases heq : level = activation.level
      · exact congrArg _ (heq ▸ hsame)
      · exact hothers level heq
    · rw [Update.after, Machine.call_of_refused _ (Nat.le_of_not_lt hroom)]
      exact .refl _

/-- When a call returns, with a value or with a fault, the current level is what it was, the level
    of the call has exactly its earlier occupant, and every other level has its frame with the same
    slots, names and functions: a call can have changed nothing in other frames but values. Nothing
    is assumed of the display, of the activation or of the body. -/
theorem call_restores_frames (activation : Activation) (body : FunctionDecl → Program)
    (machine : Machine σ) :
    let after := ((Machine.call activation (evaluator body)).after machine).display
    after.level = machine.display.level ∧
      after.frame? activation.level = machine.display.frame? activation.level ∧
      ∀ level, level ≠ activation.level →
        (after.frame? level).map Frame.emptied =
          (machine.display.frame? level).map Frame.emptied := by
  intro after
  by_cases hroom : activation.level < machine.display.levelLimit
  · have hafter := Machine.after_call (evaluator body) hroom
    simp only [after, hafter]
    exact Machine.left_keeps (run_keepsOthers _ _)
  · have hsame : after = machine.display := by
      simp only [after, Update.after,
        Machine.call_of_refused (evaluator body) (Nat.le_of_not_lt hroom)]
    rw [hsame]
    exact ⟨rfl, rfl, fun _ _ => rfl⟩

end Program

end InterpreterCore

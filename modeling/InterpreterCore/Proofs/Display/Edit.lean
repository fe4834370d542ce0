import InterpreterCore.Call
import InterpreterCore.Display.Frames
import InterpreterCore.Proofs.Activation.Edit

namespace InterpreterCore

/-- A frame whose activation has been edited. -/
def Frame.edit (edit : Edit) (frame : Frame) : Frame :=
  { frame with activation := edit.apply frame.activation }

/-- A frame with the values of its variables forgotten. -/
def Frame.emptied (frame : Frame) : Frame :=
  { frame with activation := frame.activation.emptied }

theorem Frame.emptied_edit_store (frame : Frame) (slot : Nat) (value : Value) :
    (frame.edit (.store slot value)).emptied = frame.emptied := by
  simp only [emptied, edit, Activation.emptied_apply_store]

namespace Display

/-- The display after an edit of the activation at a level, if there is one. -/
def editAt (display : Display) (level : Nat) (edit : Edit) : Display :=
  match display.frame? level with
  | some frame => display.withFrame level (some (frame.edit edit))
  | none => display

theorem editAt_of_frame? {display : Display} {level : Nat} {frame : Frame} (edit : Edit)
    (hframe : display.frame? level = some frame) :
    display.editAt level edit = display.withFrame level (some (frame.edit edit)) := by
  rw [editAt, hframe]

theorem editAt_of_vacant {display : Display} {level : Nat} (edit : Edit)
    (hvacant : display.frame? level = none) : display.editAt level edit = display := by
  rw [editAt, hvacant]

/-- An edit is seen at its own level and nowhere else. -/
theorem frame?_editAt (display : Display) (level other : Nat) (edit : Edit) :
    (display.editAt level edit).frame? other =
      if other = level then (display.frame? level).map (Frame.edit edit)
      else display.frame? other := by
  cases hframe : display.frame? level with
  | none =>
    rw [editAt_of_vacant edit hframe]
    split
    · rename_i heq
      rw [heq, hframe]
      rfl
    · rfl
  | some frame => rw [editAt_of_frame? edit hframe, frame?_withFrame, Option.map_some]

theorem lt_size_of_frame? {display : Display} {level : Nat} {frame : Frame}
    (hframe : display.frame? level = some frame) : level < display.frames.size := by
  apply Nat.lt_of_not_le
  intro hbeyond
  rw [frame?, Array.getElem?_eq_none hbeyond] at hframe
  cases hframe

@[simp]
theorem size_editAt (display : Display) (level : Nat) (edit : Edit) :
    (display.editAt level edit).frames.size = display.frames.size := by
  cases hframe : display.frame? level with
  | none => rw [editAt_of_vacant edit hframe]
  | some frame =>
    have hlevel := lt_size_of_frame? hframe
    rw [editAt_of_frame? edit hframe, size_withFrame]
    omega

/-- An edit leaves all of a display alone but its frames. -/
theorem editAt_eq_with_frames (display : Display) (level : Nat) (edit : Edit) :
    display.editAt level edit =
      { display with frames := (display.editAt level edit).frames } := by
  unfold editAt
  split <;> rfl

@[simp]
theorem level_editAt (display : Display) (level : Nat) (edit : Edit) :
    (display.editAt level edit).level = display.level := by
  rw [editAt_eq_with_frames]

@[simp]
theorem nextStamp_editAt (display : Display) (level : Nat) (edit : Edit) :
    (display.editAt level edit).nextStamp = display.nextStamp := by
  rw [editAt_eq_with_frames]

@[simp]
theorem levelLimit_editAt (display : Display) (level : Nat) (edit : Edit) :
    (display.editAt level edit).levelLimit = display.levelLimit := by
  rw [editAt_eq_with_frames]

@[simp]
theorem redefinition_editAt (display : Display) (level : Nat) (edit : Edit) :
    (display.editAt level edit).redefinition = display.redefinition := by
  rw [editAt_eq_with_frames]

section Current

variable {α : Type} {display : Display} {frame : Frame}

theorem answer_onCurrent (operation : Update Frame α)
    (hframe : display.frame? display.level = some frame) :
    (onCurrent operation).answer display = operation.answer frame := by
  show (Update.within (occupied display.level) _ operation).answer display = _
  rw [Update.answer_within, occupied, hframe]
  rfl

theorem after_onCurrent (operation : Update Frame α)
    (hframe : display.frame? display.level = some frame) :
    (onCurrent operation).after display =
      display.withFrame display.level (some (operation.after frame)) := by
  show (Update.within (occupied display.level) _ operation).after display = _
  rw [Update.after_within, occupied, hframe]

theorem after_onCurrent_of_vacant (operation : Update Frame α)
    (hvacant : display.frame? display.level = none) :
    (onCurrent operation).after display = display := by
  show (Update.within (occupied display.level) _ operation).after display = _
  rw [Update.after_within, occupied, hvacant]

end Current

theorem answer_onActivation {α : Type} (operation : Update Activation α) (frame : Frame) :
    (Frame.onActivation operation).answer frame = operation.answer frame.activation := by
  rw [Frame.onActivation, Update.answer_within]
  rfl

theorem after_onActivation {α : Type} (operation : Update Activation α) (frame : Frame) :
    (Frame.onActivation operation).after frame =
      { frame with activation := operation.after frame.activation } := by
  rw [Frame.onActivation, Update.after_within]

/-- Defining a variable edits the activation of the current level. -/
theorem after_define (display : Display) (name : String) :
    (define name).after display =
      display.editAt display.level (.define display.redefinition name) := by
  cases hframe : display.frame? display.level with
  | none =>
    simp only [Update.after, define, onCurrent, Update.within, occupied, hframe,
      editAt_of_vacant _ hframe]
  | some frame =>
    simp only [Update.after, define, onCurrent, Update.within, occupied, hframe,
      editAt_of_frame? _ hframe, Frame.edit, Edit.apply, EStateM.map, Frame.onActivation]
    cases Activation.define display.redefinition name frame.activation <;> rfl

theorem answer_define {display : Display} {frame : Frame} (name : String)
    (hframe : display.frame? display.level = some frame) :
    (define name).answer display =
      ((Activation.define display.redefinition name).answer frame.activation).map
        fun slot => ⟨display.level, slot, frame.stamp⟩ := by
  simp only [Update.answer, define, onCurrent, Update.within, occupied, hframe, EStateM.map,
    Frame.onActivation]
  cases Activation.define display.redefinition name frame.activation <;> rfl

theorem answer_define_of_vacant {display : Display} (name : String)
    (hvacant : display.frame? display.level = none) :
    (define name).answer display = .error (.vacantLevel display.level) := by
  simp only [Update.answer, define, onCurrent, Update.within, occupied, hvacant]

/-- Removing a variable edits the activation of the current level. -/
theorem after_remove (display : Display) (name : String) :
    (remove name).after display = display.editAt display.level (.remove name) := by
  cases hframe : display.frame? display.level with
  | none => simp only [Update.after, remove, hframe, editAt_of_vacant _ hframe]
  | some frame =>
    have hsame : (remove name).after display =
        (onCurrent (Frame.onActivation (Activation.remove name))).after display := by
      simp only [Update.after, remove, hframe]
    rw [hsame, after_onCurrent _ hframe, after_onActivation, editAt_of_frame? _ hframe]
    rfl

theorem answer_remove {display : Display} {frame : Frame} (name : String)
    (hframe : display.frame? display.level = some frame) :
    (remove name).answer display = .ok (frame.activation.slotOf? name).isSome := by
  have hsame : (remove name).answer display =
      (onCurrent (Frame.onActivation (Activation.remove name))).answer display := by
    simp only [Update.answer, remove, hframe]
  rw [hsame, answer_onCurrent _ hframe, answer_onActivation, Activation.answer_remove]

theorem answer_remove_of_vacant {display : Display} (name : String)
    (hvacant : display.frame? display.level = none) : (remove name).answer display = .ok false := by
  simp only [Update.answer, remove, hvacant]

/-- Declaring a function edits the activation of the current level. -/
theorem after_declare (display : Display) (decl : FunctionDecl) :
    (declare decl).after display =
      display.editAt display.level (.declare display.redefinition decl) := by
  show (onCurrent (Frame.onActivation (Activation.declare display.redefinition decl))).after
    display = _
  cases hframe : display.frame? display.level with
  | none => rw [after_onCurrent_of_vacant _ hframe, editAt_of_vacant _ hframe]
  | some frame =>
    rw [after_onCurrent _ hframe, after_onActivation, editAt_of_frame? _ hframe]
    rfl

theorem answer_declare {display : Display} {frame : Frame} (decl : FunctionDecl)
    (hframe : display.frame? display.level = some frame) :
    (declare decl).answer display =
      (Activation.declare display.redefinition decl).answer frame.activation := by
  show (onCurrent (Frame.onActivation (Activation.declare display.redefinition decl))).answer
    display = _
  rw [answer_onCurrent _ hframe, answer_onActivation]

theorem answer_declare_of_vacant {display : Display} (decl : FunctionDecl)
    (hvacant : display.frame? display.level = none) :
    (declare decl).answer display = .error (.vacantLevel display.level) := by
  simp only [Update.answer, declare, onCurrent, Update.within, occupied, hvacant]

/-- Taking a function away edits the activation of the current level. -/
theorem after_undeclare (display : Display) (name : String) :
    (undeclare name).after display = display.editAt display.level (.undeclare name) := by
  cases hframe : display.frame? display.level with
  | none => simp only [Update.after, undeclare, hframe, editAt_of_vacant _ hframe]
  | some frame =>
    have hsame : (undeclare name).after display =
        (onCurrent (Frame.onActivation (Activation.undeclare name))).after display := by
      simp only [Update.after, undeclare, hframe]
    rw [hsame, after_onCurrent _ hframe, after_onActivation, editAt_of_frame? _ hframe]
    rfl

theorem answer_undeclare {display : Display} {frame : Frame} (name : String)
    (hframe : display.frame? display.level = some frame) :
    (undeclare name).answer display = .ok (frame.activation.function? name) := by
  have hsame : (undeclare name).answer display =
      (onCurrent (Frame.onActivation (Activation.undeclare name))).answer display := by
    simp only [Update.answer, undeclare, hframe]
  rw [hsame, answer_onCurrent _ hframe, answer_onActivation]
  rfl

theorem answer_undeclare_of_vacant {display : Display} (name : String)
    (hvacant : display.frame? display.level = none) :
    (undeclare name).answer display = .ok none := by
  simp only [Update.answer, undeclare, hvacant]

/-- A function declared in the current scope runs one level deeper. Past the limit the declaration
    is refused before anything is changed. -/
theorem declareInner_eq (display : Display) (name : String) (parameters : List String) :
    declareInner name parameters display =
      if display.level + 1 < display.levelLimit then
        ((declare ⟨name, display.level + 1, parameters⟩).map
          fun _ => ⟨name, display.level + 1, parameters⟩) display
      else .error (.nestingLimitExceeded (display.level + 1) display.levelLimit) display := by
  by_cases hroom : display.level + 1 < display.levelLimit
  · simp only [declareInner, bind, EStateM.bind, Update.read, innerLevel, allow, if_pos hroom,
      Except.map, EStateM.map, pure, EStateM.pure]
  · simp only [declareInner, bind, EStateM.bind, Update.read, innerLevel, allow, if_neg hroom,
      Except.map]

theorem after_declareInner (display : Display) (name : String) (parameters : List String) :
    (declareInner name parameters).after display =
      if display.level + 1 < display.levelLimit then
        display.editAt display.level
          (.declare display.redefinition ⟨name, display.level + 1, parameters⟩)
      else display := by
  rw [← after_declare]
  simp only [Update.after, declareInner_eq]
  by_cases hroom : display.level + 1 < display.levelLimit
  · simp only [if_pos hroom, EStateM.map]
    cases declare ⟨name, display.level + 1, parameters⟩ display <;> rfl
  · simp only [if_neg hroom]

theorem answer_declareInner (display : Display) (name : String) (parameters : List String) :
    (declareInner name parameters).answer display =
      if display.level + 1 < display.levelLimit then
        ((declare ⟨name, display.level + 1, parameters⟩).answer display).map
          fun _ => ⟨name, display.level + 1, parameters⟩
      else .error (.nestingLimitExceeded (display.level + 1) display.levelLimit) := by
  simp only [Update.answer, declareInner_eq]
  by_cases hroom : display.level + 1 < display.levelLimit
  · simp only [if_pos hroom, EStateM.map]
    cases declare ⟨name, display.level + 1, parameters⟩ display <;> rfl
  · simp only [if_neg hroom]

/-- An inner function that has been declared runs one level deeper, below the limit. -/
theorem declareInner_eq_ok {display : Display} {name : String} {parameters : List String}
    {decl : FunctionDecl} (hdeclared : (declareInner name parameters).answer display = .ok decl) :
    display.level + 1 < display.levelLimit ∧ decl = ⟨name, display.level + 1, parameters⟩ := by
  rw [answer_declareInner] at hdeclared
  split at hdeclared
  · rename_i hroom
    refine ⟨hroom, ?_⟩
    cases hanswer : (declare ⟨name, display.level + 1, parameters⟩).answer display with
    | ok _ =>
      rw [hanswer] at hdeclared
      exact (Except.ok.inj hdeclared).symm
    | error fault =>
      rw [hanswer] at hdeclared
      cases hdeclared
  · cases hdeclared

theorem after_declareClass (display : Display) (decl : ClassDecl) :
    (declareClass decl).after display =
      { display with
        classes := (DeclTable.add display.redefinition decl).after display.classes } := by
  simp only [Update.after, declareClass, Update.within]
  cases DeclTable.add display.redefinition decl display.classes <;> rfl

theorem answer_declareClass (display : Display) (decl : ClassDecl) :
    (declareClass decl).answer display =
      (DeclTable.add display.redefinition decl).answer display.classes := by
  simp only [Update.answer, declareClass, Update.within]
  cases DeclTable.add display.redefinition decl display.classes <;> rfl

theorem answer_declareInterface (display : Display) (decl : InterfaceDecl) :
    (declareInterface decl).answer display =
      (DeclTable.add display.redefinition decl).answer display.interfaces := by
  simp only [Update.answer, declareInterface, Update.within]
  cases DeclTable.add display.redefinition decl display.interfaces <;> rfl

theorem after_declareInterface (display : Display) (decl : InterfaceDecl) :
    (declareInterface decl).after display =
      { display with
        interfaces := (DeclTable.add display.redefinition decl).after display.interfaces } := by
  simp only [Update.after, declareInterface, Update.within]
  cases DeclTable.add display.redefinition decl display.interfaces <;> rfl

/-- A reference reaches the frame at its level if the frame bears its mark, and no frame
    otherwise. -/
theorem issuer_of_frame? {display : Display} {reference : Reference} {frame : Frame}
    (hframe : display.frame? reference.depth = some frame)
    (hstamp : frame.stamp = reference.stamp) : issuer reference display = .ok frame := by
  simp only [issuer, hframe, if_pos hstamp]

theorem issuer_of_stale {display : Display} {reference : Reference}
    (hstale : ∀ frame, display.frame? reference.depth = some frame →
      frame.stamp ≠ reference.stamp) :
    issuer reference display = .error (.staleReference reference.depth) := by
  unfold issuer
  split
  · rename_i frame hframe
    rw [if_neg (hstale frame hframe)]
  · rfl

theorem frame?_of_issuer {display : Display} {reference : Reference} {frame : Frame}
    (hissuer : issuer reference display = .ok frame) :
    display.frame? reference.depth = some frame ∧ frame.stamp = reference.stamp := by
  unfold issuer at hissuer
  split at hissuer
  · rename_i installed hframe
    split at hissuer
    · rename_i hstamp
      cases hissuer
      exact ⟨hframe, hstamp⟩
    · cases hissuer
  · cases hissuer

theorem issuer_error {display : Display} {reference : Reference} {fault : Fault}
    (hissuer : issuer reference display = .error fault) :
    fault = .staleReference reference.depth := by
  unfold issuer at hissuer
  split at hissuer
  · split at hissuer
    · cases hissuer
    · cases hissuer
      rfl
  · cases hissuer
    rfl

section Issuer

variable {display : Display} {reference : Reference} {frame : Frame}

theorem answer_store (value : Value) (hissuer : issuer reference display = .ok frame) :
    (store reference value).answer display =
      (Activation.store reference.slot value).answer frame.activation := by
  rw [store, onIssuer, Update.answer_within, hissuer]
  exact answer_onActivation _ _

/-- Storing through a reference edits the activation that the reference was issued for. -/
theorem after_store (value : Value) (hissuer : issuer reference display = .ok frame) :
    (store reference value).after display =
      display.editAt reference.depth (.store reference.slot value) := by
  rw [store, onIssuer, Update.after_within, hissuer,
    editAt_of_frame? _ (frame?_of_issuer hissuer).1]
  dsimp only
  rw [after_onActivation]
  rfl

theorem get_of_issuer (hissuer : issuer reference display = .ok frame) :
    display.get reference = frame.activation.value reference.slot := by
  rw [get, hissuer]
  rfl

/-- Storing in a slot that exists succeeds and changes that slot alone. -/
theorem store_of_issuer (value : Value) (hissuer : issuer reference display = .ok frame)
    (hslot : reference.slot < frame.activation.slots.size) :
    store reference value display =
      .ok () (display.withFrame reference.depth (some { frame with
        activation := frame.activation.withContent reference.slot (some value) })) := by
  simp only [store, onIssuer, Update.within, hissuer, Frame.onActivation, Activation.store,
    if_pos hslot]

variable {fault : Fault}

theorem get_of_issuer_error (hissuer : issuer reference display = .error fault) :
    display.get reference = .error fault := by
  rw [get, hissuer]
  rfl

theorem store_of_issuer_error (value : Value) (hissuer : issuer reference display = .error fault) :
    store reference value display = .error fault display := by
  simp only [store, onIssuer, Update.within, hissuer]

theorem assign_of_issuer_error (value : Value) (hissuer : issuer reference display = .error fault) :
    assign reference value display = .error fault display := by
  simp only [assign, onIssuer, Update.within, hissuer]

end Issuer

/-- A constant is not overwritten by assignment. -/
theorem assign_of_constant {display : Display} {reference : Reference} {frame : Frame}
    (value : Value) (hissuer : issuer reference display = .ok frame)
    (hconstant : frame.activation.holdsConstant reference.slot = true) :
    ∃ name, frame.activation.nameOf? reference.slot = some name ∧
      assign reference value display = .error (.constantAssignment name) display := by
  obtain ⟨name, hname, hrefused⟩ := Activation.assign_of_constant value hconstant
  refine ⟨name, hname, ?_⟩
  simp only [assign, onIssuer, Update.within, hissuer, Frame.onActivation, hrefused]
  rw [withFrame_of_frame? (frame?_of_issuer hissuer).1]

/-- Otherwise assignment is storing. -/
theorem assign_of_not_constant {display : Display} {reference : Reference} {frame : Frame}
    (value : Value) (hissuer : issuer reference display = .ok frame)
    (hconstant : frame.activation.holdsConstant reference.slot = false) :
    assign reference value display = store reference value display := by
  simp only [assign, store, onIssuer, Update.within, hissuer, Frame.onActivation,
    Activation.assign_of_not_constant value hconstant]

end Display

end InterpreterCore

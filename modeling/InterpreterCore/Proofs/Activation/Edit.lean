import InterpreterCore.Activation.Functions
import InterpreterCore.Activation.Storage

namespace InterpreterCore

/-- An operation that changes an activation. An activation that exists was made from a function and
    edited since, which is all that its holder can do to it. -/
inductive Edit where
  | store (slot : Nat) (value : Value)
  | bind (index : Nat) (value : Value)
  | define (policy : Redefinition) (name : String)
  | remove (name : String)
  | declare (policy : Redefinition) (decl : FunctionDecl)
  | undeclare (name : String)
deriving DecidableEq

/-- The activation after an edit. An edit that is refused leaves it as it is. -/
def Edit.apply : Edit → Activation → Activation
  | store slot value => (Activation.store slot value).after
  | bind index value => (Activation.bindParameter index value).after
  | define policy name => (Activation.define policy name).after
  | remove name => (Activation.remove name).after
  | declare policy decl => (Activation.declare policy decl).after
  | undeclare name => (Activation.undeclare name).after

/-- An edit that leaves a slot of an activation alone: it neither stores there nor removes the name
    that stands for the slot. -/
def Edit.Spares (activation : Activation) (slot : Nat) : Edit → Prop
  | store i _ => i ≠ slot
  | bind i _ => i ≠ slot
  | remove name => activation.slotOf? name ≠ some slot
  | _ => True

namespace Activation

/-- An activation with its past: it was fresh, and the edits, the latest first, have made it what it
    is. There is no other way to come by an activation. -/
def Built (activation : Activation) (past : List Edit) : Prop :=
  ∃ first, fresh activation.function = .ok first ∧ past.foldr Edit.apply first = activation

theorem fresh_eq_ok {function : FunctionDecl} {activation : Activation}
    (hfresh : Activation.fresh function = .ok activation) :
    activation = ofFunction function := by
  unfold Activation.fresh at hfresh
  split at hfresh
  · cases hfresh
  · cases hfresh
    rfl

theorem withContent_of_size_le (activation : Activation) {slot : Nat} (content : Option Value)
    (hslot : activation.slots.size ≤ slot) : activation.withContent slot content = activation := by
  have hsame : activation.slots.modify slot (fun (stored : Slot) => { stored with content }) =
      activation.slots := by
    apply Array.ext_getElem?
    intro i
    rw [Array.getElem?_modify]
    split
    · rename_i heq
      rw [← heq, Array.getElem?_eq_none hslot]
      rfl
    · rfl
  rw [withContent, hsame]

theorem after_store (activation : Activation) (slot : Nat) (value : Value) :
    (Activation.store slot value).after activation = activation.withContent slot (some value) := by
  by_cases hslot : slot < activation.slots.size
  · simp only [Update.after, Activation.store, if_pos hslot]
  · simp only [Update.after, Activation.store, if_neg hslot]
    exact (withContent_of_size_le activation _ (by omega)).symm

theorem answer_store (activation : Activation) (slot : Nat) (value : Value) :
    (Activation.store slot value).answer activation =
      if slot < activation.slots.size then .ok () else .error (activation.noSuchSlot slot) := by
  by_cases hslot : slot < activation.slots.size
  · simp only [Update.answer, Activation.store, if_pos hslot]
  · simp only [Update.answer, Activation.store, if_neg hslot]

/-- Whether a constant is stored in a slot. -/
def holdsConstant (activation : Activation) (slot : Nat) : Bool :=
  match activation.slots[slot]? with
  | some ⟨_, some stored⟩ => stored.isConst
  | _ => false

/-- A constant is not overwritten by assignment. -/
theorem assign_of_constant {activation : Activation} {slot : Nat} (value : Value)
    (hconstant : activation.holdsConstant slot = true) :
    ∃ name, activation.nameOf? slot = some name ∧
      Activation.assign slot value activation = .error (.constantAssignment name) activation := by
  unfold holdsConstant at hconstant
  split at hconstant
  · rename_i name stored hslot
    refine ⟨name, by simp only [nameOf?, hslot, Option.map_some], ?_⟩
    simp only [Activation.assign, hslot, if_pos hconstant]
  · cases hconstant

/-- Otherwise assignment is storing. -/
theorem assign_of_not_constant {activation : Activation} {slot : Nat} (value : Value)
    (hconstant : activation.holdsConstant slot = false) :
    Activation.assign slot value activation = Activation.store slot value activation := by
  unfold Activation.assign
  split
  · rename_i name stored hslot
    rw [holdsConstant, hslot] at hconstant
    rw [if_neg (by simp [show stored.isConst = false from hconstant])]
  · rfl

theorem after_bindParameter (activation : Activation) (index : Nat) (value : Value) :
    (bindParameter index value).after activation =
      if index < activation.function.arity then activation.withContent index (some value)
      else activation := by
  by_cases hindex : index < activation.function.arity
  · rw [if_pos hindex, ← after_store]
    simp only [Update.after, bindParameter, if_pos hindex]
  · simp only [Update.after, bindParameter, if_neg hindex]

theorem after_define (activation : Activation) (policy : Redefinition) (name : String) :
    (Activation.define policy name).after activation =
      if policy = .reject ∧ (activation.slotOf? name).isSome then activation
      else activation.withVariable name := by
  by_cases hrefused : policy = .reject ∧ (activation.slotOf? name).isSome
  · simp only [Update.after, Activation.define, if_pos hrefused]
  · simp only [Update.after, Activation.define, if_neg hrefused]

theorem answer_define (activation : Activation) (policy : Redefinition) (name : String) :
    (Activation.define policy name).answer activation =
      if policy = .reject ∧ (activation.slotOf? name).isSome then
        .error (.duplicateDefinition "variable" name)
      else .ok activation.slots.size := by
  by_cases hrefused : policy = .reject ∧ (activation.slotOf? name).isSome
  · simp only [Update.answer, Activation.define, if_pos hrefused]
  · simp only [Update.answer, Activation.define, if_neg hrefused]

theorem after_remove (activation : Activation) (name : String) :
    (Activation.remove name).after activation =
      match activation.slotOf? name with
      | none => activation
      | some slot =>
        { activation.withContent slot none with visible := activation.otherNames name } := by
  simp only [Update.after, Activation.remove]
  cases activation.slotOf? name <;> rfl

theorem answer_remove (activation : Activation) (name : String) :
    (Activation.remove name).answer activation = .ok (activation.slotOf? name).isSome := by
  simp only [Update.answer, Activation.remove]
  cases activation.slotOf? name <;> rfl

theorem after_declare (activation : Activation) (policy : Redefinition) (decl : FunctionDecl) :
    (Activation.declare policy decl).after activation =
      if policy = .reject ∧ (activation.function? decl.name).isSome then activation
      else { activation with functions := activation.otherFunctions decl.name ++ [decl] } := by
  by_cases hrefused : policy = .reject ∧ (activation.function? decl.name).isSome
  · simp only [Update.after, Activation.declare, if_pos hrefused]
  · simp only [Update.after, Activation.declare, if_neg hrefused]

theorem answer_declare (activation : Activation) (policy : Redefinition) (decl : FunctionDecl) :
    (Activation.declare policy decl).answer activation =
      if policy = .reject ∧ (activation.function? decl.name).isSome then
        .error (Declared.twice FunctionDecl decl.name)
      else .ok () := by
  by_cases hrefused : policy = .reject ∧ (activation.function? decl.name).isSome
  · simp only [Update.answer, Activation.declare, if_pos hrefused]
  · simp only [Update.answer, Activation.declare, if_neg hrefused]

theorem after_undeclare (activation : Activation) (name : String) :
    (Activation.undeclare name).after activation =
      { activation with functions := activation.otherFunctions name } := rfl

/-- What an edit can do: change nothing but the functions, which the other edits do not touch, put a
    value into a slot, give a name a slot of its own, or remove a visible name and clear its slot. -/
theorem apply_cases (edit : Edit) (activation : Activation) :
    (∃ functions, edit.apply activation = { activation with functions }) ∨
    (∃ slot value, edit.apply activation = activation.withContent slot (some value)) ∨
    (∃ name, edit.apply activation = activation.withVariable name) ∨
    (∃ name slot, activation.slotOf? name = some slot ∧
      edit.apply activation =
        { activation.withContent slot none with visible := activation.otherNames name }) := by
  cases edit with
  | store slot value => exact .inr (.inl ⟨slot, value, after_store ..⟩)
  | bind index value =>
    rw [Edit.apply, after_bindParameter]
    split
    · exact .inr (.inl ⟨index, value, rfl⟩)
    · exact .inl ⟨_, rfl⟩
  | define policy name =>
    rw [Edit.apply, after_define]
    split
    · exact .inl ⟨_, rfl⟩
    · exact .inr (.inr (.inl ⟨name, rfl⟩))
  | remove name =>
    rw [Edit.apply, after_remove]
    cases hslot : activation.slotOf? name with
    | none => exact .inl ⟨_, rfl⟩
    | some slot => exact .inr (.inr (.inr ⟨name, slot, hslot, rfl⟩))
  | declare policy decl =>
    rw [Edit.apply, after_declare]
    split <;> exact .inl ⟨_, rfl⟩
  | undeclare name => exact .inl ⟨_, rfl⟩

/-- No edit changes which function an activation is one of. -/
theorem function_apply (edit : Edit) (activation : Activation) :
    (edit.apply activation).function = activation.function := by
  obtain ⟨_, happly⟩ | ⟨_, _, happly⟩ | ⟨_, happly⟩ | ⟨_, _, _, happly⟩ :=
    apply_cases edit activation
  all_goals simp only [happly, withContent, withVariable]

/-- No edit changes the level at which an activation runs. -/
@[simp]
theorem level_apply (edit : Edit) (activation : Activation) :
    (edit.apply activation).level = activation.level := by
  rw [level, function_apply, level]

/-- An edit adds no function but the one that it declares. -/
theorem mem_functions_apply {edit : Edit} {activation : Activation} {decl : FunctionDecl}
    (hdecl : decl ∈ (edit.apply activation).functions) :
    decl ∈ activation.functions ∨ ∃ policy, edit = .declare policy decl := by
  cases edit with
  | store slot value =>
    rw [Edit.apply, after_store] at hdecl
    exact .inl hdecl
  | bind index value =>
    rw [Edit.apply, after_bindParameter] at hdecl
    split at hdecl <;> exact .inl hdecl
  | define policy name =>
    rw [Edit.apply, after_define] at hdecl
    split at hdecl <;> exact .inl hdecl
  | remove name =>
    rw [Edit.apply, after_remove] at hdecl
    split at hdecl <;> exact .inl hdecl
  | declare policy new =>
    rw [Edit.apply, after_declare] at hdecl
    split at hdecl
    · exact .inl hdecl
    · obtain hold | hnew := List.mem_append.mp hdecl
      · exact .inl (List.mem_filter.mp hold).1
      · exact .inr ⟨policy, by rw [List.mem_singleton.mp hnew]⟩
  | undeclare name => exact .inl (List.mem_filter.mp hdecl).1

@[simp]
theorem size_withContent (activation : Activation) (slot : Nat) (content : Option Value) :
    (activation.withContent slot content).slots.size = activation.slots.size := by
  simp only [withContent, Array.size_modify]

/-- Slots are only ever added. -/
theorem size_le_size_apply (edit : Edit) (activation : Activation) :
    activation.slots.size ≤ (edit.apply activation).slots.size := by
  obtain ⟨_, happly⟩ | ⟨slot, _, happly⟩ | ⟨_, happly⟩ | ⟨_, slot, _, happly⟩ :=
    apply_cases edit activation
  · exact Nat.le_of_eq (by rw [happly])
  · exact Nat.le_of_eq (by rw [happly, size_withContent])
  · rw [happly, withVariable, Array.size_push]
    exact Nat.le_succ _
  · rw [happly]
    exact Nat.le_of_eq (size_withContent ..).symm

/-- Every visible name stands for a slot that exists. -/
def NamesSlots (activation : Activation) : Prop :=
  ∀ name slot, activation.slotOf? name = some slot → slot < activation.slots.size

theorem namesSlots_ofFunction (function : FunctionDecl) : (ofFunction function).NamesSlots := by
  intro name slot hslot
  obtain ⟨before, rest, hsplit, _⟩ := List.lookup_eq_some_iff.mp hslot
  have hmem : (name, slot) ∈ function.parameters.zipIdx := by
    rw [show function.parameters.zipIdx = _ from hsplit]
    simp
  have hbound := List.snd_lt_of_mem_zipIdx hmem
  simpa [ofFunction] using hbound

theorem NamesSlots.apply {activation : Activation} (hnames : activation.NamesSlots) (edit : Edit) :
    (edit.apply activation).NamesSlots := by
  intro name slot hslot
  have hgrow := size_le_size_apply edit activation
  obtain ⟨_, happly⟩ | ⟨_, _, happly⟩ | ⟨new, happly⟩ | ⟨old, _, _, happly⟩ :=
    apply_cases edit activation
  · rw [happly] at hslot
    exact Nat.lt_of_lt_of_le (hnames name slot hslot) hgrow
  · rw [happly] at hslot
    exact Nat.lt_of_lt_of_le (hnames name slot hslot) hgrow
  · rw [happly, slotOf?_withVariable] at hslot
    split at hslot
    · cases hslot
      rw [happly, withVariable, Array.size_push]
      exact Nat.lt_succ_self _
    · exact Nat.lt_of_lt_of_le (hnames name slot hslot) hgrow
  · rw [happly, slotOf?, otherNames, lookup_filter_ne] at hslot
    split at hslot
    · cases hslot
    · exact Nat.lt_of_lt_of_le (hnames name slot hslot) hgrow

/-- A slot that an edit spares keeps what it holds. New slots take the place of none. -/
theorem getElem?_apply_of_spares {activation : Activation} {slot : Nat} {stored : Slot}
    (hstored : activation.slots[slot]? = some stored) {edit : Edit}
    (hspares : edit.Spares activation slot) :
    (edit.apply activation).slots[slot]? = some stored := by
  cases edit with
  | store i value => rw [Edit.apply, after_store, getElem?_withContent, if_neg hspares, hstored]
  | bind i value =>
    rw [Edit.apply, after_bindParameter]
    split
    · rw [getElem?_withContent, if_neg hspares, hstored]
    · exact hstored
  | define policy name =>
    rw [Edit.apply, after_define]
    split
    · exact hstored
    · obtain ⟨hbound, _⟩ := Array.getElem?_eq_some_iff.mp hstored
      rw [withVariable, Array.getElem?_push, if_neg (Nat.ne_of_lt hbound), hstored]
  | remove name =>
    rw [Edit.apply, after_remove]
    cases hname : activation.slotOf? name with
    | none => exact hstored
    | some i =>
      have hother : i ≠ slot := fun hsame => hspares (hsame ▸ hname)
      exact (getElem?_withContent ..).trans ((if_neg hother).trans hstored)
  | declare policy decl =>
    rw [Edit.apply, after_declare]
    split <;> exact hstored
  | undeclare name => exact hstored

theorem Built.eq_edited {activation : Activation} {past : List Edit}
    (hbuilt : activation.Built past) :
    activation = past.foldr Edit.apply (ofFunction activation.function) := by
  obtain ⟨first, hfirst, hedited⟩ := hbuilt
  rw [← fresh_eq_ok hfirst, hedited]

theorem NamesSlots.edited {first : Activation} (hnames : first.NamesSlots) (past : List Edit) :
    (past.foldr Edit.apply first).NamesSlots := by
  induction past with
  | nil => exact hnames
  | cons edit earlier ih => exact ih.apply edit

/-- In an activation that exists, every visible name stands for a slot that exists. -/
theorem Built.namesSlots {activation : Activation} {past : List Edit}
    (hbuilt : activation.Built past) : activation.NamesSlots := by
  rw [hbuilt.eq_edited]
  exact (namesSlots_ofFunction _).edited past

/-- An activation with the values of its variables forgotten: what is left are its function, the
    names of its slots, the slots that its visible names stand for, and its functions. -/
def emptied (activation : Activation) : Activation :=
  { activation with slots := activation.slots.map fun stored => { name := stored.name } }

theorem emptied_withContent (activation : Activation) (slot : Nat) (content : Option Value) :
    (activation.withContent slot content).emptied = activation.emptied := by
  have hsame : (activation.slots.modify slot fun (stored : Slot) => { stored with content }).map
      (fun stored => ({ name := stored.name } : Slot)) =
      activation.slots.map fun stored => { name := stored.name } := by
    apply Array.ext_getElem?
    intro i
    simp only [Array.getElem?_map, Array.getElem?_modify]
    split
    · cases activation.slots[i]? <;> rfl
    · rfl
  simp only [emptied, withContent, hsame]

/-- Storing a value changes nothing but values. -/
theorem emptied_apply_store (activation : Activation) (slot : Nat) (value : Value) :
    ((Edit.store slot value).apply activation).emptied = activation.emptied := by
  rw [Edit.apply, after_store, emptied_withContent]

end Activation

end InterpreterCore

import InterpreterCore.Proofs.Activation.Edit

namespace InterpreterCore

/-- If a value is an object, its handle is among some. A latched copy has the handle of its
    original. -/
def Value.Within (held : List Instance) (value : Value) : Prop := ∀ o ∈ value.asObject?, o ∈ held

/-- The handles in the slots of an activation are among some. -/
def Activation.Within (held : List Instance) (activation : Activation) : Prop :=
  ∀ stored ∈ activation.slots.toList, ∀ value ∈ stored.content, value.Within held

/-- The handle that an edit stores is among some. -/
def Edit.Within (held : List Instance) : Edit → Prop
  | store _ value | bind _ value => value.Within held
  | _ => True

section

variable {held later : List Instance}

instance (value : Value) : Decidable (value.Within held) :=
  inferInstanceAs (Decidable (∀ o ∈ value.asObject?, o ∈ held))

instance (activation : Activation) : Decidable (activation.Within held) :=
  inferInstanceAs (Decidable
    (∀ stored ∈ activation.slots.toList, ∀ value ∈ stored.content, value.Within held))

theorem Value.Within.mono {value : Value} (hwithin : value.Within held) (hlater : held ⊆ later) :
    value.Within later :=
  fun o ho => hlater (hwithin o ho)

namespace Activation

variable {activation : Activation}

theorem Within.mono (hwithin : activation.Within held) (hlater : held ⊆ later) :
    activation.Within later :=
  fun stored hstored value hvalue => (hwithin stored hstored value hvalue).mono hlater

theorem within_iff :
    activation.Within held ↔ ∀ (slot : Nat) (stored : Slot), activation.slots[slot]? = some stored →
      ∀ value ∈ stored.content, value.Within held := by
  simp only [Within, List.mem_iff_getElem?, Array.getElem?_toList]
  exact ⟨fun hwithin slot stored hslot => hwithin stored ⟨slot, hslot⟩,
    fun hwithin stored ⟨slot, hslot⟩ => hwithin slot stored hslot⟩

theorem within_ofFunction (function : FunctionDecl) : (ofFunction function).Within held := by
  intro stored hstored value hvalue
  obtain ⟨_, _, rfl⟩ := List.mem_map.mp hstored
  cases hvalue

/-- What is read from a slot is among what the slots hold. -/
theorem Within.value (hwithin : activation.Within held) {slot : Nat} {value : Value}
    (hvalue : activation.value slot = .ok value) : value.Within held := by
  rw [Activation.value] at hvalue
  split at hvalue
  · rename_i hslot
    cases hvalue
    exact within_iff.mp hwithin slot _ hslot _ rfl
  · cases hvalue
  · cases hvalue

theorem Within.withContent (hwithin : activation.Within held) (slot : Nat)
    {content : Option Value} (hcontent : ∀ value ∈ content, value.Within held) :
    (activation.withContent slot content).Within held := by
  refine within_iff.mpr fun other stored hstored value hvalue => ?_
  rw [getElem?_withContent] at hstored
  split at hstored
  · obtain ⟨_, _, rfl⟩ := Option.map_eq_some_iff.mp hstored
    exact hcontent value hvalue
  · exact within_iff.mp hwithin other stored hstored value hvalue

theorem Within.withVariable (hwithin : activation.Within held) (name : String) :
    (activation.withVariable name).Within held := by
  refine within_iff.mpr fun slot stored hstored value hvalue => ?_
  simp only [Activation.withVariable, Array.getElem?_push] at hstored
  split at hstored
  · cases hstored
    cases hvalue
  · exact within_iff.mp hwithin slot stored hstored value hvalue

/-- An edit brings no handle into an activation but that of the value that it stores. -/
theorem Within.apply (hwithin : activation.Within held) {edit : Edit} (hedit : edit.Within held) :
    (edit.apply activation).Within held := by
  cases edit with
  | store slot value =>
    rw [Edit.apply, after_store]
    exact hwithin.withContent slot fun _ hstored => Option.some.inj hstored ▸ hedit
  | bind index value =>
    rw [Edit.apply, after_bindParameter]
    split
    · exact hwithin.withContent index fun _ hstored => Option.some.inj hstored ▸ hedit
    · exact hwithin
  | define policy name =>
    rw [Edit.apply, after_define]
    split
    · exact hwithin
    · exact hwithin.withVariable name
  | remove name =>
    rw [Edit.apply, after_remove]
    split
    · exact hwithin
    · exact hwithin.withContent _ fun value hvalue => absurd hvalue (Option.not_mem_none value)
  | declare policy decl =>
    rw [Edit.apply, after_declare]
    split <;> exact hwithin
  | undeclare name => exact hwithin

end Activation

end

end InterpreterCore

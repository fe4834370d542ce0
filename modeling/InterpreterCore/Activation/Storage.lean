import InterpreterCore.Activation.Basic

namespace InterpreterCore.Activation

theorem lookup_filter_ne {α : Type} (entries : List (String × α)) (name other : String) :
    (entries.filter fun entry => entry.1 != name).lookup other =
      if other = name then none else entries.lookup other := by
  induction entries with
  | nil => simp
  | cons entry rest ih =>
    obtain ⟨key, _⟩ := entry
    by_cases hkey : key = name
    · subst hkey
      rw [List.filter_cons_of_neg (by simp), ih]
      split
      · rfl
      · rename_i hother
        rw [List.lookup_cons, beq_false_of_ne hother]
    · rw [List.filter_cons_of_pos (by simpa using hkey), List.lookup_cons, List.lookup_cons, ih]
      by_cases hother : other = key
      · subst hother
        simp [hkey]
      · simp [beq_false_of_ne hother]

/-- A new variable takes over its own name and no other. -/
theorem slotOf?_withVariable (activation : Activation) (name other : String) :
    (activation.withVariable name).slotOf? other =
      if other = name then some activation.slots.size else activation.slotOf? other := by
  simp only [slotOf?, withVariable, otherNames, List.lookup_append, lookup_filter_ne]
  by_cases hother : other = name
  · simp [hother]
  · simp [hother, List.lookup_cons, beq_false_of_ne hother]

/-- The content of a slot changes at that slot and nowhere else, and its name does not change. -/
theorem getElem?_withContent (activation : Activation) (slot other : Nat) (content : Option Value) :
    (activation.withContent slot content).slots[other]? =
      if slot = other then activation.slots[other]?.map fun stored => ⟨stored.name, content⟩
      else activation.slots[other]? := by
  simp only [withContent, Array.getElem?_modify]

theorem value_withContent (activation : Activation) (slot : Nat) (value : Value)
    (hslot : slot < activation.slots.size) :
    (activation.withContent slot (some value)).value slot = .ok value := by
  simp only [Activation.value, getElem?_withContent, if_true, Array.getElem?_eq_getElem hslot,
    Option.map_some]

theorem value_withContent_of_ne (activation : Activation) {slot other : Nat}
    (content : Option Value) (hother : slot ≠ other) :
    (activation.withContent slot content).value other = activation.value other := by
  simp only [Activation.value, getElem?_withContent, if_neg hother]
  rfl

end InterpreterCore.Activation

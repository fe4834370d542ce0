import InterpreterCore.Display.Basic

namespace InterpreterCore.Display

theorem size_withFrame (display : Display) (level : Nat) (occupant : Option Frame) :
    (display.withFrame level occupant).frames.size = max display.frames.size (level + 1) := by
  simp only [withFrame, Array.size_setIfInBounds, Array.size_append, Array.size_replicate]
  omega

/-- A change of occupant is seen at its own level and nowhere else. -/
theorem frame?_withFrame (display : Display) (level other : Nat) (occupant : Option Frame) :
    (display.withFrame level occupant).frame? other =
      if other = level then occupant else display.frame? other := by
  simp only [frame?, withFrame, Array.getElem?_setIfInBounds, Array.getElem?_append,
    Array.size_append, Array.size_replicate, Array.getElem?_replicate]
  by_cases hsame : level = other
  · subst hsame
    rw [if_pos rfl, if_pos (by omega), if_pos rfl]
    rfl
  · rw [if_neg hsame, if_neg (Ne.symm hsame)]
    split
    · rfl
    · rename_i hpast
      rw [Array.getElem?_eq_none (by omega)]
      split <;> rfl

/-- Putting back what is there changes nothing. -/
theorem withFrame_of_frame? {display : Display} {level : Nat} {frame : Frame}
    (hframe : display.frame? level = some frame) :
    display.withFrame level (some frame) = display := by
  have hslot : display.frames[level]? = some (some frame) := by
    simpa only [frame?, Option.join_eq_some_iff] using hframe
  obtain ⟨hlevel, hentry⟩ := Array.getElem?_eq_some_iff.mp hslot
  have hnone : level + 1 - display.frames.size = 0 := by omega
  cases display with
  | mk frames current nextStamp levelLimit redefinition classes interfaces =>
    simp only [withFrame] at hnone hentry ⊢
    rw [hnone]
    simp only [Array.replicate_zero, Array.append_empty, mk.injEq, and_true]
    apply Array.ext_getElem?
    intro i
    rw [Array.getElem?_setIfInBounds]
    split
    · rename_i heq
      subst heq
      simp_all
    · rfl

end InterpreterCore.Display

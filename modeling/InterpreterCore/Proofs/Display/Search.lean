import InterpreterCore.Proofs.Display.Edit

namespace InterpreterCore.Display

variable {α : Type}

/-- An answer that a search can find: it is given at a level from which the search starts or at an
    outer one, and at no level in between. -/
structure Finds (display : Display) (find : Nat → Frame → Option α) (start : Nat) (found : α)
    (depth : Nat) (frame : Frame) : Prop where
  depth_le : depth ≤ start
  frame_eq : display.frame? depth = some frame
  answer : find depth frame = some found
  unanswered : ∀ level between, depth < level → level ≤ start →
    display.frame? level = some between → find level between = none

theorem searchFrom_succ (display : Display) (find : Nat → Frame → Option α) (level : Nat) :
    display.searchFrom find (level + 1) =
      ((display.frame? (level + 1)).bind (find (level + 1))).or
        (display.searchFrom find level) := by
  rw [searchFrom]
  cases (display.frame? (level + 1)).bind (find (level + 1)) <;> rfl

/-- A search depends on what is answered at the levels that it passes, and on nothing else. -/
theorem searchFrom_congr_answers {first second : Display} {find : Nat → Frame → Option α}
    {start : Nat} (hanswers : ∀ level, level ≤ start →
      (second.frame? level).bind (find level) = (first.frame? level).bind (find level)) :
    second.searchFrom find start = first.searchFrom find start := by
  induction start with
  | zero => exact hanswers 0 (Nat.le_refl 0)
  | succ start ih =>
    rw [searchFrom_succ, searchFrom_succ, hanswers _ (Nat.le_refl _),
      ih fun level hlevel => hanswers level (Nat.le_succ_of_le hlevel)]

/-- A search sees no level above the one from which it starts. -/
theorem searchFrom_congr {first second : Display} (find : Nat → Frame → Option α) {start : Nat}
    (hframes : ∀ level, level ≤ start → second.frame? level = first.frame? level) :
    second.searchFrom find start = first.searchFrom find start :=
  searchFrom_congr_answers fun level hlevel => by rw [hframes level hlevel]

/-- A search finds nothing exactly if nothing is answered at any level that it passes. -/
theorem searchFrom_eq_none_iff {display : Display} {find : Nat → Frame → Option α} {start : Nat} :
    display.searchFrom find start = none ↔
      ∀ level, level ≤ start → (display.frame? level).bind (find level) = none := by
  induction start with
  | zero =>
    constructor
    · intro hnone level hlevel
      rw [Nat.le_zero.mp hlevel]
      exact hnone
    · exact fun hnone => hnone 0 (Nat.le_refl 0)
  | succ start ih =>
    rw [searchFrom_succ, Option.or_eq_none_iff, ih]
    constructor
    · rintro ⟨hhere, hbelow⟩ level hlevel
      obtain rfl | hlower : level = start + 1 ∨ level ≤ start := by omega
      · exact hhere
      · exact hbelow level hlower
    · exact fun hnone => ⟨hnone _ (Nat.le_refl _), fun level hlevel => hnone level (by omega)⟩

/-- A search finds only what is given at some level. -/
theorem exists_finds_of_searchFrom {display : Display} {find : Nat → Frame → Option α}
    {start : Nat} {found : α} (hfound : display.searchFrom find start = some found) :
    ∃ depth frame, display.Finds find start found depth frame := by
  induction start with
  | zero =>
    obtain ⟨frame, hframe, hanswer⟩ := Option.bind_eq_some_iff.mp hfound
    exact ⟨0, frame, Nat.le_refl 0, hframe, hanswer, fun level _ _ _ => by omega⟩
  | succ start ih =>
    rw [searchFrom_succ, Option.or_eq_some_iff] at hfound
    obtain hhere | ⟨hnothing, houter⟩ := hfound
    · obtain ⟨frame, hframe, hanswer⟩ := Option.bind_eq_some_iff.mp hhere
      exact ⟨start + 1, frame, Nat.le_refl _, hframe, hanswer, fun level _ _ _ => by omega⟩
    · obtain ⟨depth, frame, hfinds⟩ := ih houter
      refine ⟨depth, frame, Nat.le_succ_of_le hfinds.depth_le, hfinds.frame_eq, hfinds.answer, ?_⟩
      intro level between habove hlevel hbetween
      obtain rfl | hlower : level = start + 1 ∨ level ≤ start := by omega
      · rw [hbetween] at hnothing
        exact hnothing
      · exact hfinds.unanswered level between habove hlower hbetween

/-- A search finds what is given at some level and at no level in between. -/
theorem Finds.searchFrom_eq {display : Display} {find : Nat → Frame → Option α} {start : Nat}
    {found : α} {depth : Nat} {frame : Frame}
    (hfinds : display.Finds find start found depth frame) :
    display.searchFrom find start = some found := by
  obtain ⟨hdepth, hframe, hanswer, hunanswered⟩ := hfinds
  induction start with
  | zero =>
    obtain rfl := Nat.le_zero.mp hdepth
    rw [searchFrom, hframe, Option.bind_some, hanswer]
  | succ start ih =>
    rw [searchFrom_succ]
    obtain rfl | hlower : depth = start + 1 ∨ depth ≤ start := by omega
    · rw [hframe, Option.bind_some, hanswer, Option.some_or]
    · have hnothing : (display.frame? (start + 1)).bind (find (start + 1)) = none := by
        rw [Option.bind_eq_none_iff]
        intro between hbetween
        exact hunanswered _ between (by omega) (Nat.le_refl _) hbetween
      rw [hnothing, Option.none_or]
      exact ih hlower fun level between habove hlevel =>
        hunanswered level between habove (by omega)

/-- A function that is found is declared under its own name in the frame where it is found. -/
theorem exists_finds_function {display : Display} {name : String} {decl : FunctionDecl}
    (hfound : display.function? name = some decl) :
    decl.name = name ∧ ∃ depth frame, decl ∈ frame.activation.functions ∧
      display.Finds (fun _ frame => frame.activation.function? name) display.level decl depth
        frame := by
  obtain ⟨depth, frame, hfinds⟩ := exists_finds_of_searchFrom hfound
  have hname : decl.name = name := by simpa using List.find?_some hfinds.answer
  exact ⟨hname, depth, frame, List.mem_of_find?_eq_some hfinds.answer, hfinds⟩

/-- A variable that is found stands for a slot of the frame to which its reference leads, at the
    current level or an outer one. -/
theorem exists_frame_of_resolve {display : Display} {name : String} {reference : Reference}
    (hfound : display.resolve? name = some reference) :
    reference.depth ≤ display.level ∧
      ∃ frame, display.frame? reference.depth = some frame ∧ frame.stamp = reference.stamp ∧
        frame.activation.slotOf? name = some reference.slot := by
  obtain ⟨depth, frame, hfinds⟩ := exists_finds_of_searchFrom hfound
  obtain ⟨slot, hslot, rfl⟩ := Option.map_eq_some_iff.mp hfinds.answer
  exact ⟨hfinds.depth_le, frame, hfinds.frame_eq, rfl, hslot⟩

section Here

variable {display : Display} {frame : Frame} (hframe : display.frame? display.level = some frame)
include hframe

/-- What the current scope has is what its activation has. -/
theorem variableNames_of_frame? : display.variableNames = frame.activation.visibleNames := by
  rw [variableNames, activation?, hframe, Option.map_some]

theorem functions_of_frame? : display.functions = frame.activation.functions := by
  rw [functions, activation?, hframe, Option.map_some]

theorem functionHere?_of_frame? (name : String) :
    display.functionHere? name = frame.activation.function? name := by
  rw [functionHere?, activation?, hframe, Option.map_some, Option.bind_some]

end Here

/-- The display as it is seen from the scope around the current one. Nothing is around level zero. -/
def enclosing? (display : Display) : Option Display :=
  match display.level with
  | 0 => none
  | level + 1 => some { display with level }

/-- Where the current scope does not answer, the answer is that of the scopes around it. -/
theorem innermost?_eq_enclosing (find : Nat → Frame → Option α) {before after : Display}
    (hlevel : after.level = before.level)
    (hhere : (after.frame? after.level).bind (find after.level) = none)
    (houter : ∀ level, level < before.level → after.frame? level = before.frame? level) :
    after.innermost? find = before.enclosing?.bind (innermost? · find) := by
  rw [innermost?, enclosing?]
  rw [hlevel] at hhere ⊢
  cases hbefore : before.level with
  | zero =>
    rw [hbefore] at hhere
    exact hhere
  | succ level =>
    rw [hbefore] at hhere
    rw [searchFrom_succ, hhere, Option.none_or, Option.bind_some]
    exact searchFrom_congr find fun other hother => houter other (by omega)

/-- An edit matters to a search only if it changes what the edited frame answers. -/
theorem innermost?_editAt {display : Display} {find : Nat → Frame → Option α} {level : Nat}
    {edit : Edit} (hkeeps : ∀ frame, display.frame? level = some frame →
      find level (frame.edit edit) = find level frame) :
    (display.editAt level edit).innermost? find = display.innermost? find := by
  rw [innermost?, innermost?, level_editAt]
  refine searchFrom_congr_answers fun other _ => ?_
  rw [frame?_editAt]
  split
  · rename_i hsame
    rw [hsame]
    cases hframe : display.frame? level with
    | none => rfl
    | some frame => exact hkeeps frame hframe
  · rfl

/-- When an edit takes the answer of the current scope away, what is found is the answer of the
    scopes around it. -/
theorem innermost?_editAt_level {display : Display} {find : Nat → Frame → Option α} {edit : Edit}
    (hgone : ∀ frame, display.frame? display.level = some frame →
      find display.level (frame.edit edit) = none) :
    (display.editAt display.level edit).innermost? find =
      display.enclosing?.bind (innermost? · find) := by
  refine innermost?_eq_enclosing find (level_editAt ..) ?_ fun level hlower => ?_
  · rw [level_editAt, frame?_editAt, if_pos rfl]
    cases hframe : display.frame? display.level with
    | none => rfl
    | some frame => exact hgone frame hframe
  · rw [frame?_editAt, if_neg (Nat.ne_of_lt hlower)]

end InterpreterCore.Display

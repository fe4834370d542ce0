import InterpreterCore.Proofs.Display.Search
import InterpreterCore.Proofs.Program.Effect

namespace InterpreterCore

variable {σ α : Type}

/-- What a program sees happen. An operation and a call are made at the level that is current. -/
inductive Step : Type 1 where
  | performed {α : Type} (level : Nat) (operation : Operation α) (answer : Outcome α)
  | called (level : Nat) (activation : Activation) (accepted : Bool)
  | returned (answer : Outcome Value)

/-- The steps of a program. Those of an accepted call's body stand between the call and its
    return. -/
def Program.steps : Program → Machine σ → List Step
  | done _, _ => []
  | perform operation next, machine =>
    .performed machine.display.level operation (operation.run.answer machine) ::
      (next (operation.run.answer machine)).steps (operation.run.after machine)
  | call activation body next, machine =>
    let called := Machine.call activation (evaluator body)
    let accepted := decide (activation.level < machine.display.levelLimit)
    .called machine.display.level activation accepted ::
      ((if accepted then (body activation.function).steps (machine.entered activation) else []) ++
        .returned (called.answer machine) ::
          (next (called.answer machine)).steps (called.after machine))

/-- The references that an operation hands out by its answer. -/
def Operation.handed : Operation α → Outcome α → List Reference
  | define _, .ok reference => [reference]
  | ask (.resolve _), .ok (some reference) => [reference]
  | _, _ => []

/-- Whether a query looks at nothing but what a program has been given: references of the level at
    which the program has started or of outer levels, references that have been handed out,
    activations of the scopes of the running code, and fields only where they are open to it. -/
def Query.Confined (home : Nat) (fields : Prop) (held : List Reference) (level : Nat) :
    Query α → Prop
  | get reference => reference.depth ≤ home ∨ reference ∈ held
  | activation depth => depth ≤ level
  | field _ _ => fields
  | _ => True

/-- Whether an operation keeps within what a program has been given. -/
def Operation.Confined (home : Nat) (fields : Prop) (held : List Reference) (level : Nat) :
    Operation α → Prop
  | ask query => query.Confined home fields held level
  | store reference _ | assign reference _ => reference.depth ≤ home ∨ reference ∈ held
  | allocate _ | setField _ _ _ => fields
  | _ => True

section Decidable

variable {home level : Nat} {fields : Prop} [Decidable fields] {held : List Reference}

instance (query : Query α) : Decidable (query.Confined home fields held level) :=
  match query with
  | .get reference => inferInstanceAs (Decidable (reference.depth ≤ home ∨ reference ∈ held))
  | .activation depth => inferInstanceAs (Decidable (depth ≤ level))
  | .field _ _ => inferInstanceAs (Decidable fields)
  | .level | .levelLimit | .redefinition | .innerLevel | .resolve _ | .lookup _ | .variableNames
  | .function _ | .requireFunction _ | .functionHere _ | .functions | .classes | .requireClass _
  | .interfaces | .requireInterface _ => .isTrue trivial

instance (operation : Operation α) : Decidable (operation.Confined home fields held level) :=
  match operation with
  | .ask query => inferInstanceAs (Decidable (query.Confined home fields held level))
  | .store reference _ | .assign reference _ =>
    inferInstanceAs (Decidable (reference.depth ≤ home ∨ reference ∈ held))
  | .allocate _ | .setField _ _ _ => inferInstanceAs (Decidable fields)
  | .define _ | .remove _ | .declare _ | .declareInner _ _ | .undeclare _ | .declareClass _
  | .declareInterface _ => .isTrue trivial

end Decidable

namespace Step

/-- The references that are handed out in a step. -/
def handed : Step → List Reference
  | performed _ operation answer => operation.handed answer
  | called _ _ _ | returned _ => []

/-- The number of activations that are installed in a step. -/
def installs : Step → Nat
  | called _ _ accepted => if accepted then 1 else 0
  | performed _ _ _ | returned _ => 0

/-- Whether a step keeps within what a program has been given. A call may go at most one level
    deeper than the level at which it is made. -/
def Confined (home : Nat) (fields : Prop) (held : List Reference) : Step → Prop
  | performed level operation _ => operation.Confined home fields held level
  | called level activation _ => activation.level ≤ level + 1
  | returned _ => True

instance {home : Nat} {fields : Prop} [Decidable fields] {held : List Reference} (step : Step) :
    Decidable (step.Confined home fields held) :=
  match step with
  | performed level operation _ =>
    inferInstanceAs (Decidable (operation.Confined home fields held level))
  | called level activation _ => inferInstanceAs (Decidable (activation.level ≤ level + 1))
  | returned _ => .isTrue trivial

/-- The number of activations that are installed in a run. -/
def installed : List Step → Nat
  | [] => 0
  | step :: rest => step.installs + installed rest

/-- The references that a program holds after some steps. -/
def holding (held : List Reference) (steps : List Step) : List Reference :=
  held ++ steps.flatMap handed

/-- Whether each step of a run keeps within what the program has been given until then. -/
def AllConfined (home : Nat) (fields : Prop) (held : List Reference) : List Step → Prop
  | [] => True
  | step :: rest =>
    step.Confined home fields held ∧ AllConfined home fields (holding held [step]) rest

instance AllConfined.decidable {home : Nat} {fields : Prop} [Decidable fields] :
    (held : List Reference) → (steps : List Step) → Decidable (AllConfined home fields held steps)
  | _, [] => .isTrue trivial
  | held, step :: rest =>
    have : Decidable (AllConfined home fields (holding held [step]) rest) := decidable _ rest
    inferInstanceAs (Decidable
      (step.Confined home fields held ∧ AllConfined home fields (holding held [step]) rest))

theorem installed_append (first second : List Step) :
    installed (first ++ second) = installed first + installed second := by
  induction first with
  | nil => rw [List.nil_append, installed, Nat.zero_add]
  | cons step rest ih => rw [List.cons_append, installed, installed, ih, Nat.add_assoc]

theorem holding_performed (held : List Reference) (level : Nat) (operation : Operation α)
    (answer : Outcome α) :
    holding held [performed level operation answer] = held ++ operation.handed answer := by
  rw [holding, List.flatMap_singleton, handed]

theorem holding_cons (held : List Reference) (step : Step) (rest : List Step) :
    holding held (step :: rest) = holding (holding held [step]) rest := by
  simp only [holding, List.flatMap_cons, List.flatMap_nil, List.append_nil, List.append_assoc]

theorem holding_append (held : List Reference) (first second : List Step) :
    holding held (first ++ second) = holding (holding held first) second := by
  rw [holding, List.flatMap_append, ← List.append_assoc, holding, holding]

/-- What is confined in a run is confined in its parts, the later one holding what the earlier one
    has been handed. -/
theorem allConfined_append {home : Nat} {fields : Prop} {held : List Reference}
    {first second : List Step} :
    AllConfined home fields held (first ++ second) ↔
      AllConfined home fields held first ∧
        AllConfined home fields (holding held first) second := by
  induction first generalizing held with
  | nil => rw [List.nil_append, holding, List.flatMap_nil, List.append_nil, AllConfined, true_and]
  | cons step rest ih =>
    rw [List.cons_append, AllConfined, AllConfined, ih, ← holding_cons, and_assoc]

section Call

variable {level : Nat} {activation : Activation} {steps : List Step} {answer : Outcome Value}

/-- A call installs one activation more than its body. -/
theorem installed_call :
    installed (called level activation true :: (steps ++ [returned answer])) =
      installed steps + 1 := by
  rw [installed, installed_append, installs, if_pos rfl]
  exact Nat.add_comm 1 _

/-- A call hands out what its body does. -/
theorem holding_call (held : List Reference) :
    holding held (called level activation true :: (steps ++ [returned answer])) =
      holding held steps := by
  simp only [holding, List.flatMap_cons, List.flatMap_append, List.flatMap_nil, handed,
    List.nil_append, List.append_nil]

theorem allConfined_call {home : Nat} {fields : Prop} {held : List Reference} :
    AllConfined home fields held (called level activation true :: (steps ++ [returned answer])) ↔
      activation.level ≤ level + 1 ∧ AllConfined home fields held steps := by
  have hheld : holding held [called level activation true] = held := List.append_nil held
  rw [AllConfined, hheld, allConfined_append]
  exact and_congr_right fun _ => and_iff_left ⟨trivial, trivial⟩

end Call

end Step

namespace Program

variable {activation : Activation} {body : FunctionDecl → Program} {machine : Machine σ}

/-- The steps of a program after a call follow those of the call. -/
theorem steps_call_append (next : Outcome Value → Program) :
    (call activation body next).steps machine =
      (call activation body done).steps machine ++
        (next ((Machine.call activation (evaluator body)).answer machine)).steps
          ((Machine.call activation (evaluator body)).after machine) := by
  rw [steps, steps, steps, List.cons_append, List.append_assoc, List.singleton_append]

theorem steps_call (hroom : activation.level < machine.display.levelLimit) :
    (call activation body done).steps machine =
      .called machine.display.level activation true ::
        ((body activation.function).steps (machine.entered activation) ++
          [.returned ((body activation.function).run.answer (machine.entered activation))]) := by
  rw [steps, steps, decide_eq_true hroom, if_pos rfl, Machine.answer_call _ hroom, evaluator]

theorem steps_call_of_refused (hrefused : machine.display.levelLimit ≤ activation.level) :
    (call activation body done).steps machine =
      [.called machine.display.level activation false, .returned
        (.error (.nestingLimitExceeded activation.level machine.display.levelLimit))] := by
  have hanswer : (Machine.call activation (evaluator body)).answer machine =
      .error (.nestingLimitExceeded activation.level machine.display.levelLimit) := by
    rw [Update.answer, Machine.call_of_refused _ hrefused]
  rw [steps, steps, decide_eq_false (Nat.not_lt.mpr hrefused), hanswer]
  rfl

end Program

/-- A reference that is handed out leads to a scope of the running code. -/
theorem Operation.installed_of_handed {operation : Operation α} {machine : Machine σ}
    {reference : Reference}
    (hhanded : reference ∈ operation.handed (operation.run.answer machine)) :
    reference.depth ≤ machine.display.level ∧ ∃ frame,
      machine.display.frame? reference.depth = some frame ∧ frame.stamp = reference.stamp := by
  cases operation with
  | define name =>
    rw [run, Machine.answer_onDisplay] at hhanded
    cases hframe : machine.display.frame? machine.display.level with
    | none =>
      rw [Display.answer_define_of_vacant name hframe] at hhanded
      cases hhanded
    | some frame =>
      rw [Display.answer_define name hframe] at hhanded
      cases hslot : (Activation.define machine.display.redefinition name).answer
          frame.activation with
      | error fault =>
        rw [hslot] at hhanded
        cases hhanded
      | ok slot =>
        rw [hslot] at hhanded
        obtain rfl := List.mem_singleton.mp hhanded
        exact ⟨Nat.le_refl _, frame, hframe, rfl⟩
  | ask query =>
    rw [run, Update.answer_read] at hhanded
    cases query with
    | resolve name =>
      rw [Query.answer] at hhanded
      cases hfound : machine.display.resolve? name with
      | none =>
        rw [hfound] at hhanded
        cases hhanded
      | some found =>
        rw [hfound] at hhanded
        obtain rfl := List.mem_singleton.mp hhanded
        obtain ⟨hdepth, frame, hframe, hstamp, _⟩ := Display.exists_frame_of_resolve hfound
        exact ⟨hdepth, frame, hframe, hstamp⟩
    | _ => cases hhanded
  | _ => cases hhanded

end InterpreterCore

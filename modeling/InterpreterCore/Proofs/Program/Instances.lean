import InterpreterCore.Proofs.Activation.Handles
import InterpreterCore.Proofs.Instance.Heap
import InterpreterCore.Proofs.Program.Steps
import InterpreterCore.Proofs.Value.Contract
import Mathlib.Data.List.Nodup

namespace InterpreterCore

variable {σ α : Type}

namespace Operation

/-- The instance that an operation makes. -/
def made : Operation α → Outcome α → List Instance
  | allocate _, .ok o => [o]
  | _, _ => []

/-- What an operation stores in a field of an instance, whichever handle to the instance is used. -/
def stored? (o : Instance) (name : String) : Operation α → Option Value
  | setField target field value => if target.same o = true ∧ field = name then some value else none
  | _ => none

/-- The handles that an operation brings are among some. -/
def Genuine (held : List Instance) : Operation α → Prop
  | store _ value | assign _ value => value.Within held
  | setField target _ value => target ∈ held ∧ value.Within held
  | _ => True

instance {held : List Instance} (operation : Operation α) : Decidable (operation.Genuine held) :=
  match operation with
  | .store _ value | .assign _ value => inferInstanceAs (Decidable (value.Within held))
  | .setField target _ value => inferInstanceAs (Decidable (target ∈ held ∧ value.Within held))
  | .ask _ | .define _ | .remove _ | .declare _ | .declareInner _ _ | .undeclare _
  | .declareClass _ | .declareInterface _ | .allocate _ => .isTrue trivial

end Operation

namespace Step

/-- The instance that is made in a step. -/
def made : Step → List Instance
  | performed _ operation answer => operation.made answer
  | called _ _ _ | returned _ => []

/-- What a step stores in a field of an instance. -/
def stored? (o : Instance) (name : String) : Step → Option Value
  | performed _ operation _ => operation.stored? o name
  | called _ _ _ | returned _ => none

/-- The instances that have been made in some steps. -/
def allMade (steps : List Step) : List Instance := steps.flatMap made

/-- What was last stored in a field of an instance, through any handle to it. -/
def lastStored? (steps : List Step) (o : Instance) (name : String) : Option Value :=
  steps.reverse.findSome? (stored? o name)

/-- Each step has a property that depends on the steps before it. -/
def Along (property : List Step → Step → Prop) (past : List Step) : List Step → Prop
  | [] => True
  | step :: rest => property past step ∧ Along property (past ++ [step]) rest

instance Along.decidable {property : List Step → Step → Prop}
    [∀ past step, Decidable (property past step)] :
    (past steps : List Step) → Decidable (Along property past steps)
  | _, [] => .isTrue trivial
  | past, step :: rest =>
    have : Decidable (Along property (past ++ [step]) rest) := decidable _ rest
    inferInstanceAs (Decidable (property past step ∧ Along property (past ++ [step]) rest))

/-- A step brings handles only to instances that have been made before it. -/
def Genuine (past : List Step) : Step → Prop
  | performed _ operation _ => operation.Genuine (allMade past)
  | called _ activation _ => activation.Within (allMade past)
  | returned _ => True

instance (past : List Step) (step : Step) : Decidable (step.Genuine past) :=
  match step with
  | performed _ operation _ => inferInstanceAs (Decidable (operation.Genuine (allMade past)))
  | called _ activation _ => inferInstanceAs (Decidable (activation.Within (allMade past)))
  | returned _ => .isTrue trivial

end Step

/-- What is read is what the steps before it have left. A field has the value that was last stored
    in it, the constant mark included, and handles that are read are handles that were made. -/
def Query.Sound (past : List Step) : Query α → Outcome α → Prop
  | field o name, answer => answer = .ok (Step.lastStored? past o name) ∧
      ∀ value ∈ Step.lastStored? past o name, value.Within (Step.allMade past)
  | get _, .ok value | lookup _, .ok value => value.Within (Step.allMade past)
  | activation _, .ok (some found) => found.Within (Step.allMade past)
  | _, _ => True

/-- What an operation on instances answers. A new instance is of the class that was asked for and is
    none of those that were made before; a field can always be stored in. -/
def Operation.Sound (past : List Step) : Operation α → Outcome α → Prop
  | ask query, answer => query.Sound past answer
  | allocate className, answer => ∃ o : Instance, answer = .ok o ∧ o.className = className ∧
      ∀ other ∈ Step.allMade past, other.same o = false
  | setField _ _ _, answer => answer = .ok ()
  | _, _ => True

namespace Step

/-- What a step tells of instances is so. -/
def Sound (past : List Step) : Step → Prop
  | performed _ operation answer => operation.Sound past answer
  | called _ _ _ | returned _ => True

theorem allMade_concat (past : List Step) (step : Step) :
    allMade (past ++ [step]) = allMade past ++ step.made := by
  rw [allMade, List.flatMap_append, List.flatMap_singleton, allMade]

theorem lastStored?_concat (past : List Step) (step : Step) (o : Instance) (name : String) :
    lastStored? (past ++ [step]) o name = (step.stored? o name).or (lastStored? past o name) := by
  rw [lastStored?, List.reverse_append, List.reverse_singleton, List.findSome?_append,
    List.findSome?_singleton, lastStored?]

end Step

/-- The machine on which a run begins: the main function is installed, and no instance has been
    made. -/
def Machine.start (settings : Display.Settings) (host : σ) : Machine σ :=
  { display := .create settings, host }

/-- What a machine keeps of the steps that have led to it: the fields of all instances that have been
    made, and handles to those alone, in fields and in the activations that are in place. -/
structure Machine.Keeps (past : List Step) (machine : Machine σ) : Prop where
  ids : (Step.allMade past).map Instance.id = List.range machine.heap.instances.size
  fields : ∀ o name, machine.heap.field? o name = Step.lastStored? past o name
  values : ∀ o name, ∀ value ∈ Step.lastStored? past o name, value.Within (Step.allMade past)
  frames : ∀ level frame, machine.display.frame? level = some frame →
    frame.activation.Within (Step.allMade past)

namespace Operation

/-- The heap after an operation. -/
def heapAfter (heap : Heap) : Operation α → Heap
  | allocate className => (heap.allocate className).2
  | setField o name value => heap.setField o name value
  | _ => heap

theorem heap_after (operation : Operation α) (machine : Machine σ) :
    (operation.run.after machine).heap = operation.heapAfter machine.heap := by
  cases operation with
  | ask query =>
    rw [run, Update.after_read]
    rfl
  | allocate className => rfl
  | setField o name value => rfl
  | _ =>
    rw [run, Machine.after_onDisplay]
    rfl

theorem range_size_heapAfter (operation : Operation α) (machine : Machine σ) :
    List.range (operation.heapAfter machine.heap).instances.size =
      List.range machine.heap.instances.size ++
        (operation.made (operation.run.answer machine)).map Instance.id := by
  cases operation with
  | allocate className =>
    rw [heapAfter, Heap.size_allocate, List.range_succ]
    rfl
  | setField o name value =>
    rw [heapAfter, Heap.size_setField]
    exact (List.append_nil _).symm
  | _ => exact (List.append_nil _).symm

/-- A field that an operation does not store in is as before. -/
theorem field?_heapAfter {held : List Instance} {heap : Heap}
    (hheld : ∀ o ∈ held, o.id < heap.instances.size) {operation : Operation α}
    (hgenuine : operation.Genuine held) (o : Instance) (name : String) :
    (operation.heapAfter heap).field? o name =
      (operation.stored? o name).or (heap.field? o name) := by
  cases operation with
  | allocate className => exact Heap.field?_allocate ..
  | setField target field value =>
    rw [heapAfter, Heap.field?_setField heap (hheld target hgenuine.1), stored?]
    split <;> rfl
  | _ => rfl

theorem within_of_stored? {held : List Instance} {operation : Operation α} {o : Instance}
    {name : String} {value : Value} (hgenuine : operation.Genuine held)
    (hstored : operation.stored? o name = some value) : value.Within held := by
  cases operation with
  | setField target field stored =>
    rw [stored?] at hstored
    split at hstored <;> cases hstored
    exact hgenuine.2
  | _ => cases hstored

/-- The handle that an edit of an operation stores is one that the operation brings. -/
theorem within_of_edit? {held : List Instance} {operation : Operation α} {display : Display}
    {level : Nat} {edit : Edit} (hgenuine : operation.Genuine held)
    (hedit : operation.edit? display = some (level, edit)) : edit.Within held := by
  cases operation with
  | store reference value =>
    rw [edit?] at hedit
    split at hedit <;> cases hedit
    exact hgenuine
  | assign reference value =>
    rw [edit?] at hedit
    split at hedit
    · split at hedit <;> cases hedit
      exact hgenuine
    · cases hedit
  | declareInner name parameters =>
    rw [edit?] at hedit
    split at hedit <;> cases hedit
    trivial
  | _ => cases hedit <;> trivial

end Operation

namespace Machine.Keeps

variable {past later : List Step} {machine ended : Machine σ} {activation : Activation}

theorem start (settings : Display.Settings) (host : σ) :
    (Machine.start settings host).Keeps [] where
  ids := rfl
  fields _ _ := rfl
  values _ _ _ hvalue := nomatch hvalue
  frames level frame hframe := by
    cases level with
    | zero =>
      cases hframe
      exact Activation.within_ofFunction _
    | succ level => cases hframe

theorem lt_size (hkeeps : machine.Keeps past) {o : Instance} (ho : o ∈ Step.allMade past) :
    o.id < machine.heap.instances.size :=
  List.mem_range.mp (hkeeps.ids ▸ List.mem_map_of_mem ho)

/-- Instances that were made at different times are different instances. -/
theorem same_iff (hkeeps : machine.Keeps past) {x y : Instance} (hx : x ∈ Step.allMade past)
    (hy : y ∈ Step.allMade past) : x.same y = true ↔ x = y := by
  have hids : ((Step.allMade past).map Instance.id).Nodup := hkeeps.ids ▸ List.nodup_range
  rw [Instance.same, beq_iff_eq]
  exact ⟨List.inj_on_of_nodup_map hids hx hy, congrArg Instance.id⟩

/-- A step that neither makes an instance nor stores in a field leaves nothing to keep. -/
theorem silent (hkeeps : machine.Keeps past) {step : Step} (hmade : step.made = [])
    (hstored : ∀ o name, step.stored? o name = none) : machine.Keeps (past ++ [step]) := by
  have hallMade : Step.allMade (past ++ [step]) = Step.allMade past := by
    rw [Step.allMade_concat, hmade, List.append_nil]
  have hlast (o : Instance) (name : String) :
      Step.lastStored? (past ++ [step]) o name = Step.lastStored? past o name := by
    rw [Step.lastStored?_concat, hstored, Option.none_or]
  constructor
  · rw [hallMade, hkeeps.ids]
  · intro o name
    rw [hlast, hkeeps.fields]
  · intro o name
    rw [hlast, hallMade]
    exact hkeeps.values o name
  · rw [hallMade]
    exact hkeeps.frames

theorem entered (hkeeps : machine.Keeps past)
    (hgenuine : activation.Within (Step.allMade past)) :
    (machine.entered activation).Keeps past where
  ids := hkeeps.ids
  fields := hkeeps.fields
  values := hkeeps.values
  frames level frame hframe := by
    rw [Machine.entered, Display.frame?_install] at hframe
    split at hframe
    · cases hframe
      exact hgenuine
    · exact hkeeps.frames level frame hframe

/-- What a call puts back holds handles that were made before the call. -/
theorem left (hkeeps : machine.Keeps past) (hended : ended.Keeps later)
    (hgrown : Step.allMade past ⊆ Step.allMade later) :
    (machine.left activation ended).Keeps later where
  ids := hended.ids
  fields := hended.fields
  values := hended.values
  frames level frame hframe := by
    rw [Machine.left, Display.frame?_restore] at hframe
    split at hframe
    · exact (hkeeps.frames _ frame hframe).mono hgrown
    · exact hended.frames level frame hframe

theorem frames_perform (hkeeps : machine.Keeps past) {operation : Operation α}
    (hgenuine : operation.Genuine (Step.allMade past)) (level : Nat) (frame : Frame)
    (hframe : (operation.run.after machine).display.frame? level = some frame) :
    frame.activation.Within (Step.allMade past) := by
  cases hedit : operation.edit? machine.display with
  | none =>
    obtain ⟨classes, interfaces, hafter⟩ := Operation.display_of_no_edit hedit
    rw [hafter] at hframe
    exact hkeeps.frames level frame hframe
  | some made =>
    rw [Operation.display_of_edit hedit, Display.frame?_editAt] at hframe
    split at hframe
    · obtain ⟨edited, hedited, rfl⟩ := Option.map_eq_some_iff.mp hframe
      exact (hkeeps.frames _ edited hedited).apply (Operation.within_of_edit? hgenuine hedit)
    · exact hkeeps.frames level frame hframe

/-- Each operation that brings genuine handles keeps what is to be kept. -/
theorem perform (hkeeps : machine.Keeps past) {operation : Operation α}
    (hgenuine : operation.Genuine (Step.allMade past)) (level : Nat) :
    (operation.run.after machine).Keeps
      (past ++ [.performed level operation (operation.run.answer machine)]) := by
  have hallMade := Step.allMade_concat past
    (.performed level operation (operation.run.answer machine))
  have hgrown : Step.allMade past ⊆ Step.allMade
      (past ++ [.performed level operation (operation.run.answer machine)]) := by
    rw [hallMade]
    exact List.subset_append_left ..
  constructor
  · rw [hallMade, List.map_append, hkeeps.ids, Operation.heap_after,
      Operation.range_size_heapAfter, Step.made]
  · intro o name
    rw [Operation.heap_after, Operation.field?_heapAfter (fun _ => hkeeps.lt_size) hgenuine,
      hkeeps.fields, Step.lastStored?_concat, Step.stored?]
  · intro o name value hvalue
    rw [Step.lastStored?_concat, Step.stored?] at hvalue
    obtain hstored | ⟨_, hearlier⟩ := Option.or_eq_some_iff.mp hvalue
    · exact (Operation.within_of_stored? hgenuine hstored).mono hgrown
    · exact (hkeeps.values o name value hearlier).mono hgrown
  · exact fun level frame hframe => (hkeeps.frames_perform hgenuine level frame hframe).mono hgrown

/-- Values that are read hold handles that have been made. -/
theorem get (hkeeps : machine.Keeps past) {reference : Reference} {value : Value}
    (hvalue : machine.display.get reference = .ok value) : value.Within (Step.allMade past) := by
  cases hissuer : machine.display.issuer reference with
  | error fault =>
    rw [Display.get_of_issuer_error hissuer] at hvalue
    cases hvalue
  | ok frame =>
    rw [Display.get_of_issuer hissuer] at hvalue
    exact (hkeeps.frames _ frame (Display.frame?_of_issuer hissuer).1).value hvalue

theorem answer_sound (hkeeps : machine.Keeps past) (query : Query α) :
    query.Sound past (query.answer machine) := by
  cases query with
  | field o name => exact ⟨congrArg Except.ok (hkeeps.fields o name), hkeeps.values o name⟩
  | get reference =>
    rw [Query.answer]
    cases hvalue : machine.display.get reference with
    | ok value => exact hkeeps.get hvalue
    | error fault => trivial
  | lookup name =>
    rw [Query.answer, Display.lookup]
    cases machine.display.resolve? name with
    | none => trivial
    | some reference =>
      dsimp only
      cases hvalue : machine.display.get reference with
      | ok value => exact hkeeps.get hvalue
      | error fault => trivial
  | activation depth =>
    rw [Query.answer, Display.activation?]
    cases hframe : machine.display.frame? depth with
    | none => trivial
    | some frame => exact hkeeps.frames depth frame hframe
  | _ => trivial

theorem sound (hkeeps : machine.Keeps past) (operation : Operation α) :
    operation.Sound past (operation.run.answer machine) := by
  cases operation with
  | ask query =>
    rw [Operation.run, Update.answer_read]
    exact hkeeps.answer_sound query
  | allocate className =>
    refine ⟨⟨machine.heap.instances.size, className⟩, rfl, rfl, fun other hother => ?_⟩
    exact beq_false_of_ne (Nat.ne_of_lt (hkeeps.lt_size hother))
  | setField o name value => rfl
  | _ => trivial

end Machine.Keeps

namespace Step

theorem along_append {property : List Step → Step → Prop} {past first second : List Step} :
    Along property past (first ++ second) ↔
      Along property past first ∧ Along property (past ++ first) second := by
  induction first generalizing past with
  | nil => rw [List.nil_append, List.append_nil, Along, true_and]
  | cons step rest ih =>
    rw [List.cons_append, Along, Along, ih, and_assoc, List.append_cons past step rest]

theorem allMade_subset (past steps : List Step) : allMade past ⊆ allMade (past ++ steps) := by
  rw [allMade, allMade, List.flatMap_append]
  exact List.subset_append_left ..

end Step

namespace Program

/-- A call whose body keeps what is to be kept does so, whether it is accepted or refused. -/
theorem keeps_call {activation : Activation} {body : FunctionDecl → Program} {past : List Step}
    {machine : Machine σ} (hkeeps : machine.Keeps past)
    (hgenuine : Step.Along Step.Genuine past ((call activation body done).steps machine))
    (hbody : ∀ {past : List Step} {machine : Machine σ}, machine.Keeps past →
      Step.Along Step.Genuine past ((body activation.function).steps machine) →
        ((body activation.function).run.after machine).Keeps
            (past ++ (body activation.function).steps machine) ∧
          Step.Along Step.Sound past ((body activation.function).steps machine)) :
    ((Machine.call activation (evaluator body)).after machine).Keeps
        (past ++ (call activation body done).steps machine) ∧
      Step.Along Step.Sound past ((call activation body done).steps machine) := by
  by_cases hroom : activation.level < machine.display.levelLimit
  · rw [steps_call hroom] at hgenuine ⊢
    obtain ⟨hactivation, hrest⟩ := hgenuine
    have hentered : (machine.entered activation).Keeps
        (past ++ [.called machine.display.level activation true]) :=
      (hkeeps.entered hactivation).silent rfl fun _ _ => rfl
    obtain ⟨hended, hsound⟩ := hbody hentered (Step.along_append.mp hrest).1
    refine ⟨?_, trivial, Step.along_append.mpr ⟨hsound, trivial, trivial⟩⟩
    rw [Machine.after_call _ hroom]
    refine hkeeps.left ?_ (Step.allMade_subset ..)
    rw [List.append_cons, ← List.append_assoc]
    exact hended.silent rfl fun _ _ => rfl
  · have hrefused := Nat.le_of_not_lt hroom
    rw [steps_call_of_refused hrefused, Update.after, Machine.call_of_refused _ hrefused,
      List.append_cons]
    exact ⟨(hkeeps.silent rfl fun _ _ => rfl).silent rfl fun _ _ => rfl, trivial, trivial, trivial⟩

/-- A program that brings genuine handles keeps what is to be kept, and what its steps tell of
    instances is so. -/
theorem keeps_run (program : Program) {past : List Step} {machine : Machine σ}
    (hkeeps : machine.Keeps past)
    (hgenuine : Step.Along Step.Genuine past (program.steps machine)) :
    (program.run.after machine).Keeps (past ++ program.steps machine) ∧
      Step.Along Step.Sound past (program.steps machine) := by
  induction program generalizing past machine with
  | done result =>
    rw [run, Update.after_read, steps, List.append_nil]
    exact ⟨hkeeps, trivial⟩
  | perform operation next ih =>
    rw [steps] at hgenuine ⊢
    obtain ⟨hfirst, hrest⟩ := hgenuine
    obtain ⟨hended, hsound⟩ := ih _ (hkeeps.perform hfirst machine.display.level) hrest
    rw [after_perform, List.append_cons]
    exact ⟨hended, hkeeps.sound operation, hsound⟩
  | call activation body next ihbody ihnext =>
    rw [steps_call_append] at hgenuine ⊢
    obtain ⟨hcall, hnext⟩ := Step.along_append.mp hgenuine
    obtain ⟨hcalled, hcallSound⟩ := keeps_call hkeeps hcall (ihbody activation.function)
    obtain ⟨hended, hnextSound⟩ := ihnext _ hcalled hnext
    rw [after_call, ← List.append_assoc]
    exact ⟨hended, Step.along_append.mpr ⟨hcallSound, hnextSound⟩⟩

/-- Whether two objects are equal is whether they are one instance, whatever the marks of the values
    and whatever is stored in the fields. -/
theorem equal_objects {l r : Value} {x y : Instance} (hl : l.asObject? = some x)
    (hr : r.asObject? = some y) :
    l.sameData r = x.same y ∧ Value.binary (.relation .eq) l r = .ok (.boolean (x.same y)) := by
  obtain ⟨left, _⟩ := l
  obtain ⟨right, _⟩ := r
  cases left with
  | object =>
    cases right with
    | object =>
      cases hl
      cases hr
      exact ⟨rfl, rfl⟩
    | _ => cases hr
  | _ => cases hl

/-- The handles of a run stand for shared instances. At every step a field has the value that was last
    stored in it through any handle to its instance, the constant mark included, and so it has in the
    end. Instances that were made are told apart for good, and equality of objects is just that. What
    a call puts back, however it ends, are activations: the variables of the frame that it displaced
    are as they were, and the fields are as its body leaves them. -/
structure SharesInstances (program : Program) (machine : Machine σ) : Prop where
  told : Step.Along Step.Sound [] (program.steps machine)
  ended : ∀ o name, (program.run.after machine).heap.field? o name =
    Step.lastStored? (program.steps machine) o name
  distinct : ∀ x ∈ Step.allMade (program.steps machine),
    ∀ y ∈ Step.allMade (program.steps machine), x.same y = true ↔ x = y
  equality : ∀ (l r : Value) (x y : Instance), l.asObject? = some x → r.asObject? = some y →
    l.sameData r = x.same y ∧ Value.binary (.relation .eq) l r = .ok (.boolean (x.same y))
  calls : ∀ (caller : Machine σ) (activation : Activation) (body : FunctionDecl → Program),
    activation.level < caller.display.levelLimit →
      ((Machine.call activation (evaluator body)).after caller).heap =
          ((body activation.function).run.after (caller.entered activation)).heap ∧
        ((Machine.call activation (evaluator body)).after caller).display.frame? activation.level =
          caller.display.frame? activation.level

/-- Instances are shared by their handles in every run of every program that brings no handles of its
    own invention. Nothing is assumed of where the handles have been: they may be in variables that
    calls displace, in arguments, in latched copies and in fields of each other. -/
theorem instances_shared (settings : Display.Settings) (host : σ) {program : Program}
    (hgenuine : Step.Along Step.Genuine [] (program.steps (Machine.start settings host))) :
    program.SharesInstances (Machine.start settings host) := by
  obtain ⟨hkeeps, hsound⟩ := program.keeps_run (Machine.Keeps.start settings host) hgenuine
  rw [List.nil_append] at hkeeps
  exact {
    told := hsound
    ended := hkeeps.fields
    distinct := fun x hx y hy => hkeeps.same_iff hx hy
    equality := fun l r x y => equal_objects
    calls := fun caller activation body hroom => by
      rw [Machine.after_call _ hroom, Machine.left, Display.frame?_restore, if_pos rfl]
      exact ⟨rfl, rfl⟩ }

/-- Two instances come to hold each other in a call that displaces the main function and fails. The
    variable with a latched handle is put back, and the fields stay. -/
theorem cycle_kept_over_failed_call :
    let a : Instance := ⟨0, "Node"⟩
    let b : Instance := ⟨1, "Node"⟩
    let x : Reference := ⟨0, 0, ⟨0⟩⟩
    let failing : Program := .perform (.setField a "next" (.object b)) fun _ =>
      .perform (.setField b "next" (Value.object a).latch) fun _ => .done (.error (.raised "no"))
    let program : Program :=
      .perform (.allocate "Node") fun _ => .perform (.allocate "Node") fun _ =>
      .perform (.define "x") fun _ => .perform (.store x (Value.object a).latch) fun _ =>
      .call (.ofFunction ⟨"other", 0, []⟩) (fun _ => failing) fun _ =>
      .perform (.ask (.get x)) .done
    let machine : Machine Unit := .start {} ()
    Step.Along Step.Genuine [] (program.steps machine) ∧
      program.run.answer machine = .ok (Value.object a).latch ∧
      (program.run.after machine).heap.field? a "next" = some (.object b) ∧
      (program.run.after machine).heap.field? b "next" = some (Value.object a).latch ∧
      a.same b = false := by
  intro a b x failing program machine
  have hgenuine : Step.Along Step.Genuine [] (program.steps machine) := by decide +kernel
  have hshares : program.SharesInstances machine := instances_shared {} () hgenuine
  have ha : a ∈ Step.allMade (program.steps machine) := by decide +kernel
  have hb : b ∈ Step.allMade (program.steps machine) := by decide +kernel
  refine ⟨hgenuine, by decide +kernel, ?_, ?_, ?_⟩
  · rw [hshares.ended]
    decide +kernel
  · rw [hshares.ended]
    decide +kernel
  · refine Bool.eq_false_iff.mpr fun hsame => ?_
    exact absurd ((hshares.distinct a ha b hb).mp hsame) (by decide)

end Program

end InterpreterCore

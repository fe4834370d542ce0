import InterpreterCore.Proofs.Activation.FunctionLog
import InterpreterCore.Proofs.Execution.Reference

namespace InterpreterCore

open FunctionEvent

/-- What an operation does to the functions of the current scope, by its answer. -/
def Operation.functionEvents {α : Type} (display : Display) : Operation α → List FunctionEvent
  | .declare decl =>
    match (Display.declare decl).answer display with
    | .ok () => [.declared decl]
    | .error _ => []
  | .declareInner name parameters =>
    match (Display.declareInner name parameters).answer display with
    | .ok decl => [.declared decl]
    | .error _ => []
  | .undeclare name => [.removed name]
  | _ => []

/-- The events of an operation are those of the edit that it makes, if it makes one. -/
theorem Operation.functionEvents_eq {α : Type} {display : Display} {frame : Frame}
    (hframe : display.frame? display.level = some frame) (operation : Operation α) :
    operation.functionEvents display =
      ((operation.edit? display).map fun made =>
        made.2.functionEvents frame.activation).getD [] := by
  cases operation with
  | declare decl =>
    rw [functionEvents, Display.answer_declare decl hframe]
    rfl
  | declareInner name parameters =>
    rw [functionEvents, Display.answer_declareInner, Display.answer_declare _ hframe, edit?]
    by_cases hroom : display.level + 1 < display.levelLimit
    · rw [if_pos hroom, if_pos hroom, Option.map_some, Option.getD_some, Edit.functionEvents]
      cases (Activation.declare display.redefinition ⟨name, display.level + 1, parameters⟩).answer
        frame.activation <;> rfl
    · rw [if_neg hroom, if_neg hroom]
      rfl
  | undeclare name => rfl
  | define name => rfl
  | remove name => rfl
  | store reference value =>
    rw [edit?]
    cases display.issuer reference <;> rfl
  | assign reference value =>
    rw [edit?]
    cases display.issuer reference with
    | ok frame =>
      dsimp only
      split <;> rfl
    | error fault => rfl
  | ask query => rfl
  | declareClass decl => rfl
  | declareInterface decl => rfl
  | allocate className => rfl
  | setField o name value => rfl

namespace Display

/-- The functions of the current scope are an ordered map that a log tells. They are the ones that
    the log leaves; what is found and what is taken away is the latest definition of the name; and a
    declaration is refused exactly if the policy is to refuse and the log leaves the name. The inner
    level is checked before that. A definition that is replaced or taken away is the only one of its
    name, and a new one comes to the end. -/
structure MapsFunctions (display : Display) (policy : Redefinition) (log : List FunctionEvent) :
    Prop where
  listed : display.functions = listing log
  here : ∀ name, display.functionHere? name = latest? name log
  declared : ∀ decl, (declare decl).answer display =
    if policy = .reject ∧ (latest? decl.name log).isSome then
      .error (.duplicateDefinition "function" decl.name)
    else .ok ()
  declaredInner : ∀ name parameters, (declareInner name parameters).answer display =
    if display.level + 1 < display.levelLimit then
      if policy = .reject ∧ (latest? name log).isSome then
        .error (.duplicateDefinition "function" name)
      else .ok ⟨name, display.level + 1, parameters⟩
    else .error (.nestingLimitExceeded (display.level + 1) display.levelLimit)
  replaced : ∀ decl, (declare decl).answer display = .ok () →
    ((declare decl).after display).functions =
      (display.functions.eraseP fun other => other.name == decl.name) ++ [decl]
  undeclared : ∀ name, (undeclare name).answer display = .ok (latest? name log)
  taken : ∀ name, ((undeclare name).after display).functions =
    display.functions.eraseP fun other => other.name == name

section Here

variable {display : Display} {frame : Frame} {log : List FunctionEvent}
  (hframe : display.frame? display.level = some frame)
  (hfunctions : frame.activation.functions = listing log)
include hframe hfunctions

theorem functions_editAt_level (edit : Edit) :
    (display.editAt display.level edit).functions =
      listing (edit.functionEvents frame.activation ++ log) := by
  have hplace : (display.editAt display.level edit).frame?
      (display.editAt display.level edit).level = some (frame.edit edit) := by
    rw [level_editAt, frame?_editAt, if_pos rfl, hframe, Option.map_some]
  exact (functions_of_frame? hplace).trans (Edit.functions_apply hfunctions edit)

theorem answer_declare_of_log (decl : FunctionDecl) :
    (declare decl).answer display =
      if display.redefinition = .reject ∧ (latest? decl.name log).isSome then
        .error (.duplicateDefinition "function" decl.name)
      else .ok () := by
  rw [answer_declare decl hframe, Activation.answer_declare,
    Activation.function?_eq_latest? hfunctions]
  rfl

theorem mapsFunctions : display.MapsFunctions display.redefinition log := by
  have hfound := Activation.function?_eq_latest? hfunctions
  have hlisted := (functions_of_frame? hframe).trans hfunctions
  refine ⟨hlisted, fun name => ?here, answer_declare_of_log hframe hfunctions,
    fun name parameters => ?declaredInner, fun decl haccepted => ?replaced,
    fun name => ?undeclared, fun name => ?taken⟩
  case here => rw [functionHere?_of_frame? hframe, hfound]
  case declaredInner =>
    rw [answer_declareInner, answer_declare_of_log hframe hfunctions]
    split
    · split <;> rfl
    · rfl
  case replaced =>
    rw [answer_declare decl hframe] at haccepted
    rw [after_declare, functions_editAt_level hframe hfunctions, Edit.functionEvents, haccepted,
      List.singleton_append, listing_declared, hlisted,
      filter_name_ne_eq_eraseP (nodup_listing log)]
  case undeclared => rw [answer_undeclare name hframe, hfound]
  case taken =>
    rw [after_undeclare, functions_editAt_level hframe hfunctions, Edit.functionEvents,
      List.singleton_append, listing_removed, hlisted,
      filter_name_ne_eq_eraseP (nodup_listing log)]

end Here

end Display

namespace Execution

variable {σ : Type}

/-- What an action does to the functions of an activation. An operation is about the running
    activation, and a call that is accepted brings the functions that its activation has got
    before. -/
def functionEvents (execution : Execution σ) (serial : Nat) : Action → List FunctionEvent
  | .perform operation =>
    if execution.occupant? execution.display.level = some serial then
      operation.functionEvents execution.display
    else []
  | .enter activation past =>
    if activation.level < execution.display.levelLimit ∧ serial = execution.installs + 1 then
      Edit.functionLog activation.function past
    else []
  | .leave => []

/-- The execution after some actions, of which the latest is the first in the list. -/
def ofActions (settings : Display.Settings) (host : σ) (actions : List Action) : Execution σ :=
  actions.foldr (fun action execution => execution.step action) (start settings host)

/-- What some actions have done to the functions of an activation, the latest first. -/
def functionLog (settings : Display.Settings) (host : σ) : List Action → Nat → List FunctionEvent
  | [], _ => []
  | action :: earlier, serial =>
    (ofActions settings host earlier).functionEvents serial action ++
      functionLog settings host earlier serial

/-- The executions after sequences of actions are those that a run reaches. -/
theorem reaches_iff_ofActions {settings : Display.Settings} {host : σ} {execution : Execution σ} :
    Reaches Genuine (start settings host) execution ↔
      ∃ actions, (∀ action ∈ actions, (start settings host).Genuine action) ∧
        ofActions settings host actions = execution := by
  constructor
  · intro hreaches
    induction hreaches with
    | refl => exact ⟨[], by simp, rfl⟩
    | step _ action hgenuine ih =>
      obtain ⟨actions, hactions, rfl⟩ := ih
      exact ⟨action :: actions, List.forall_mem_cons.mpr ⟨hgenuine, hactions⟩, rfl⟩
  · rintro ⟨actions, hactions, rfl⟩
    induction actions with
    | nil => exact .refl _
    | cons action earlier ih =>
      obtain ⟨hgenuine, hearlier⟩ := List.forall_mem_cons.mp hactions
      exact (ih hearlier).step action hgenuine

/-- The functions of all open activations are those that their logs leave. -/
structure Told (execution : Execution σ) (records : List Record) (log : Nat → List FunctionEvent) :
    Prop where
  shows : execution.Shows records
  numbered : execution.Numbered records
  functions : ∀ record ∈ records,
    record.frame.activation.functions = listing (log record.call.serial)
  unlogged : ∀ serial, execution.installs < serial → log serial = []

namespace Told

variable {execution : Execution σ} {records : List Record} {log : Nat → List FunctionEvent}

theorem functionEvents_perform (htold : execution.Told records log) {current : Record}
    (hcurrent : Record.at? records execution.display.level = some current) (serial : Nat)
    {α : Type} (operation : Operation α) :
    execution.functionEvents serial (.perform operation) =
      if current.call.serial = serial then
        ((operation.edit? execution.display).map fun made =>
          made.2.functionEvents current.frame.activation).getD []
      else [] := by
  rw [functionEvents, occupant?, htold.shows.holder?_eq, hcurrent,
    Operation.functionEvents_eq (htold.shows.frame?_of_at? hcurrent)]
  simp only [Option.map_some, Option.some.injEq]

/-- An edit of the current level is entered in the log of the running activation. An edit elsewhere
    stores a value, which is none of the functions' business. -/
theorem functions_editAt (htold : execution.Told records log) {α : Type} {operation : Operation α}
    {level : Nat} {edit : Edit} (hedit : operation.edit? execution.display = some (level, edit))
    {record : Record} (hmem : record ∈ Record.editAt level edit records) :
    record.frame.activation.functions =
      listing (execution.functionEvents record.call.serial (.perform operation) ++
        log record.call.serial) := by
  obtain ⟨current, -, -, hcurrent⟩ := htold.shows.current
  rw [htold.functionEvents_perform hcurrent, hedit, Option.map_some, Option.getD_some]
  obtain hlevel | ⟨slot, value, rfl⟩ := Operation.edit?_elsewhere hedit
  · rw [← hlevel] at hcurrent
    obtain rfl | ⟨hold, hother⟩ :=
      mem_editAt_of_descending htold.numbered.descending hcurrent hmem
    · rw [if_pos rfl]
      exact Edit.functions_apply (htold.functions current (Record.mem_of_at? hcurrent)) edit
    · rw [if_neg hother]
      exact htold.functions record hold
  · have hnothing : (Edit.store slot value).functionEvents current.frame.activation = [] := rfl
    rw [hnothing, ite_self]
    obtain hold | ⟨old, hat, rfl⟩ := Record.mem_editAt hmem
    · exact htold.functions record hold
    · exact Edit.functions_apply (htold.functions old (Record.mem_of_at? hat)) (.store slot value)

theorem perform (htold : execution.Told records log) {α : Type} (operation : Operation α) :
    (execution.perform operation).Told
      (Record.edited records (operation.edit? execution.display))
      fun serial => execution.functionEvents serial (.perform operation) ++ log serial := by
  obtain ⟨current, -, -, hcurrent⟩ := htold.shows.current
  refine ⟨htold.shows.perform operation, htold.numbered.perform operation, ?_, ?_⟩
  · intro record hrecord
    cases hedit : operation.edit? execution.display with
    | none =>
      rw [hedit] at hrecord
      rw [htold.functionEvents_perform hcurrent, hedit, Option.map_none, Option.getD_none, ite_self]
      exact htold.functions record hrecord
    | some made =>
      rw [hedit] at hrecord
      exact htold.functions_editAt hedit hrecord
  · intro serial hserial
    have hbound := htold.numbered.bounded _ (List.mem_map_of_mem (Record.mem_of_at? hcurrent))
    have hlater : execution.installs < serial := hserial
    rw [htold.functionEvents_perform hcurrent, if_neg (by omega), htold.unlogged serial hlater]
    rfl

theorem enter (htold : execution.Told records log) {activation : Activation} {past : List Edit}
    (hbuilt : activation.Built past) (hroom : activation.level < execution.display.levelLimit) :
    (execution.enter activation past).Told (execution.entering activation :: records)
      fun serial => execution.functionEvents serial (.enter activation past) ++ log serial := by
  have hother : ∀ serial, serial ≠ execution.installs + 1 →
      execution.functionEvents serial (.enter activation past) = [] :=
    fun serial hserial => if_neg fun h => hserial h.2
  refine ⟨htold.shows.enter past hroom, htold.numbered.enter past hroom, ?_, ?_⟩
  · intro record hrecord
    obtain rfl | hold := List.mem_cons.mp hrecord
    · have hfresh := htold.unlogged (execution.installs + 1) (Nat.lt_succ_self _)
      rw [show (execution.entering activation).call.serial = execution.installs + 1 from rfl,
        hfresh, functionEvents, if_pos ⟨hroom, rfl⟩, List.append_nil]
      exact hbuilt.functions_eq
    · have hbound := htold.numbered.bounded _ (List.mem_map_of_mem hold)
      rw [hother _ (by omega), List.nil_append]
      exact htold.functions record hold
  · intro serial hserial
    rw [enter_of_room past hroom] at hserial
    have hlater : execution.installs + 1 < serial := hserial
    rw [hother _ (by omega), List.nil_append]
    exact htold.unlogged serial (by omega)

theorem tail {inner outer : Record} {rest : List Record}
    (htold : execution.Told (inner :: outer :: rest) log) :
    execution.leave.Told (outer :: rest) log := by
  have hshows := htold.shows.leave
  rw [leave_of_cons htold.shows.suspended htold.shows.calls] at hshows ⊢
  exact ⟨hshows, htold.numbered.tail rfl rfl,
    fun record hrecord => htold.functions record (List.mem_cons_of_mem _ hrecord), htold.unlogged⟩

/-- What an action does to the functions is what it is noted for. -/
theorem step (htold : execution.Told records log) {action : Action}
    (hgenuine : execution.Genuine action) :
    ∃ after, (execution.step action).Told after
      fun serial => execution.functionEvents serial action ++ log serial := by
  cases action with
  | perform operation => exact ⟨_, htold.perform operation⟩
  | enter activation past =>
    by_cases hroom : activation.level < execution.display.levelLimit
    · exact ⟨_, htold.enter hgenuine hroom⟩
    · have hnothing : ∀ serial, execution.functionEvents serial (.enter activation past) = [] :=
        fun serial => if_neg fun h => hroom h.1
      simp only [hnothing, List.nil_append, Execution.step,
        enter_of_refused past (Nat.le_of_not_lt hroom)]
      exact ⟨records, htold⟩
  | leave =>
    obtain ⟨inner, outers, rfl, -⟩ := htold.shows.current
    cases outers with
    | nil =>
      rw [Execution.step, htold.shows.leave_main]
      exact ⟨[inner], htold⟩
    | cons outer rest => exact ⟨outer :: rest, htold.tail⟩

end Told

/-- After every sequence of actions, the functions of all open activations are those that their logs
    leave. -/
theorem exists_told {settings : Display.Settings} {host : σ} {actions : List Action}
    (hgenuine : ∀ action ∈ actions, (start settings host).Genuine action) :
    ∃ records, (ofActions settings host actions).Told records
      (functionLog settings host actions) := by
  induction actions with
  | nil =>
    refine ⟨_, shows_start settings host, numbered_start settings host, ?_, fun _ _ => rfl⟩
    intro record hrecord
    obtain rfl := List.mem_singleton.mp hrecord
    rfl
  | cons action earlier ih =>
    obtain ⟨haction, hearlier⟩ := List.forall_mem_cons.mp hgenuine
    obtain ⟨records, htold⟩ := ih hearlier
    exact htold.step haction

/-- A search for a function finds the latest definition of its name at the highest occupied level,
    from the current one down, at which its log leaves one. When the definition of the current scope
    is taken away, what is found is what the scopes around declare, and other names are not
    affected. -/
structure SearchesFunctions (execution : Execution σ) (log : Nat → List FunctionEvent)
    (name : String) : Prop where
  found : ∀ decl, execution.display.function? name = some decl ↔
    ∃ level serial, level ≤ execution.display.level ∧ execution.occupant? level = some serial ∧
      latest? name (log serial) = some decl ∧
      ∀ inner owner, level < inner → inner ≤ execution.display.level →
        execution.occupant? inner = some owner → latest? name (log owner) = none
  missing : execution.display.function? name = none ↔
    ∀ level serial, level ≤ execution.display.level → execution.occupant? level = some serial →
      latest? name (log serial) = none
  uncovered : ((Display.undeclare name).after execution.display).function? name =
    execution.display.enclosing?.bind (Display.function? · name)
  others : ∀ other, other ≠ name →
    ((Display.undeclare name).after execution.display).function? other =
      execution.display.function? other

namespace Told

variable {execution : Execution σ} {records : List Record} {log : Nat → List FunctionEvent}

/-- What the frames answer is what the logs of their activations leave. -/
theorem exists_occupant (htold : execution.Told records log) {level : Nat} {frame : Frame}
    (hframe : execution.display.frame? level = some frame) :
    ∃ serial, execution.occupant? level = some serial ∧
      ∀ name, frame.activation.function? name = latest? name (log serial) := by
  obtain ⟨record, hrecord, rfl⟩ := htold.shows.at?_of_frame? hframe
  have hfunctions := htold.functions record (Record.mem_of_at? hrecord)
  exact ⟨record.call.serial, htold.shows.occupant?_eq hrecord,
    Activation.function?_eq_latest? hfunctions⟩

theorem exists_frame (htold : execution.Told records log) {level serial : Nat}
    (hplace : execution.occupant? level = some serial) :
    ∃ frame, execution.display.frame? level = some frame ∧
      ∀ name, frame.activation.function? name = latest? name (log serial) := by
  obtain ⟨record, hrecord, rfl⟩ := htold.shows.exists_record_of_occupant hplace
  have hfunctions := htold.functions record (Record.mem_of_at? hrecord)
  exact ⟨record.frame, htold.shows.frame?_of_at? hrecord,
    Activation.function?_eq_latest? hfunctions⟩

theorem searchesFunctions (htold : execution.Told records log) (name : String) :
    execution.SearchesFunctions log name where
  found decl := by
    constructor
    · intro hfound
      obtain ⟨-, level, frame, -, hfinds⟩ := Display.exists_finds_function hfound
      obtain ⟨serial, hplace, hlatest⟩ := htold.exists_occupant hfinds.frame_eq
      refine ⟨level, serial, hfinds.depth_le, hplace, (hlatest name).symm.trans hfinds.answer, ?_⟩
      intro inner owner habove hinner howner
      obtain ⟨between, hbetween, hnone⟩ := htold.exists_frame howner
      rw [← hnone]
      exact hfinds.unanswered inner between habove hinner hbetween
    · rintro ⟨level, serial, hlevel, hplace, hdecl, hhidden⟩
      obtain ⟨frame, hframe, hlatest⟩ := htold.exists_frame hplace
      have hfinds : execution.display.Finds (fun _ frame => frame.activation.function? name)
          execution.display.level decl level frame := by
        refine ⟨hlevel, hframe, (hlatest name).trans hdecl, ?_⟩
        intro inner between habove hinner hbetween
        obtain ⟨owner, howner, hnone⟩ := htold.exists_occupant hbetween
        exact (hnone name).trans (hhidden inner owner habove hinner howner)
      exact hfinds.searchFrom_eq
  missing := by
    rw [Display.function?, Display.innermost?, Display.searchFrom_eq_none_iff]
    constructor
    · intro hnone level serial hlevel hplace
      obtain ⟨frame, hframe, hlatest⟩ := htold.exists_frame hplace
      have hhere := hnone level hlevel
      rw [hframe, Option.bind_some] at hhere
      rw [← hlatest, hhere]
    · intro hnone level hlevel
      cases hframe : execution.display.frame? level with
      | none => rfl
      | some frame =>
        obtain ⟨serial, hplace, hlatest⟩ := htold.exists_occupant hframe
        rw [Option.bind_some, hlatest, hnone level serial hlevel hplace]
  uncovered := by
    rw [Display.after_undeclare]
    refine Display.innermost?_editAt_level fun frame _ => ?_
    rw [Frame.edit, Activation.function?_apply_undeclare, if_pos rfl]
  others other hother := by
    rw [Display.after_undeclare]
    refine Display.innermost?_editAt fun frame _ => ?_
    rw [Frame.edit, Activation.function?_apply_undeclare, if_neg hother.symm]

end Told

@[simp]
theorem redefinition_step (execution : Execution σ) (action : Action) :
    (execution.step action).display.redefinition = execution.display.redefinition := by
  cases action with
  | perform operation =>
    rw [step, display_perform, Operation.display_after]
    split
    · exact Display.redefinition_editAt ..
    · rfl
  | enter activation past =>
    by_cases hroom : activation.level < execution.display.levelLimit
    · rw [step, display_enter past hroom]
      rfl
    · rw [step, enter_of_refused past (Nat.le_of_not_lt hroom)]
  | leave =>
    rw [step, leave]
    split <;> rfl

/-- The policy of a display never changes. -/
theorem redefinition_ofActions (settings : Display.Settings) (host : σ) (actions : List Action) :
    (ofActions settings host actions).display.redefinition = settings.redefinition := by
  induction actions with
  | nil => rfl
  | cons action earlier ih => exact (redefinition_step ..).trans ih

/-- Function tables are ordered maps, and they are searched from the innermost scope outwards. Take
    any sequence of actions under either policy, with functions declared, replaced and taken away in
    any scopes and before and between any calls. Each open activation, in place or put aside, has
    the functions that its own log leaves, each name once and in the order of the latest
    declarations. Those of the current scope are an ordered map in all that is asked of it and done
    to it, whatever the scopes around declare. And a search answers the innermost definition, or
    nothing if there is none, and sees the scopes around when the current one gives its definition
    up. -/
theorem function_tables_tell_logs (settings : Display.Settings) (host : σ) {actions : List Action}
    (hgenuine : ∀ action ∈ actions, (start settings host).Genuine action) :
    let execution := ofActions settings host actions
    let log := functionLog settings host actions
    (∀ record ∈ execution.records,
      record.frame.activation.functions = listing (log record.call.serial) ∧
      (record.frame.activation.functions.map FunctionDecl.name).Nodup) ∧
    (∃ serial, execution.occupant? execution.display.level = some serial ∧
      execution.display.MapsFunctions settings.redefinition (log serial)) ∧
    ∀ name, execution.SearchesFunctions log name := by
  intro execution log
  obtain ⟨records, htold⟩ : ∃ records, execution.Told records log := exists_told hgenuine
  refine ⟨fun record hrecord => ?_, ?_, htold.searchesFunctions⟩
  · rw [htold.shows.records_eq] at hrecord
    have hfunctions := htold.functions record hrecord
    exact ⟨hfunctions, hfunctions ▸ nodup_listing _⟩
  · obtain ⟨current, -, -, hcurrent⟩ := htold.shows.current
    refine ⟨current.call.serial, htold.shows.occupant?_eq hcurrent, ?_⟩
    rw [← redefinition_ofActions settings host actions]
    exact Display.mapsFunctions (htold.shows.frame?_of_at? hcurrent)
      (htold.functions current (Record.mem_of_at? hcurrent))

/-- In a function over the main one, `f` is declared, then `g`, and then `f` anew. The new `f` comes
    after `g`, and when it is taken away, the `f` of the main function is found, not the old one. -/
theorem function_tables_tell_logs_after_shadowing :
    let outer : FunctionDecl := ⟨"f", 1, []⟩
    let old : FunctionDecl := ⟨"f", 2, ["x"]⟩
    let other : FunctionDecl := ⟨"g", 2, []⟩
    let new : FunctionDecl := ⟨"f", 2, ["x", "y"]⟩
    let actions : List Action := [.perform (.declare new), .perform (.declare other),
      .perform (.declare old), .enter (.ofFunction ⟨"h", 1, []⟩) [], .perform (.declare outer)]
    let settings : Display.Settings := { redefinition := .shadow }
    let last := ofActions settings () actions
    functionLog settings () actions 1 = [.declared new, .declared other, .declared old] ∧
      last.display.functions = [other, new] ∧
      (Display.undeclare "f").answer last.display = .ok (some new) ∧
      ((Display.undeclare "f").after last.display).functions = [other] ∧
      ((Display.undeclare "f").after last.display).function? "f" = some outer := by
  intro outer old other new actions settings last
  have hinner : (Activation.ofFunction ⟨"h", 1, []⟩).Built [] := ⟨_, rfl, rfl⟩
  have hgenuine : ∀ action ∈ actions, (start settings ()).Genuine action := by
    simp [actions, Genuine, hinner]
  have hlog : functionLog settings () actions 1 = [.declared new, .declared other, .declared old] := by
    decide +kernel
  have hrunning : last.occupant? last.display.level = some 1 := by decide +kernel
  obtain ⟨-, ⟨serial, hserial, hmaps⟩, hsearches⟩ := function_tables_tell_logs settings () hgenuine
  have hsearch := hsearches "f"
  rw [show ofActions settings () actions = last from rfl] at hserial hmaps hsearch
  obtain rfl := Option.some.inj (hrunning.symm.trans hserial)
  rw [hlog] at hmaps
  have hlisted : last.display.functions = [other, new] := hmaps.listed.trans (by decide +kernel)
  refine ⟨hlog, hlisted, ?_, ?_, ?_⟩
  · rw [hmaps.undeclared]
    exact congrArg Except.ok (by decide +kernel)
  · rw [hmaps.taken, hlisted]
    decide +kernel
  · rw [hsearch.uncovered]
    decide +kernel

end Execution

end InterpreterCore

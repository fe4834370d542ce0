import InterpreterCore.Proofs.Execution.Basic

namespace InterpreterCore

/-- An open call with the frame that holds its activation. A display, and what its calls have put
    aside, are a view of the stack of these records. -/
structure Record where
  call : OpenCall
  frame : Frame

namespace Record

/-- The record whose frame is in place at a level: the innermost one of that level. -/
def at? (records : List Record) (level : Nat) : Option Record :=
  records.find? fun record => record.call.level == level

/-- What the calls of a stack of records have put aside. -/
def suspensions : List Record → List Suspension
  | [] => []
  | [_] => []
  | inner :: outer :: rest =>
    ⟨inner.call.level, (at? (outer :: rest) inner.call.level).map frame, outer.call.level⟩ ::
      suspensions (outer :: rest)

/-- The records after an edit of the frame in place at a level. -/
def editAt (level : Nat) (edit : Edit) : List Record → List Record
  | [] => []
  | record :: rest =>
    if record.call.level = level then { record with frame := record.frame.edit edit } :: rest
    else record :: editAt level edit rest

/-- The records of some open calls, by the frames in place and by what the calls have put aside: the
    frame of a call is the one that is in place at its level when all inner calls have returned. -/
def unwind (frames : Nat → Option Frame) : List OpenCall → List Suspension → List Record
  | [], _ => []
  | call :: calls, [] => (frames call.level).toList.map (⟨call, ·⟩) ++ unwind frames calls []
  | call :: calls, suspension :: suspended =>
    let returned level := if level = suspension.level then suspension.occupant else frames level
    (frames call.level).toList.map (⟨call, ·⟩) ++ unwind returned calls suspended

theorem at?_cons (record : Record) (rest : List Record) (level : Nat) :
    at? (record :: rest) level =
      if record.call.level = level then some record else at? rest level := by
  by_cases hlevel : record.call.level = level
  · simp [at?, hlevel]
  · simp [at?, hlevel]

theorem level_of_at? {records : List Record} {level : Nat} {record : Record}
    (hrecord : at? records level = some record) : record.call.level = level := by
  simpa using List.find?_some hrecord

theorem mem_of_at? {records : List Record} {level : Nat} {record : Record}
    (hrecord : at? records level = some record) : record ∈ records :=
  List.mem_of_find?_eq_some hrecord

theorem isSome_at?_of_mem {records : List Record} {record : Record} (hmem : record ∈ records) :
    (at? records record.call.level).isSome :=
  List.find?_isSome.mpr ⟨record, hmem, beq_self_eq_true _⟩

/-- The call in place at a level depends on the calls alone. -/
theorem map_call_at? (records : List Record) (level : Nat) :
    (at? records level).map call = OpenCall.at? (records.map call) level := by
  rw [OpenCall.at?, List.find?_map]
  rfl

@[simp]
theorem map_call_editAt (level : Nat) (edit : Edit) (records : List Record) :
    (editAt level edit records).map call = records.map call := by
  induction records with
  | nil => rfl
  | cons record rest ih =>
    rw [editAt]
    split
    · rfl
    · rw [List.map_cons, ih, List.map_cons]

theorem at?_editAt (level other : Nat) (edit : Edit) (records : List Record) :
    at? (editAt level edit records) other =
      if other = level then
        (at? records level).map fun record => { record with frame := record.frame.edit edit }
      else at? records other := by
  induction records with
  | nil => simp [editAt, at?]
  | cons record rest ih =>
    rw [editAt]
    by_cases hrecord : record.call.level = level
    · rw [if_pos hrecord, at?_cons, at?_cons, at?_cons, if_pos hrecord]
      by_cases hother : other = level
      · simp [hother, hrecord]
      · simp [hother, hrecord, Ne.symm hother]
    · rw [if_neg hrecord, at?_cons, at?_cons, at?_cons, ih, if_neg hrecord]
      by_cases hother : other = level
      · simp [hother, hrecord]
      · simp [hother]

/-- The frames that calls have put aside are out of reach: an edit does not change them. -/
theorem suspensions_editAt (level : Nat) (edit : Edit) (records : List Record) :
    suspensions (editAt level edit records) = suspensions records := by
  induction records with
  | nil => rfl
  | cons inner rest ih =>
    cases rest with
    | nil =>
      rw [editAt, editAt]
      split <;> rfl
    | cons outer rest =>
      rw [editAt]
      by_cases hinner : inner.call.level = level
      · rw [if_pos hinner, suspensions, suspensions]
      · have hframe : (at? (editAt level edit (outer :: rest)) inner.call.level) =
            at? (outer :: rest) inner.call.level := by
          rw [at?_editAt, if_neg hinner]
        have hcall : ∀ frame tail, editAt level edit (outer :: rest) = frame :: tail →
            frame.call = outer.call := by
          intro frame tail hcons
          have hmap := map_call_editAt level edit (outer :: rest)
          rw [hcons] at hmap
          exact (List.cons.inj hmap).1
        rw [if_neg hinner]
        cases hcons : editAt level edit (outer :: rest) with
        | nil =>
          have hmap := map_call_editAt level edit (outer :: rest)
          rw [hcons] at hmap
          cases hmap
        | cons frame tail =>
          rw [suspensions, suspensions, ← hcons, hframe, ih, hcall frame tail hcons]

/-- An edited record is one of the records, or the record in place at the level with its frame
    edited. -/
theorem mem_editAt {level : Nat} {edit : Edit} {records : List Record} {record : Record}
    (hmem : record ∈ editAt level edit records) :
    record ∈ records ∨ ∃ old, at? records level = some old ∧
      record = { old with frame := old.frame.edit edit } := by
  induction records with
  | nil => exact .inl hmem
  | cons first rest ih =>
    rw [editAt] at hmem
    by_cases hfirst : first.call.level = level
    · rw [if_pos hfirst] at hmem
      rw [at?_cons, if_pos hfirst]
      obtain rfl | hrest := List.mem_cons.mp hmem
      · exact .inr ⟨first, rfl, rfl⟩
      · exact .inl (List.mem_cons_of_mem _ hrest)
    · rw [if_neg hfirst] at hmem
      rw [at?_cons, if_neg hfirst]
      obtain rfl | hrest := List.mem_cons.mp hmem
      · exact .inl List.mem_cons_self
      · exact (ih hrest).imp_left (List.mem_cons_of_mem _)

/-- What the calls of a stack of records have put aside is enough to find the records again. -/
theorem unwind_suspensions {records : List Record} {frames : Nat → Option Frame}
    (hframes : ∀ level, frames level = (at? records level).map frame) :
    unwind frames (records.map call) (suspensions records) = records := by
  induction records generalizing frames with
  | nil => rfl
  | cons inner rest ih =>
    have hinner : frames inner.call.level = some inner.frame := by
      rw [hframes, at?_cons, if_pos rfl, Option.map_some]
    cases rest with
    | nil => simp [unwind, suspensions, hinner]
    | cons outer rest =>
      rw [suspensions, List.map_cons, unwind, hinner]
      refine congrArg (inner :: ·) (ih fun level => ?_)
      by_cases hlevel : level = inner.call.level
      · rw [if_pos hlevel, hlevel]
      · rw [if_neg hlevel, hframes, at?_cons inner, if_neg (Ne.symm hlevel)]

/-- The records after the edit that an operation makes, if it makes one. -/
def edited (records : List Record) : Option (Nat × Edit) → List Record
  | some (level, edit) => editAt level edit records
  | none => records

theorem mem_edited {records : List Record} {made : Option (Nat × Edit)} {record : Record}
    (hmem : record ∈ edited records made) :
    record ∈ records ∨ ∃ level edit old, made = some (level, edit) ∧
      at? records level = some old ∧ record = { old with frame := old.frame.edit edit } := by
  cases made with
  | none => exact .inl hmem
  | some made =>
    obtain hold | ⟨old, hat, hedited⟩ := mem_editAt hmem
    · exact .inl hold
    · exact .inr ⟨made.1, made.2, old, rfl, hat, hedited⟩

@[simp]
theorem map_call_edited (records : List Record) (made : Option (Nat × Edit)) :
    (edited records made).map call = records.map call := by
  cases made with
  | none => rfl
  | some made => exact map_call_editAt ..

end Record

namespace Execution

variable {σ α : Type}

/-- An execution is the view of a stack of records: the frames in place are those of the innermost
    record of each level, the current level is that of the innermost record, and every open call
    has put aside what its record hides. Each frame holds an activation of its own level. -/
structure Shows (execution : Execution σ) (records : List Record) : Prop where
  calls : execution.calls = records.map Record.call
  frames : ∀ level, execution.display.frame? level = (Record.at? records level).map Record.frame
  level : execution.calls.head?.map OpenCall.level = some execution.display.level
  suspended : execution.suspended = Record.suspensions records
  own : ∀ record ∈ records, record.frame.activation.level = record.call.level

/-- The record of a call that is being entered. -/
def entering (execution : Execution σ) (activation : Activation) : Record where
  call := ⟨execution.installs + 1, activation.level,
    (execution.definer? activation.function.name).map OpenCall.serial⟩
  frame := ⟨execution.display.nextStamp, activation⟩

theorem shows_start (settings : Display.Settings) (host : σ) :
    (start settings host).Shows [⟨.main, ⟨⟨0⟩, .ofFunction .main⟩⟩] where
  calls := rfl
  frames level := by
    cases level with
    | zero => rfl
    | succ level => rfl
  level := rfl
  suspended := rfl
  own := by
    intro record hrecord
    obtain rfl := List.mem_singleton.mp hrecord
    rfl

/-- The records of all open calls, innermost first, those of swapped-out activations included. -/
def records (execution : Execution σ) : List Record :=
  Record.unwind execution.display.frame? execution.calls execution.suspended

namespace Shows

variable {execution : Execution σ} {records : List Record}

theorem records_eq (hshows : execution.Shows records) : execution.records = records := by
  rw [Execution.records, hshows.calls, hshows.suspended]
  exact Record.unwind_suspensions hshows.frames

theorem holder?_eq (hshows : execution.Shows records) (level : Nat) :
    execution.holder? level = (Record.at? records level).map Record.call := by
  rw [holder?, hshows.calls, Record.map_call_at?]

theorem frame?_of_at? (hshows : execution.Shows records) {level : Nat} {record : Record}
    (hrecord : Record.at? records level = some record) :
    execution.display.frame? level = some record.frame := by
  rw [hshows.frames, hrecord, Option.map_some]

theorem at?_of_frame? (hshows : execution.Shows records) {level : Nat} {frame : Frame}
    (hframe : execution.display.frame? level = some frame) :
    ∃ record, Record.at? records level = some record ∧ record.frame = frame := by
  rw [hshows.frames] at hframe
  exact Option.map_eq_some_iff.mp hframe

/-- The innermost record is in place at the current level. -/
theorem current (hshows : execution.Shows records) :
    ∃ record rest, records = record :: rest ∧
      Record.at? records execution.display.level = some record := by
  have hlevel := hshows.level
  rw [hshows.calls] at hlevel
  cases records with
  | nil => cases hlevel
  | cons record rest =>
    refine ⟨record, rest, rfl, ?_⟩
    rw [Record.at?_cons, if_pos (Option.some.inj hlevel)]

/-- The running activation is in place at the current level. -/
theorem holder?_level (hshows : execution.Shows records) :
    execution.holder? execution.display.level = execution.calls.head? := by
  obtain ⟨record, rest, rfl, hrecord⟩ := hshows.current
  rw [hshows.holder?_eq, hrecord, hshows.calls]
  rfl

theorem level_eq {current : Record} {rest : List Record}
    (hshows : execution.Shows (current :: rest)) :
    current.call.level = execution.display.level := by
  simpa [hshows.calls] using hshows.level

/-- An operation leaves the records alone or edits the one in place at some level. -/
theorem editAt (hshows : execution.Shows records) {level : Nat} {edit : Edit}
    {after : Execution σ} (hdisplay : after.display = execution.display.editAt level edit)
    (hsuspended : after.suspended = execution.suspended) (hcalls : after.calls = execution.calls) :
    after.Shows (Record.editAt level edit records) where
  calls := by rw [hcalls, hshows.calls, Record.map_call_editAt]
  frames other := by
    rw [hdisplay, Display.frame?_editAt, Record.at?_editAt, hshows.frames, hshows.frames]
    split
    · cases Record.at? records level <;> rfl
    · rfl
  level := by
    rw [hcalls, hdisplay, Display.level_editAt, hshows.level]
  suspended := by rw [hsuspended, hshows.suspended, Record.suspensions_editAt]
  own := by
    intro record hrecord
    obtain hold | ⟨old, hat, rfl⟩ := Record.mem_editAt hrecord
    · exact hshows.own record hold
    · exact (Activation.level_apply edit _).trans (hshows.own old (Record.mem_of_at? hat))

/-- What the records show does not depend on the declarations outside all levels. -/
theorem of_same (hshows : execution.Shows records) {after : Execution σ}
    (hframes : after.display.frames = execution.display.frames)
    (hlevel : after.display.level = execution.display.level)
    (hsuspended : after.suspended = execution.suspended) (hcalls : after.calls = execution.calls) :
    after.Shows records where
  calls := hcalls.trans hshows.calls
  frames level := by rw [← hshows.frames, Display.frame?, hframes, Display.frame?]
  level := by rw [hcalls, hlevel, hshows.level]
  suspended := hsuspended.trans hshows.suspended
  own := hshows.own

/-- An accepted call pushes a record. -/
theorem enter (hshows : execution.Shows records) {activation : Activation}
    (past : List Edit) (hroom : activation.level < execution.display.levelLimit) :
    (execution.enter activation past).Shows (execution.entering activation :: records) := by
  rw [enter_of_room past hroom]
  obtain ⟨outer, rest, rfl, _⟩ := hshows.current
  refine ⟨?_, fun level => ?_, rfl, ?_, ?_⟩
  · rw [List.map_cons, hshows.calls]
    rfl
  · have hentering : (execution.entering activation).call.level = activation.level := rfl
    rw [← enter_of_room past hroom, display_enter past hroom, Display.frame?_install,
      Record.at?_cons (execution.entering activation), hentering]
    by_cases hlevel : level = activation.level
    · rw [if_pos hlevel, if_pos hlevel.symm]
      rfl
    · rw [if_neg hlevel, if_neg (Ne.symm hlevel), hshows.frames]
  · rw [Record.suspensions, hshows.level_eq, ← hshows.frames, ← hshows.suspended]
    rfl
  · intro record hrecord
    obtain rfl | hrest := List.mem_cons.mp hrecord
    · rfl
    · exact hshows.own record hrest

theorem display_leave {inner outer : Record} {rest : List Record}
    (hshows : execution.Shows (inner :: outer :: rest)) :
    execution.leave.display = execution.display.restore inner.call.level
      ((Record.at? (outer :: rest) inner.call.level).map Record.frame) outer.call.level := by
  rw [leave_of_cons hshows.suspended hshows.calls]

/-- The return of a call pops its record. -/
theorem leave {inner outer : Record} {rest : List Record}
    (hshows : execution.Shows (inner :: outer :: rest)) :
    execution.leave.Shows (outer :: rest) := by
  have hdisplay := hshows.display_leave
  rw [leave_of_cons hshows.suspended hshows.calls] at hdisplay ⊢
  refine ⟨rfl, fun level => ?_, rfl, rfl, fun record hrecord => ?_⟩
  · rw [hdisplay, Display.frame?_restore, hshows.frames]
    by_cases hlevel : level = inner.call.level
    · rw [if_pos hlevel, hlevel]
    · rw [if_neg hlevel, Record.at?_cons inner, if_neg (Ne.symm hlevel)]
  · exact hshows.own record (List.mem_cons_of_mem _ hrecord)

/-- The main function does not return. -/
theorem leave_main {record : Record} (hshows : execution.Shows [record]) :
    execution.leave = execution := by
  simp only [Execution.leave, hshows.suspended, Record.suspensions]

/-- An operation edits the record in place at some level, if it edits anything. -/
theorem perform (hshows : execution.Shows records) (operation : Operation α) :
    (execution.perform operation).Shows
      (Record.edited records (operation.edit? execution.display)) := by
  cases hedit : operation.edit? execution.display with
  | none =>
    obtain ⟨classes, interfaces, hafter⟩ := Operation.display_of_no_edit hedit
    have hdisplay : (execution.perform operation).display = _ := hafter
    exact hshows.of_same (by rw [hdisplay]) (by rw [hdisplay]) rfl rfl
  | some made => exact hshows.editAt (Operation.display_of_edit hedit) rfl rfl

end Shows

/-- What an action does to an execution and to its records: an operation edits at most one record,
    an accepted call pushes one, and a return pops one. A refused call does nothing, and neither
    does a return from the main function. -/
inductive Change (execution : Execution σ) :
    List Record → Action → Execution σ → List Record → Prop where
  | perform {records : List Record} {α : Type} (operation : Operation α) :
      Change execution records (.perform operation) (execution.perform operation)
        (Record.edited records (operation.edit? execution.display))
  | enter {records : List Record} {activation : Activation} (past : List Edit)
      (hroom : activation.level < execution.display.levelLimit) :
      Change execution records (.enter activation past) (execution.enter activation past)
        (execution.entering activation :: records)
  | leave {inner outer : Record} {rest : List Record} :
      Change execution (inner :: outer :: rest) .leave execution.leave (outer :: rest)
  | nothing {records : List Record} {action : Action} :
      Change execution records action execution records

theorem Shows.change {execution : Execution σ} {records : List Record}
    (hshows : execution.Shows records) (action : Action) :
    ∃ after, Change execution records action (execution.step action) after := by
  cases action with
  | perform operation => exact ⟨_, .perform operation⟩
  | enter activation past =>
    by_cases hroom : activation.level < execution.display.levelLimit
    · exact ⟨_, .enter past hroom⟩
    · rw [Execution.step, enter_of_refused past (Nat.le_of_not_lt hroom)]
      exact ⟨_, .nothing⟩
  | leave =>
    match records, hshows with
    | [], hshows => cases hshows.current.choose_spec.choose_spec.1
    | [record], hshows =>
      rw [Execution.step, hshows.leave_main]
      exact ⟨_, .nothing⟩
    | inner :: outer :: rest, _ => exact ⟨_, .leave⟩

theorem Shows.step {execution last : Execution σ} {records after : List Record} {action : Action}
    (hshows : execution.Shows records) (hchange : Change execution records action last after) :
    last.Shows after := by
  cases hchange with
  | perform operation => exact hshows.perform operation
  | enter past hroom => exact hshows.enter past hroom
  | leave => exact hshows.leave
  | nothing => exact hshows

end Execution

end InterpreterCore

import InterpreterCore.Proofs.Execution.Serial
import InterpreterCore.Proofs.Execution.Simulation

namespace InterpreterCore

/-- What the edit of the record in place at a level does to its slots, as events. -/
def Record.events (records : List Record) : Option (Nat × Edit) → List Event
  | none => []
  | some (level, edit) =>
    match at? records level with
    | some record => edit.events record.frame.activation record.call.serial
    | none => []

theorem Record.events_of_at? {records : List Record} {level : Nat} {record : Record}
    (hrecord : at? records level = some record) (edit : Edit) :
    events records (some (level, edit)) =
      edit.events record.frame.activation record.call.serial := by
  rw [events, hrecord]

/-- An event of an edit is about an activation that is in place at the level of the edit. -/
theorem Record.owner_of_mem_events {records : List Record} {made : Option (Nat × Edit)}
    {event : Event} (hevent : event ∈ events records made) :
    ∃ level record, at? records level = some record ∧ event.owner = record.call.serial := by
  cases made with
  | none => cases hevent
  | some made =>
    obtain ⟨level, edit⟩ := made
    cases hrecord : at? records level with
    | none =>
      rw [events, hrecord] at hevent
      cases hevent
    | some record =>
      rw [events_of_at? hrecord] at hevent
      exact ⟨level, record, hrecord, Edit.owner_of_mem_events hevent⟩

namespace Execution

variable {σ α : Type}

namespace Shows

variable {execution : Execution σ} {records : List Record}

theorem noteAt_eq (hshows : execution.Shows records) {level : Nat} {record : Record}
    (hrecord : Record.at? records level = some record) (event : Nat → Event) :
    execution.noteAt level event = [event record.call.serial] := by
  rw [noteAt, hshows.holder?_eq, hrecord]
  rfl

theorem noted_define (hshows : execution.Shows records) (name : String) :
    execution.noted (.define name) =
      Record.events records ((Operation.define name).edit? execution.display) := by
  obtain ⟨record, rest, rfl, hrecord⟩ := hshows.current
  rw [Operation.edit?, Record.events_of_at? hrecord, noted, Edit.events,
    Display.answer_define name (hshows.frame?_of_at? hrecord), Activation.answer_define]
  by_cases hrefused : execution.display.redefinition = .reject ∧
      (record.frame.activation.slotOf? name).isSome
  · rw [if_pos hrefused, if_pos hrefused]
    rfl
  · rw [if_neg hrefused, if_neg hrefused]
    exact hshows.noteAt_eq hrecord _

theorem noted_remove (hshows : execution.Shows records) (name : String) :
    execution.noted (.remove name) =
      Record.events records ((Operation.remove name).edit? execution.display) := by
  obtain ⟨record, rest, rfl, hrecord⟩ := hshows.current
  have hframe := hshows.frame?_of_at? hrecord
  rw [Operation.edit?, Record.events_of_at? hrecord, noted, Edit.events,
    Display.answer_remove name hframe, Display.activation?, hframe, Option.map_some,
    Option.bind_some]
  cases record.frame.activation.slotOf? name with
  | none => rfl
  | some slot => exact hshows.noteAt_eq hrecord _

theorem noteStored_eq (hshows : execution.Shows records) {reference : Reference} {record : Record}
    (hrecord : Record.at? records reference.depth = some record)
    (hissuer : execution.display.issuer reference = .ok record.frame) (value : Value) :
    execution.noteStored reference value
        ((Display.store reference value).answer execution.display) =
      (Edit.store reference.slot value).events record.frame.activation record.call.serial := by
  rw [Edit.events, Display.answer_store value hissuer, Activation.answer_store]
  by_cases hslot : reference.slot < record.frame.activation.slots.size
  · rw [if_pos hslot, if_pos hslot]
    exact hshows.noteAt_eq hrecord (.stored · reference.slot value)
  · rw [if_neg hslot, if_neg hslot]
    rfl

theorem noted_store (hshows : execution.Shows records) (reference : Reference) (value : Value) :
    execution.noted (.store reference value) =
      Record.events records ((Operation.store reference value).edit? execution.display) := by
  show execution.noteStored reference value _ = _
  cases hissuer : execution.display.issuer reference with
  | error fault =>
    rw [Operation.edit?, hissuer, Update.answer, Display.store_of_issuer_error value hissuer]
    rfl
  | ok frame =>
    obtain ⟨record, hrecord, rfl⟩ := hshows.at?_of_frame? (Display.frame?_of_issuer hissuer).1
    rw [Operation.edit?, hissuer, Record.events_of_at? hrecord]
    exact hshows.noteStored_eq hrecord hissuer value

/-- An assignment that is not refused for a constant is noted as storing is. -/
theorem noted_assign (hshows : execution.Shows records) (reference : Reference) (value : Value) :
    execution.noted (.assign reference value) =
      Record.events records ((Operation.assign reference value).edit? execution.display) := by
  show execution.noteStored reference value _ = _
  cases hissuer : execution.display.issuer reference with
  | error fault =>
    rw [Operation.edit?, hissuer, Update.answer, Display.assign_of_issuer_error value hissuer]
    rfl
  | ok frame =>
    obtain ⟨record, hrecord, rfl⟩ := hshows.at?_of_frame? (Display.frame?_of_issuer hissuer).1
    rw [Operation.edit?, hissuer]
    dsimp only
    cases hconstant : record.frame.activation.holdsConstant reference.slot with
    | true =>
      obtain ⟨name, _, hrefused⟩ := Display.assign_of_constant value hissuer hconstant
      rw [Update.answer, hrefused]
      rfl
    | false =>
      have hsame := Display.assign_of_not_constant value hissuer hconstant
      rw [Update.answer, hsame, if_neg Bool.false_ne_true, Record.events_of_at? hrecord]
      exact hshows.noteStored_eq hrecord hissuer value

/-- What is noted of an operation is what its edit does to the record that it edits. -/
theorem noted_eq (hshows : execution.Shows records) (operation : Operation α) :
    execution.noted operation =
      Record.events records (operation.edit? execution.display) := by
  have hdeclared : ∀ policy decl,
      Record.events records (some (execution.display.level, .declare policy decl)) = [] := by
    intro policy decl
    obtain ⟨record, rest, rfl, hrecord⟩ := hshows.current
    rw [Record.events_of_at? hrecord, Edit.events]
  cases operation with
  | define name => exact hshows.noted_define name
  | remove name => exact hshows.noted_remove name
  | store reference value => exact hshows.noted_store reference value
  | assign reference value => exact hshows.noted_assign reference value
  | declare decl => exact (hdeclared _ decl).symm
  | declareInner name parameters =>
    rw [Operation.edit?]
    split
    · exact (hdeclared _ _).symm
    · rfl
  | undeclare name =>
    obtain ⟨record, rest, rfl, hrecord⟩ := hshows.current
    rw [Operation.edit?, Record.events_of_at? hrecord, Edit.events]
    rfl
  | ask query => rfl
  | declareClass decl => rfl
  | declareInterface decl => rfl
  | allocate className => rfl
  | setField o name value => rfl

end Shows

/-- Runs in which every activation that is called has been built, with the past that the ledger is
    told. -/
def Genuine (_ : Execution σ) : Action → Prop
  | .enter activation past => activation.Built past
  | _ => True

theorem machineRule_genuine : MachineRule (Genuine : Execution σ → Action → Prop) where
  onMachine {_ action} hgenuine _ _ := by cases action <;> exact hgenuine
  returns _ := trivial

/-- The ledger tells the slots of all open activations and none that have not been made, visible
    names stand for slots, and calls that have returned are not open. -/
structure Accounted (execution : Execution σ) (records : List Record) : Prop where
  shows : execution.Shows records
  numbered : execution.Numbered records
  slots : ∀ record ∈ records, ∀ slot,
    record.frame.activation.slots[slot]? = recorded execution.ledger record.call.serial slot
  names : ∀ record ∈ records, record.frame.activation.NamesSlots
  unmade : ∀ serial, execution.installs < serial →
    ∀ slot, recorded execution.ledger serial slot = none
  returned : ∀ serial ∈ execution.returned,
    serial ≤ execution.installs ∧ ∀ record ∈ records, record.call.serial ≠ serial

theorem accounted_start (settings : Display.Settings) (host : σ) :
    (start settings host).Accounted [⟨.main, ⟨⟨0⟩, .ofFunction .main⟩⟩] where
  shows := shows_start settings host
  numbered := numbered_start settings host
  slots := by
    intro record hrecord slot
    obtain rfl := List.mem_singleton.mp hrecord
    rfl
  names := by
    intro record hrecord
    obtain rfl := List.mem_singleton.mp hrecord
    exact Activation.namesSlots_ofFunction .main
  unmade := fun _ _ _ => rfl
  returned := fun _ hserial => absurd hserial List.not_mem_nil

/-- Of the records after an edit, one has been edited, and all others have other numbers. -/
theorem mem_editAt_of_descending {records : List Record}
    (hdescending : OpenCall.Descending (records.map Record.call)) {level : Nat} {edit : Edit}
    {target record : Record} (htarget : Record.at? records level = some target)
    (hmem : record ∈ Record.editAt level edit records) :
    record = { target with frame := target.frame.edit edit } ∨
      record ∈ records ∧ target.call.serial ≠ record.call.serial := by
  induction records with
  | nil => cases htarget
  | cons first rest ih =>
    obtain ⟨hfirst, hrest⟩ := List.pairwise_cons.mp hdescending
    rw [Record.at?_cons] at htarget
    rw [Record.editAt] at hmem
    by_cases hlevel : first.call.level = level
    · rw [if_pos hlevel] at hmem htarget
      obtain rfl := Option.some.inj htarget
      obtain hedited | hold := List.mem_cons.mp hmem
      · exact .inl hedited
      · exact .inr ⟨List.mem_cons_of_mem _ hold,
          Nat.ne_of_gt (hfirst _ (List.mem_map_of_mem hold))⟩
    · rw [if_neg hlevel] at hmem htarget
      obtain rfl | hold := List.mem_cons.mp hmem
      · exact .inr ⟨List.mem_cons_self,
          Nat.ne_of_lt (hfirst _ (List.mem_map_of_mem (Record.mem_of_at? htarget)))⟩
      · obtain hedited | ⟨hkept, hother⟩ := ih hrest htarget hold
        · exact .inl hedited
        · exact .inr ⟨List.mem_cons_of_mem _ hkept, hother⟩

namespace Accounted

variable {execution : Execution σ} {records : List Record}

theorem slots_editAt (haccounted : execution.Accounted records) {level : Nat} {edit : Edit}
    {record : Record} (hmem : record ∈ Record.editAt level edit records) (slot : Nat) :
    record.frame.activation.slots[slot]? =
      recorded (Record.events records (some (level, edit)) ++ execution.ledger)
        record.call.serial slot := by
  cases htarget : Record.at? records level with
  | none =>
    obtain hold | ⟨target, hsome, _⟩ := Record.mem_editAt hmem
    · rw [Record.events, htarget]
      exact haccounted.slots record hold slot
    · rw [htarget] at hsome
      cases hsome
  | some target =>
    rw [Record.events_of_at? htarget]
    obtain rfl | ⟨hold, hother⟩ :=
      mem_editAt_of_descending haccounted.numbered.descending htarget hmem
    · exact Edit.recorded_events (haccounted.slots target (Record.mem_of_at? htarget)) edit slot
    · rw [recorded_append_of_ne fun event hevent => Edit.owner_of_mem_events hevent ▸ hother]
      exact haccounted.slots record hold slot

theorem perform (haccounted : execution.Accounted records) (operation : Operation α) :
    (execution.perform operation).Accounted
      (Record.edited records (operation.edit? execution.display)) where
  shows := haccounted.shows.perform operation
  numbered := haccounted.numbered.perform operation
  slots := by
    rw [ledger_perform, haccounted.shows.noted_eq]
    cases operation.edit? execution.display with
    | none => exact haccounted.slots
    | some made => exact fun record hrecord => haccounted.slots_editAt hrecord
  names := by
    intro record hrecord
    obtain hold | ⟨_, edit, old, _, hat, rfl⟩ := Record.mem_edited hrecord
    · exact haccounted.names record hold
    · exact (haccounted.names old (Record.mem_of_at? hat)).apply edit
  unmade := by
    intro serial hserial slot
    rw [ledger_perform, haccounted.shows.noted_eq, recorded_append_of_ne]
    · exact haccounted.unmade serial hserial slot
    · intro event hevent
      obtain ⟨level, record, hat, howner⟩ := Record.owner_of_mem_events hevent
      have hbound :=
        haccounted.numbered.bounded _ (List.mem_map_of_mem (Record.mem_of_at? hat))
      rw [howner]
      exact Nat.ne_of_lt (Nat.lt_of_le_of_lt hbound hserial)
  returned := by
    intro serial hserial
    obtain ⟨hbound, hnone⟩ := haccounted.returned serial hserial
    refine ⟨hbound, fun record hrecord => ?_⟩
    have hcall := List.mem_map_of_mem (f := Record.call) hrecord
    rw [Record.map_call_edited] at hcall
    obtain ⟨old, hold, hsame⟩ := List.mem_map.mp hcall
    exact hsame ▸ hnone old hold

theorem enter (haccounted : execution.Accounted records) {activation : Activation}
    {past : List Edit} (hbuilt : activation.Built past)
    (hroom : activation.level < execution.display.levelLimit) :
    (execution.enter activation past).Accounted (execution.entering activation :: records) := by
  have hother : ∀ serial ≠ execution.installs + 1, ∀ event ∈
      Edit.account activation.function (execution.installs + 1) past, event.owner ≠ serial :=
    fun serial hserial event hevent => Edit.owner_of_mem_account hevent ▸ hserial.symm
  have hfresh := haccounted.unmade (execution.installs + 1) (Nat.lt_succ_self _)
  have hshows := haccounted.shows.enter past hroom
  have hnumbered := haccounted.numbered.enter past hroom
  rw [enter_of_room past hroom] at hshows hnumbered ⊢
  refine ⟨hshows, hnumbered, ?_, ?_, ?_, ?_⟩
  · intro record hrecord slot
    obtain rfl | hold := List.mem_cons.mp hrecord
    · refine Eq.trans ?_ (Edit.recorded_account activation.function past hfresh slot)
      rw [← hbuilt.eq_edited]
      rfl
    · have hbound := haccounted.numbered.bounded _ (List.mem_map_of_mem hold)
      rw [haccounted.slots record hold,
        recorded_append_of_ne (hother record.call.serial (by omega))]
  · intro record hrecord
    obtain rfl | hold := List.mem_cons.mp hrecord
    · exact hbuilt.namesSlots
    · exact haccounted.names record hold
  · intro serial hserial slot
    have hlater : execution.installs + 1 < serial := hserial
    rw [recorded_append_of_ne (hother serial (by omega))]
    exact haccounted.unmade serial (by omega) slot
  · intro serial hserial
    obtain ⟨hbound, hnone⟩ := haccounted.returned serial hserial
    refine ⟨Nat.le_succ_of_le hbound, fun record hrecord => ?_⟩
    obtain rfl | hold := List.mem_cons.mp hrecord
    · exact Nat.ne_of_gt (Nat.lt_succ_of_le hbound)
    · exact hnone record hold

theorem tail {inner outer : Record} {rest : List Record}
    (haccounted : execution.Accounted (inner :: outer :: rest)) :
    execution.leave.Accounted (outer :: rest) := by
  obtain ⟨hnewest, _⟩ := List.pairwise_cons.mp haccounted.numbered.descending
  have hshows := haccounted.shows.leave
  rw [leave_of_cons haccounted.shows.suspended haccounted.shows.calls] at hshows ⊢
  refine ⟨hshows, haccounted.numbered.tail rfl rfl,
    fun record hrecord => haccounted.slots record (List.mem_cons_of_mem _ hrecord),
    fun record hrecord => haccounted.names record (List.mem_cons_of_mem _ hrecord),
    haccounted.unmade, fun serial hserial => ?_⟩
  obtain rfl | hserial := List.mem_cons.mp hserial
  · refine ⟨haccounted.numbered.bounded _ List.mem_cons_self, fun record hrecord => ?_⟩
    exact Nat.ne_of_lt (hnewest _ (List.mem_map_of_mem hrecord))
  · obtain ⟨hbound, hnone⟩ := haccounted.returned serial hserial
    exact ⟨hbound, fun record hrecord => hnone record (List.mem_cons_of_mem _ hrecord)⟩

theorem step {last : Execution σ} {after : List Record} {action : Action}
    (haccounted : execution.Accounted records) (hgenuine : execution.Genuine action)
    (hchange : Change execution records action last after) : last.Accounted after := by
  cases hchange with
  | perform operation => exact haccounted.perform operation
  | enter past hroom => exact haccounted.enter hgenuine hroom
  | leave => exact haccounted.tail
  | nothing => exact haccounted

end Accounted

/-- In every reachable execution the ledger tells the slots of all open activations. -/
theorem Reaches.accounted {settings : Display.Settings} {host : σ} {execution : Execution σ}
    (hreaches : Reaches Genuine (start settings host) execution) :
    ∃ records, execution.Accounted records := by
  induction hreaches with
  | refl => exact ⟨_, accounted_start settings host⟩
  | step _ action hgenuine ih =>
    obtain ⟨records, haccounted⟩ := ih
    obtain ⟨after, hchange⟩ := haccounted.shows.change action
    exact ⟨after, haccounted.step hgenuine hchange⟩

/-- On every machine that a program meets, in whatever calls, a ledger tells the slots of all open
    activations, as long as the program calls none but those that have been built. -/
theorem exists_accounted_of_meets {settings : Display.Settings} {host : σ} {program : Program}
    {met : Machine σ} (hkeeps : program.Keeps Genuine (start settings host).machine)
    (hmeets : program.Meets (start settings host).machine met) :
    ∃ execution records, Reaches Genuine (start settings host) execution ∧
      execution.machine = met ∧ execution.Accounted records := by
  obtain ⟨execution, hreaches, hmachine⟩ :=
    exists_reaches_of_meets machineRule_genuine.returns hkeeps hmeets
  obtain ⟨records, haccounted⟩ := hreaches.accounted
  exact ⟨execution, records, hreaches, hmachine, haccounted⟩

end Execution

end InterpreterCore

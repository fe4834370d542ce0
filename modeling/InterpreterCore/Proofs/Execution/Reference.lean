import InterpreterCore.Proofs.Display.Search
import InterpreterCore.Proofs.Execution.Account

namespace InterpreterCore

/-- What a slot answers when it is read. -/
def Slot.read (slot : Slot) : Outcome Value :=
  match slot.content with
  | some value => .ok value
  | none => .error (.uninitializedVariable slot.name)

theorem Activation.value_eq_read {activation : Activation} {slot : Nat} {stored : Slot}
    (hslot : activation.slots[slot]? = some stored) : activation.value slot = stored.read := by
  rw [value, hslot, Slot.read]
  obtain ⟨name, content⟩ := stored
  cases content <;> rfl

/-- A reference is stale on a display: what is tried through it fails and changes nothing. -/
structure Display.StaleAt (display : Display) (reference : Reference) : Prop where
  get : display.get reference = .error (.staleReference reference.depth)
  store : ∀ value, Display.store reference value display =
    .error (.staleReference reference.depth) display
  assign : ∀ value, Display.assign reference value display =
    .error (.staleReference reference.depth) display

theorem Display.staleAt_of_stamps {display : Display} {reference : Reference}
    (hstamps : ∀ frame, display.frame? reference.depth = some frame →
      frame.stamp ≠ reference.stamp) : display.StaleAt reference := by
  have hissuer := issuer_of_stale hstamps
  exact ⟨get_of_issuer_error hissuer, fun value => store_of_issuer_error value hissuer,
    fun value => assign_of_issuer_error value hissuer⟩

namespace Execution

variable {σ : Type}

/-- The number of the activation in place at a level. -/
def occupant? (execution : Execution σ) (level : Nat) : Option Nat :=
  (execution.holder? level).map OpenCall.serial

theorem Shows.occupant?_eq {execution : Execution σ} {records : List Record}
    (hshows : execution.Shows records) {level : Nat} {record : Record}
    (hrecord : Record.at? records level = some record) :
    execution.occupant? level = some record.call.serial := by
  rw [occupant?, hshows.holder?_eq, hrecord]
  rfl

theorem Shows.exists_record_of_occupant {execution : Execution σ} {records : List Record}
    (hshows : execution.Shows records) {level serial : Nat}
    (hplace : execution.occupant? level = some serial) :
    ∃ record, Record.at? records level = some record ∧ record.call.serial = serial := by
  rw [occupant?, hshows.holder?_eq, Option.map_map] at hplace
  exact Option.map_eq_some_iff.mp hplace

/-- The action hands out a reference. -/
inductive Issues (execution : Execution σ) (reference : Reference) : Action → Prop where
  | define {name : String}
      (hanswer : (Display.define name).answer execution.display = .ok reference) :
      Issues execution reference (.perform (.define name))
  | resolve {name : String} (hfound : execution.display.resolve? name = some reference) :
      Issues execution reference (.perform (.ask (.resolve name)))

/-- A reference leads to its slot of an activation: reading answers what the ledger says was last
    stored there, and storing succeeds and changes nothing but that slot. -/
structure LeadsTo (execution : Execution σ) (reference : Reference) (serial : Nat) : Prop where
  get : ∃ slot, recorded execution.ledger serial reference.slot = some slot ∧
    execution.display.get reference = slot.read
  store : ∃ frame, execution.display.frame? reference.depth = some frame ∧
    reference.slot < frame.activation.slots.size ∧
    ∀ value, Display.store reference value execution.display =
      .ok () (execution.display.withFrame reference.depth (some { frame with
        activation := frame.activation.withContent reference.slot (some value) }))

/-- A reference and the activation for which it was issued, in place or not. -/
structure IssuedFor (execution : Execution σ) (reference : Reference) (serial : Nat) : Prop where
  made : (recorded execution.ledger serial reference.slot).isSome
  stamp : reference.stamp = .ofSerial serial
  known : serial ≤ execution.installs
  level : ∀ call ∈ execution.calls, call.serial = serial → call.level = reference.depth

/-- Nothing that happens later changes for which activation a reference was issued. -/
theorem IssuedFor.step {execution last : Execution σ} {records after : List Record}
    {reference : Reference} {serial : Nat} {action : Action}
    (hissued : execution.IssuedFor reference serial) (hshows : execution.Shows records)
    (hchange : Change execution records action last after) :
    last.IssuedFor reference serial := by
  cases hchange with
  | perform operation =>
    exact ⟨isSome_recorded_append _ _ hissued.made, hissued.stamp, hissued.known, hissued.level⟩
  | enter past hroom =>
    rw [enter_of_room past hroom]
    refine ⟨isSome_recorded_append _ _ hissued.made, hissued.stamp,
      Nat.le_succ_of_le hissued.known, fun call hcall hserial => ?_⟩
    obtain rfl | hold := List.mem_cons.mp hcall
    · have hknown := hissued.known
      have hnew : execution.installs + 1 = serial := hserial
      omega
    · exact hissued.level call hold hserial
  | leave =>
    rw [leave_of_cons hshows.suspended hshows.calls]
    refine ⟨hissued.made, hissued.stamp, hissued.known, fun call hcall hserial => ?_⟩
    exact hissued.level call (hshows.calls ▸ List.mem_cons_of_mem _ hcall) hserial
  | nothing => exact hissued

namespace Accounted

variable {execution : Execution σ} {records : List Record} {reference : Reference} {serial : Nat}

/-- The activation of a record that is in place gets references for the slots that it has. -/
theorem issuedFor (haccounted : execution.Accounted records) {record : Record}
    (hrecord : Record.at? records reference.depth = some record)
    (hserial : record.call.serial = serial) (hstamp : record.frame.stamp = reference.stamp)
    (hslot : reference.slot < record.frame.activation.slots.size) :
    execution.IssuedFor reference serial := by
  subst hserial
  have hmem := Record.mem_of_at? hrecord
  have hcall := List.mem_map_of_mem (f := Record.call) hmem
  refine ⟨?_, hstamp ▸ haccounted.numbered.stamped record hmem,
    haccounted.numbered.bounded _ hcall, fun call hopen hserial => ?_⟩
  · rw [← haccounted.slots record hmem, Array.getElem?_eq_getElem hslot]
    rfl
  · rw [haccounted.shows.calls] at hopen
    rw [haccounted.numbered.call_unique hopen hcall hserial, Record.level_of_at? hrecord]

theorem occupant?_eq (haccounted : execution.Accounted records) {level : Nat} {record : Record}
    (hrecord : Record.at? records level = some record) :
    execution.occupant? level = some record.call.serial :=
  haccounted.shows.occupant?_eq hrecord

theorem exists_record_of_occupant (haccounted : execution.Accounted records) {level : Nat}
    (hplace : execution.occupant? level = some serial) :
    ∃ record, Record.at? records level = some record ∧ record.call.serial = serial :=
  haccounted.shows.exists_record_of_occupant hplace

theorem issues_define (haccounted : execution.Accounted records) {name : String}
    (hanswer : (Display.define name).answer execution.display = .ok reference) :
    ∃ serial, execution.occupant? reference.depth = some serial ∧
      (execution.perform (.define name)).IssuedFor reference serial := by
  obtain ⟨record, rest, rfl, hrecord⟩ := haccounted.shows.current
  rw [Display.answer_define name (haccounted.shows.frame?_of_at? hrecord),
    Activation.answer_define] at hanswer
  by_cases hrefused : execution.display.redefinition = .reject ∧
      (record.frame.activation.slotOf? name).isSome
  · rw [if_pos hrefused] at hanswer
    cases hanswer
  · rw [if_neg hrefused] at hanswer
    cases hanswer
    have hafter := haccounted.perform (.define name)
    have hedited := Record.at?_editAt execution.display.level execution.display.level
      (.define execution.display.redefinition name) (record :: rest)
    rw [if_pos rfl, hrecord, Option.map_some] at hedited
    have hgrown : record.frame.activation.slots.size <
        ((Activation.define execution.display.redefinition name).after
          record.frame.activation).slots.size := by
      rw [Activation.after_define, if_neg hrefused, Activation.withVariable, Array.size_push]
      exact Nat.lt_succ_self _
    exact ⟨record.call.serial, haccounted.occupant?_eq hrecord,
      hafter.issuedFor hedited rfl rfl hgrown⟩

theorem issues_resolve (haccounted : execution.Accounted records) {name : String}
    (hfound : execution.display.resolve? name = some reference) :
    ∃ serial, execution.occupant? reference.depth = some serial ∧
      (execution.perform (.ask (.resolve name))).IssuedFor reference serial := by
  obtain ⟨_, frame, hframe, hstamp, hslot⟩ := Display.exists_frame_of_resolve hfound
  obtain ⟨record, hrecord, rfl⟩ := haccounted.shows.at?_of_frame? hframe
  have hbound := haccounted.names record (Record.mem_of_at? hrecord) name _ hslot
  have hafter := haccounted.perform (.ask (.resolve name))
  exact ⟨record.call.serial, haccounted.occupant?_eq hrecord,
    hafter.issuedFor hrecord rfl hstamp hbound⟩

/-- Whoever hands out a reference, it is issued for the activation in place at its level. -/
theorem issues (haccounted : execution.Accounted records) {action : Action}
    (hissues : execution.Issues reference action) :
    ∃ serial, execution.occupant? reference.depth = some serial ∧
      (execution.step action).IssuedFor reference serial := by
  cases hissues with
  | define hanswer => exact haccounted.issues_define hanswer
  | resolve hfound => exact haccounted.issues_resolve hfound

/-- While its activation is in place, a reference leads to its slot. -/
theorem leadsTo (haccounted : execution.Accounted records)
    (hissued : execution.IssuedFor reference serial)
    (hplace : execution.occupant? reference.depth = some serial) :
    execution.LeadsTo reference serial := by
  obtain ⟨record, hrecord, rfl⟩ := haccounted.exists_record_of_occupant hplace
  have hmem := Record.mem_of_at? hrecord
  have hframe := haccounted.shows.frame?_of_at? hrecord
  have hissuer := Display.issuer_of_frame? hframe
    ((haccounted.numbered.stamped record hmem).trans hissued.stamp.symm)
  obtain ⟨slot, hslot⟩ := Option.isSome_iff_exists.mp hissued.made
  have hstored := (haccounted.slots record hmem reference.slot).trans hslot
  obtain ⟨hbound, _⟩ := Array.getElem?_eq_some_iff.mp hstored
  refine ⟨⟨slot, hslot, ?_⟩, record.frame, hframe, hbound, fun value => ?_⟩
  · rw [Display.get_of_issuer hissuer, Activation.value_eq_read hstored]
  · exact Display.store_of_issuer value hissuer hbound

/-- While its activation is not in place, a reference is stale, as long as marks do not repeat. -/
theorem staleAt (haccounted : execution.Accounted records)
    (hissued : execution.IssuedFor reference serial)
    (hplace : execution.occupant? reference.depth ≠ some serial)
    (hinstalls : execution.installs < UInt64.size) : execution.display.StaleAt reference := by
  apply Display.staleAt_of_stamps
  intro frame hframe hstamp
  obtain ⟨record, hrecord, rfl⟩ := haccounted.shows.at?_of_frame? hframe
  have hmem := Record.mem_of_at? hrecord
  have hbound := haccounted.numbered.bounded _ (List.mem_map_of_mem hmem)
  have hknown := hissued.known
  rw [haccounted.numbered.stamped record hmem, hissued.stamp] at hstamp
  have hserial := Stamp.ofSerial_inj (by omega) (by omega) hstamp
  exact hplace (hserial ▸ haccounted.occupant?_eq hrecord)

/-- Nothing happens to the slots of an activation that is not in place. -/
theorem recorded_of_swapped {last : Execution σ} {after : List Record} {action : Action}
    (haccounted : execution.Accounted records)
    (hissued : execution.IssuedFor reference serial)
    (hplace : execution.occupant? reference.depth ≠ some serial)
    (hchange : Change execution records action last after) (slot : Nat) :
    recorded last.ledger serial slot = recorded execution.ledger serial slot := by
  cases hchange with
  | perform operation =>
    rw [ledger_perform, haccounted.shows.noted_eq, recorded_append_of_ne]
    intro event hevent hsame
    obtain ⟨level, record, hrecord, howner⟩ := Record.owner_of_mem_events hevent
    have hserial : record.call.serial = serial := howner.symm.trans hsame
    have hcall : record.call ∈ execution.calls :=
      haccounted.shows.calls ▸ List.mem_map_of_mem (Record.mem_of_at? hrecord)
    have hlevel := hissued.level _ hcall hserial
    rw [Record.level_of_at? hrecord] at hlevel
    exact hplace (hserial ▸ hlevel ▸ haccounted.occupant?_eq hrecord)
  | enter past hroom =>
    have hknown := hissued.known
    rw [enter_of_room past hroom, recorded_append_of_ne]
    intro event hevent
    rw [Edit.owner_of_mem_account hevent]
    omega
  | leave => rw [leave_of_cons haccounted.shows.suspended haccounted.shows.calls]
  | nothing => rfl

end Accounted

/-- For which activation a reference was issued holds for the rest of the run. -/
theorem Reaches.issuedFor {first last : Execution σ} {records : List Record}
    {reference : Reference} {serial : Nat} (hlater : Reaches Genuine first last)
    (haccounted : first.Accounted records) (hissued : first.IssuedFor reference serial) :
    ∃ records, last.Accounted records ∧ last.IssuedFor reference serial := by
  induction hlater with
  | refl => exact ⟨records, haccounted, hissued⟩
  | step _ action hgenuine ih =>
    obtain ⟨records, haccounted, hissued⟩ := ih
    obtain ⟨after, hchange⟩ := haccounted.shows.change action
    exact ⟨after, haccounted.step hgenuine hchange, hissued.step haccounted.shows hchange⟩

/-- A reference is a handle of one installed activation, told by its number. Take any run, of any
    length and nesting, with fewer installations than there are marks, and a reference that is
    handed out in it. At every later point, if its activation is in place, the reference leads to
    the value last stored in its slot, before or during the call; if not, it is stale, and what the
    ledger says of the activation does not change until it is in place again. After the call has
    returned, the activation is never in place again. -/
theorem reference_sound (settings : Display.Settings) (host : σ) {issuing later : Execution σ}
    {reference : Reference} {action : Action}
    (hreaches : Reaches Genuine (start settings host) issuing)
    (hissues : issuing.Issues reference action)
    (hlater : Reaches Genuine (issuing.step action) later)
    (hinstalls : later.installs < UInt64.size) :
    ∃ serial, issuing.occupant? reference.depth = some serial ∧
      (later.occupant? reference.depth = some serial → later.LeadsTo reference serial) ∧
      (later.occupant? reference.depth ≠ some serial →
        later.display.StaleAt reference ∧
          ∀ next slot, recorded (later.step next).ledger serial slot =
            recorded later.ledger serial slot) ∧
      (serial ∈ later.returned → later.occupant? reference.depth ≠ some serial) := by
  obtain ⟨records, haccounted⟩ := hreaches.accounted
  obtain ⟨serial, hplace, hissued⟩ := haccounted.issues hissues
  have hgenuine : issuing.Genuine action := by cases hissues <;> trivial
  obtain ⟨after, hchange⟩ := haccounted.shows.change action
  have hlast := hlater.issuedFor (haccounted.step hgenuine hchange) hissued
  obtain ⟨records, haccounted, hissued⟩ := hlast
  refine ⟨serial, hplace, haccounted.leadsTo hissued, fun haway => ⟨?_, fun next slot => ?_⟩, ?_⟩
  · exact haccounted.staleAt hissued haway hinstalls
  · obtain ⟨after, hchange⟩ := haccounted.shows.change next
    exact haccounted.recorded_of_swapped hissued haway hchange slot
  · intro hreturned hplaced
    obtain ⟨record, hrecord, hserial⟩ := haccounted.exists_record_of_occupant hplaced
    exact (haccounted.returned serial hreturned).2 record (Record.mem_of_at? hrecord) hserial

/-- A reference to a variable of the main function is stale while another activation runs at level
    zero, and leads to the stored constant again when that has returned. -/
theorem reference_over_swap :
    let reference : Reference := ⟨0, 0, ⟨0⟩⟩
    let constant : Value := ⟨.boolean true, true⟩
    let other : Activation := .ofFunction ⟨"other", 0, []⟩
    let swapped := [Action.perform (.define "x"), .perform (.store reference constant),
      .enter other []].foldl step (start {} ())
    swapped.display.StaleAt reference ∧ swapped.leave.LeadsTo reference 0 ∧
      swapped.leave.display.get reference = .ok constant := by
  intro reference constant other swapped
  have hissues : (start {} ()).Issues reference (.perform (.define "x")) := .define rfl
  have hother : other.Built [] := ⟨other, rfl, rfl⟩
  have hswapped : Reaches Genuine ((start {} ()).step (.perform (.define "x"))) swapped :=
    ((Reaches.refl _).step (.perform (.store reference constant)) trivial).step
      (.enter other []) hother
  have hback : Reaches Genuine ((start {} ()).step (.perform (.define "x"))) swapped.leave :=
    hswapped.step .leave trivial
  obtain ⟨serial, hserial, _, haway, _⟩ :=
    reference_sound {} () (.refl _) hissues hswapped (by decide)
  obtain ⟨_, hsame, hplace, _⟩ := reference_sound {} () (.refl _) hissues hback (by decide)
  obtain rfl : serial = 0 := Option.some.inj (hserial.symm.trans (by decide))
  obtain rfl := Option.some.inj (hsame.symm.trans hserial)
  have hleads := hplace (by decide)
  obtain ⟨slot, hslot, hget⟩ := hleads.get
  have hstored : recorded swapped.leave.ledger 0 0 = some ⟨"x", some constant⟩ := by decide
  obtain rfl := Option.some.inj (hstored.symm.trans hslot)
  exact ⟨(haway (by decide)).1, hleads, hget⟩

end Execution

end InterpreterCore

import InterpreterCore.Proofs.Execution.Reference

namespace InterpreterCore

namespace Activation

theorem holdsConstant_of_getElem? {activation : Activation} {slot : Nat} {name : String}
    {value : Value} (hstored : activation.slots[slot]? = some ⟨name, some value⟩) :
    activation.holdsConstant slot = value.isConst := by
  rw [holdsConstant, hstored]

end Activation

/-- Where no constant is stored, assigning is storing, and makes the slot hold a constant exactly
    when the assigned value is one. -/
theorem Display.assign_like_store {display : Display} {reference : Reference} {frame : Frame}
    (hissuer : display.issuer reference = .ok frame)
    (hslot : reference.slot < frame.activation.slots.size)
    (hconstant : frame.activation.holdsConstant reference.slot = false) (value : Value) :
    assign reference value display = store reference value display ∧
      ∃ after stored, assign reference value display = .ok () after ∧
        after.frame? reference.depth = some stored ∧ after.get reference = .ok value ∧
        stored.activation.holdsConstant reference.slot = value.isConst := by
  have hsame := assign_of_not_constant value hissuer hconstant
  have hstore := store_of_issuer value hissuer hslot
  have hframe := frame?_withFrame display reference.depth reference.depth
    (some { frame with activation := frame.activation.withContent reference.slot (some value) })
  rw [if_pos rfl] at hframe
  have hread := Activation.value_withContent frame.activation reference.slot value hslot
  have hstored := Activation.getElem?_withContent frame.activation reference.slot reference.slot
    (some value)
  rw [if_pos rfl, Array.getElem?_eq_getElem hslot, Option.map_some] at hstored
  refine ⟨hsame, _, _, hsame.trans hstore, hframe, ?_,
    Activation.holdsConstant_of_getElem? hstored⟩
  rw [get_of_issuer (issuer_of_frame? hframe (frame?_of_issuer hissuer).2), hread]

namespace Execution

variable {σ : Type}

/-- What a slot of an open activation holds, be the activation in place or put aside. -/
def Holds (execution : Execution σ) (serial slot : Nat) (stored : Slot) : Prop :=
  ∃ record ∈ execution.records, record.call.serial = serial ∧
    record.frame.activation.slots[slot]? = some stored

/-- A reference is good and leads to a slot of an activation. -/
structure Denotes (execution : Execution σ) (reference : Reference) (serial slot : Nat) : Prop where
  place : execution.occupant? reference.depth = some serial
  slot : reference.slot = slot
  good : (execution.display.issuer reference).isOk

/-- A name stands for a slot of an activation in the current scope. -/
structure Names (execution : Execution σ) (name : String) (serial slot : Nat) : Prop where
  place : execution.occupant? execution.display.level = some serial
  slot : (execution.display.activation? execution.display.level).bind (·.slotOf? name) = some slot

/-- Runs in which nothing is stored plainly in a slot of an activation and the name that stands for
    the slot is not removed. All else is free, assignments and other ways of using the slot's name
    included. -/
def Sparing (serial slot : Nat) (execution : Execution σ) : Action → Prop
  | .perform (.store reference _) => ¬ execution.Denotes reference serial slot
  | .perform (.remove name) => ¬ execution.Names name serial slot
  | _ => True

/-- If an open activation has the number, its slot holds the constant. -/
structure Latched (execution : Execution σ) (records : List Record) (serial slot : Nat)
    (name : String) (value : Value) : Prop where
  shows : execution.Shows records
  numbered : execution.Numbered records
  known : serial ≤ execution.installs
  held : ∀ record ∈ records, record.call.serial = serial →
    record.frame.activation.slots[slot]? = some ⟨name, some value⟩

namespace Latched

variable {execution : Execution σ} {records : List Record} {serial slot : Nat} {name : String}
  {value : Value}

/-- The edits of a sparing run spare the constant. -/
theorem spares (hlatched : execution.Latched records serial slot name value)
    (hconst : value.isConst = true) {α : Type} {operation : Operation α}
    (hsparing : execution.Sparing serial slot (.perform operation)) {level : Nat} {edit : Edit}
    (hedit : operation.edit? execution.display = some (level, edit)) {record : Record}
    (hrecord : Record.at? records level = some record) (hserial : record.call.serial = serial) :
    edit.Spares record.frame.activation slot := by
  have hframe := hlatched.shows.frame?_of_at? hrecord
  have hplace : execution.occupant? level = some serial := by
    rw [occupant?, hlatched.shows.holder?_eq, hrecord, ← hserial]
    rfl
  cases operation with
  | store reference other =>
    simp only [Operation.edit?] at hedit
    split at hedit <;> cases hedit
    rename_i hissuer
    exact fun hslot => hsparing ⟨hplace, hslot, by rw [hissuer]; rfl⟩
  | assign reference other =>
    simp only [Operation.edit?] at hedit
    split at hedit
    · rename_i frame hissuer
      split at hedit <;> cases hedit
      rename_i hfree
      obtain ⟨hinstalled, _⟩ := Display.frame?_of_issuer hissuer
      obtain rfl := Option.some.inj (hinstalled.symm.trans hframe)
      intro hslot
      have hheld := hlatched.held record (Record.mem_of_at? hrecord) hserial
      rw [← hslot] at hheld
      exact hfree ((Activation.holdsConstant_of_getElem? hheld).trans hconst)
    · cases hedit
  | remove old =>
    cases hedit
    intro hname
    exact hsparing ⟨hplace, by rw [Display.activation?, hframe]; exact hname⟩
  | define new => cases hedit; trivial
  | declare decl => cases hedit; trivial
  | declareInner new parameters =>
    simp only [Operation.edit?] at hedit
    split at hedit <;> cases hedit
    trivial
  | undeclare old => cases hedit; trivial
  | ask query => cases hedit
  | declareClass decl => cases hedit
  | declareInterface decl => cases hedit
  | allocate className => cases hedit
  | setField o field other => cases hedit

theorem step {last : Execution σ} {after : List Record} {action : Action}
    (hlatched : execution.Latched records serial slot name value) (hconst : value.isConst = true)
    (hsparing : execution.Sparing serial slot action)
    (hchange : Change execution records action last after) :
    last.Latched after serial slot name value := by
  have hshows := hlatched.shows.step hchange
  have hnumbered := hlatched.numbered.step hlatched.shows hchange
  cases hchange with
  | perform operation =>
    refine ⟨hshows, hnumbered, hlatched.known, fun record hrecord hserial => ?_⟩
    obtain hold | ⟨level, edit, old, hedit, hat, rfl⟩ := Record.mem_edited hrecord
    · exact hlatched.held record hold hserial
    · exact Activation.getElem?_apply_of_spares
        (hlatched.held old (Record.mem_of_at? hat) hserial)
        (hlatched.spares hconst hsparing hedit hat hserial)
  | enter past hroom =>
    have hknown := hlatched.known
    refine ⟨hshows, hnumbered, ?_, fun record hrecord hserial => ?_⟩
    · rw [enter_of_room past hroom]
      exact Nat.le_succ_of_le hknown
    · obtain rfl | hold := List.mem_cons.mp hrecord
      · have hnew : execution.installs + 1 = serial := hserial
        omega
      · exact hlatched.held record hold hserial
  | leave =>
    refine ⟨hshows, hnumbered, ?_, fun record hrecord => ?_⟩
    · rw [leave_of_cons hlatched.shows.suspended hlatched.shows.calls]
      exact hlatched.known
    · exact hlatched.held record (List.mem_cons_of_mem _ hrecord)
  | nothing => exact hlatched

theorem holds (hlatched : execution.Latched records serial slot name value) {call : OpenCall}
    (hopen : call ∈ execution.calls) (hserial : call.serial = serial) :
    execution.Holds serial slot ⟨name, some value⟩ := by
  rw [hlatched.shows.calls] at hopen
  obtain ⟨record, hrecord, rfl⟩ := List.mem_map.mp hopen
  exact ⟨record, hlatched.shows.records_eq ▸ hrecord, hserial,
    hlatched.held record hrecord hserial⟩

/-- Assignment to the constant is refused under its name and changes nothing. -/
theorem assign_refused (hlatched : execution.Latched records serial slot name value)
    (hconst : value.isConst = true) {reference : Reference}
    (hdenotes : execution.Denotes reference serial slot) (other : Value) :
    Display.assign reference other execution.display =
      .error (.constantAssignment name) execution.display := by
  obtain ⟨hplace, rfl, hgood⟩ := hdenotes
  rw [occupant?, hlatched.shows.holder?_eq, Option.map_map] at hplace
  obtain ⟨record, hrecord, hserial⟩ := Option.map_eq_some_iff.mp hplace
  have hheld := hlatched.held record (Record.mem_of_at? hrecord) hserial
  cases hissuer : execution.display.issuer reference with
  | error fault =>
    rw [hissuer] at hgood
    cases hgood
  | ok frame =>
    obtain ⟨hinstalled, _⟩ := Display.frame?_of_issuer hissuer
    obtain rfl := Option.some.inj (hinstalled.symm.trans (hlatched.shows.frame?_of_at? hrecord))
    obtain ⟨slotName, hname, hrefused⟩ := Display.assign_of_constant other hissuer
      ((Activation.holdsConstant_of_getElem? hheld).trans hconst)
    rw [Activation.nameOf?, hheld] at hname
    obtain rfl := Option.some.inj hname
    exact hrefused

end Latched

theorem Reaches.latched {earlier later : Execution σ} {records : List Record} {serial slot : Nat}
    {name : String} {value : Value} (hlater : Reaches (Sparing serial slot) earlier later)
    (hconst : value.isConst = true)
    (hlatched : earlier.Latched records serial slot name value) :
    ∃ records, later.Latched records serial slot name value := by
  induction hlater with
  | refl => exact ⟨records, hlatched⟩
  | step _ action hsparing ih =>
    obtain ⟨records, hlatched⟩ := ih
    obtain ⟨after, hchange⟩ := hlatched.shows.change action
    exact ⟨after, hlatched.step hconst hsparing hchange⟩

/-- A slot that holds a constant at some point of a run is latched from there on. -/
theorem Holds.latched {settings : Display.Settings} {host : σ} {execution : Execution σ}
    {serial slot : Nat} {name : String} {value : Value}
    (hheld : execution.Holds serial slot ⟨name, some value⟩)
    (hreaches : Reaches Free (start settings host) execution) :
    ∃ records, execution.Latched records serial slot name value := by
  obtain ⟨records, hshows, hnumbered⟩ := hreaches.numbered
  obtain ⟨holder, hholder, rfl, hstored⟩ := hheld
  rw [hshows.records_eq] at hholder
  refine ⟨records, hshows, hnumbered,
    hnumbered.bounded _ (List.mem_map_of_mem hholder), fun record hrecord hserial => ?_⟩
  rw [hnumbered.record_unique hrecord hholder hserial, hstored]

/-- A constant is not overwritten by assignment. Take any run and any slot of an open activation
    that holds a constant at some point of it. For the rest of the run, as long as nothing is stored
    plainly through a reference to the slot and the name that stands for it is not removed, the slot
    holds that very constant while its activation is open, in place or put aside; and assignment
    through any good reference to it is refused under the slot's name and changes nothing. Where no
    constant is stored, assigning is storing, and the slot then holds a constant exactly when the
    assigned value is one. -/
theorem constant_kept (settings : Display.Settings) (host : σ) {earlier later : Execution σ}
    {serial slot : Nat} {name : String} {value : Value}
    (hreaches : Reaches Free (start settings host) earlier)
    (hheld : earlier.Holds serial slot ⟨name, some value⟩) (hconst : value.isConst = true)
    (hlater : Reaches (Sparing serial slot) earlier later) :
    (∀ call ∈ later.calls, call.serial = serial →
      later.Holds serial slot ⟨name, some value⟩) ∧
    (∀ reference other, later.Denotes reference serial slot →
      Display.assign reference other later.display =
        .error (.constantAssignment name) later.display) ∧
    ∀ (display : Display) (reference : Reference) (frame : Frame) (other : Value),
      display.issuer reference = .ok frame → reference.slot < frame.activation.slots.size →
      frame.activation.holdsConstant reference.slot = false →
      Display.assign reference other display = Display.store reference other display ∧
        ∃ after stored, Display.assign reference other display = .ok () after ∧
          after.frame? reference.depth = some stored ∧ after.get reference = .ok other ∧
          stored.activation.holdsConstant reference.slot = other.isConst := by
  obtain ⟨_, hearlier⟩ := hheld.latched hreaches
  obtain ⟨_, hlatched⟩ := hlater.latched hconst hearlier
  refine ⟨fun _ hopen hserial => hlatched.holds hopen hserial,
    fun _ other hdenotes => hlatched.assign_refused hconst hdenotes other, ?_⟩
  intro display reference frame other hissuer hslot hfree
  exact Display.assign_like_store hissuer hslot hfree other

/-- A constant of the main function outlives a second variable of its name, an assignment to it, and
    a call that takes the place of the main function and removes a variable of that name. -/
theorem constant_kept_over_swap :
    let reference : Reference := ⟨0, 0, ⟨0⟩⟩
    let constant : Value := ⟨.boolean true, true⟩
    let other : Activation := .ofFunction ⟨"other", 0, ["x"]⟩
    let earlier := [Action.perform (.define "x"), .perform (.store reference constant)].foldl step
      (start { redefinition := .shadow } ())
    let called := ((earlier.step (.perform (.define "x"))).step
      (.perform (.assign reference (.boolean false)))).step (.enter other [])
    let later := (called.step (.perform (.remove "x"))).step .leave
    later.Holds 0 0 ⟨"x", some constant⟩ ∧ later.Denotes reference 0 0 ∧
      Display.assign reference (.boolean false) later.display =
        .error (.constantAssignment "x") later.display := by
  intro reference constant other earlier called later
  have hreaches : Reaches Free (start { redefinition := .shadow } ()) earlier :=
    ((Reaches.refl _).step (.perform (.define "x")) trivial).step
      (.perform (.store reference constant)) trivial
  have hheld : earlier.Holds 0 0 ⟨"x", some constant⟩ :=
    ⟨⟨.main, _⟩, List.mem_cons_self, rfl, rfl⟩
  have hcalled : Reaches (Sparing 0 0) earlier called :=
    (((Reaches.refl _).step (.perform (.define "x")) trivial).step
      (.perform (.assign reference (.boolean false))) trivial).step (.enter other []) trivial
  have hremoved : ¬ called.Names "x" 0 0 := fun hnames => absurd hnames.place (by decide)
  have hlater : Reaches (Sparing 0 0) earlier later :=
    (hcalled.step (.perform (.remove "x")) hremoved).step .leave trivial
  obtain ⟨hkept, hrefused, _⟩ :=
    constant_kept { redefinition := .shadow } () hreaches hheld rfl hlater
  have hopen : OpenCall.main ∈ later.calls := by decide
  have hdenotes : later.Denotes reference 0 0 := ⟨by decide, rfl, by decide⟩
  exact ⟨hkept .main hopen rfl, hdenotes, hrefused reference _ hdenotes⟩

end Execution

end InterpreterCore

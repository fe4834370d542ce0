import InterpreterCore.Proofs.Execution.Resolution

namespace InterpreterCore

namespace Activation

/-- A removed name stands for nothing, whatever slots have been made for it. -/
theorem slotOf?_apply_remove (activation : Activation) (name : String) :
    ((Edit.remove name).apply activation).slotOf? name = none := by
  rw [Edit.apply, after_remove]
  split
  · assumption
  · exact (lookup_filter_ne ..).trans (if_pos rfl)

/-- A name comes to stand for a slot only by being defined. -/
theorem slotOf?_apply_of_none {activation : Activation} {edit : Edit} {name : String}
    (hnone : activation.slotOf? name = none) (hdefine : ∀ policy, edit ≠ .define policy name) :
    (edit.apply activation).slotOf? name = none := by
  by_cases hremove : edit = .remove name
  · rw [hremove, slotOf?_apply_remove]
  · rw [slotOf?_apply_of_ne hdefine hremove, hnone]

end Activation

namespace Display

/-- A name stands for a variable of the current scope. -/
def VisibleHere (display : Display) (name : String) : Prop :=
  ∃ reference, display.resolve? name = some reference ∧ reference.depth = display.level

/-- The variables that are listed for the current scope are those for which names stand there, each
    once and in the order of their slots. -/
structure ListsScope (display : Display) : Prop where
  listed : ∀ name, name ∈ display.variableNames ↔ display.VisibleHere name
  once : display.variableNames.Nodup
  ascending : ∃ slots : List Nat,
    display.variableNames.map (fun name => (display.resolve? name).map Reference.slot) =
      slots.map some ∧
    slots.Pairwise (· < ·)

/-- Removing a name is a matter of the current scope: there it is told whether there was one, its
    slot is cleared for all references to it, and the name stands for what the scopes around define,
    not for an older slot of its own. -/
structure RemovesFromScope (display : Display) (name : String) : Prop where
  present : display.VisibleHere name → (remove name).answer display = .ok true
  absent : ¬ display.VisibleHere name → (remove name).answer display = .ok false
  uncovered : ((remove name).after display).resolve? name =
    display.enclosing?.bind (resolve? · name)
  others : ∀ other, other ≠ name →
    ((remove name).after display).resolve? other = display.resolve? other
  cleared : ∀ reference old, display.resolve? name = some reference →
    reference.depth = display.level → (display.issuer old).isOk → old.depth = reference.depth →
    old.slot = reference.slot →
    ((remove name).after display).get old = .error (.uninitializedVariable name)

section Here

variable {display : Display} {frame : Frame} (hframe : display.frame? display.level = some frame)
include hframe

theorem visibleHere_iff (name : String) :
    display.VisibleHere name ↔ (frame.activation.slotOf? name).isSome := by
  rw [Option.isSome_iff_exists]
  constructor
  · rintro ⟨reference, hfound, hdepth⟩
    obtain ⟨-, installed, hinstalled, -, hslot⟩ := exists_frame_of_resolve hfound
    obtain rfl := Option.some.inj (hframe.symm.trans (hdepth ▸ hinstalled))
    exact ⟨_, hslot⟩
  · rintro ⟨slot, hslot⟩
    exact ⟨_, resolve?_here hframe hslot, rfl⟩

theorem listsScope (htabled : frame.activation.Tabled) : display.ListsScope := by
  have hnames := htabled.namesFaithfully
  have hvariables := variableNames_of_frame? hframe
  refine ⟨fun name => ?_, hvariables ▸ hnames.once, ?_⟩
  · rw [hvariables, hnames.listed, visibleHere_iff hframe]
  · obtain ⟨slots, hslots, hascending⟩ := hnames.ascending
    refine ⟨slots, ?_, hascending⟩
    rw [hvariables, ← hslots]
    refine List.map_congr_left fun name hname => ?_
    obtain ⟨slot, hslot⟩ := Option.isSome_iff_exists.mp ((hnames.listed name).mp hname)
    rw [resolve?_here hframe hslot, hslot, Option.map_some]

/-- Good references to the slot of a removed name read that it holds no value. -/
theorem get_after_remove (htabled : frame.activation.Tabled)
    (harity : frame.activation.function.arity ≤ frame.activation.slots.size) {name : String}
    {old : Reference} (hslot : frame.activation.slotOf? name = some old.slot)
    (hdepth : old.depth = display.level) (hgood : (display.issuer old).isOk) :
    ((remove name).after display).get old = .error (.uninitializedVariable name) := by
  have hplace : ((remove name).after display).frame? old.depth =
      some (frame.edit (.remove name)) := by
    rw [after_remove, frame?_editAt, if_pos hdepth, hframe, Option.map_some]
  have hstamp : frame.stamp = old.stamp := by
    cases hissuer : display.issuer old with
    | error fault =>
      rw [hissuer] at hgood
      cases hgood
    | ok issuing =>
      obtain ⟨hissued, hstamp⟩ := frame?_of_issuer hissuer
      rw [hdepth, hframe] at hissued
      rwa [Option.some.inj hissued]
  rw [get_of_issuer (issuer_of_frame? hplace hstamp)]
  exact ((htabled.editsLocally harity).removed name _ hslot).2.2

theorem removesFromScope (htabled : frame.activation.Tabled)
    (harity : frame.activation.function.arity ≤ frame.activation.slots.size) (name : String) :
    display.RemovesFromScope name where
  present hhere := by rw [answer_remove name hframe, (visibleHere_iff hframe name).mp hhere]
  absent haway := by
    rw [visibleHere_iff hframe, Bool.not_eq_true] at haway
    rw [answer_remove name hframe, haway]
  uncovered := by
    rw [after_remove]
    refine innermost?_editAt_level fun current _ => ?_
    rw [Frame.edit, Activation.slotOf?_apply_remove, Option.map_none]
  others other hother := by
    rw [after_remove]
    refine resolve?_editAt display.level fun _ _ => Activation.slotOf?_apply_of_ne ?_ ?_
    · intro policy hdefine
      cases hdefine
    · exact fun hsame => hother (Edit.remove.inj hsame).symm
  cleared reference old hfound hdepth hgood hsame hslot := by
    obtain ⟨-, installed, hinstalled, -, hnamed⟩ := exists_frame_of_resolve hfound
    rw [hdepth, hframe] at hinstalled
    rw [← Option.some.inj hinstalled, ← hslot] at hnamed
    exact get_after_remove hframe htabled harity hnamed (hsame.trans hdepth) hgood

end Here

end Display

namespace Execution

variable {σ : Type}

/-- Runs in which a name is not defined in the scope of an activation. It may be defined in the
    scopes of others, and all else may be done with it. -/
def LeavesUndefined (serial : Nat) (name : String) (execution : Execution σ) (action : Action) :
    Prop :=
  execution.Genuine action ∧
    (action = .perform (.define name) →
      execution.occupant? execution.display.level ≠ some serial)

/-- If an activation is open, a name stands for nothing in it. -/
structure Unnamed (execution : Execution σ) (records : List Record) (serial : Nat) (name : String) :
    Prop where
  accounted : execution.Accounted records
  known : serial ≤ execution.installs
  unnamed : ∀ record ∈ records, record.call.serial = serial →
    record.frame.activation.slotOf? name = none

namespace Unnamed

variable {execution last : Execution σ} {records after : List Record} {serial : Nat} {name : String}

/-- An edit that defines a name is that of a definition in the current scope. -/
theorem not_define {α : Type} {operation : Operation α} {action : Action}
    (haction : action = .perform operation)
    (hleaves : execution.LeavesUndefined serial name action) {level : Nat} {edit : Edit}
    (hedit : operation.edit? execution.display = some (level, edit))
    (hplace : execution.occupant? level = some serial) (policy : Redefinition) :
    edit ≠ .define policy name := by
  rintro rfl
  cases operation with
  | define new =>
    cases hedit
    exact hleaves.2 haction hplace
  | store reference value =>
    simp only [Operation.edit?] at hedit
    split at hedit <;> cases hedit
  | assign reference value =>
    simp only [Operation.edit?] at hedit
    split at hedit
    · split at hedit <;> cases hedit
    · cases hedit
  | declareInner new parameters =>
    simp only [Operation.edit?] at hedit
    split at hedit <;> cases hedit
  | remove old => cases hedit
  | declare decl => cases hedit
  | undeclare old => cases hedit
  | ask query => cases hedit
  | declareClass decl => cases hedit
  | declareInterface decl => cases hedit
  | allocate className => cases hedit
  | setField o field value => cases hedit

theorem step {action : Action} (hunnamed : execution.Unnamed records serial name)
    (hleaves : execution.LeavesUndefined serial name action)
    (hchange : Change execution records action last after) : last.Unnamed after serial name := by
  obtain ⟨haccounted, hknown, hnone⟩ := hunnamed
  refine ⟨haccounted.step hleaves.1 hchange, ?_, ?_⟩
  · cases hchange with
    | perform operation => exact hknown
    | enter past hroom =>
      rw [enter_of_room past hroom]
      exact Nat.le_succ_of_le hknown
    | leave =>
      rw [leave_of_cons haccounted.shows.suspended haccounted.shows.calls]
      exact hknown
    | nothing => exact hknown
  · intro record hrecord hserial
    cases hchange with
    | perform operation =>
      obtain hold | ⟨level, edit, old, hedit, hat, rfl⟩ := Record.mem_edited hrecord
      · exact hnone record hold hserial
      · have hplace := haccounted.occupant?_eq hat
        rw [show old.call.serial = serial from hserial] at hplace
        exact Activation.slotOf?_apply_of_none (hnone old (Record.mem_of_at? hat) hserial)
          (not_define rfl hleaves hedit hplace)
    | enter past hroom =>
      obtain rfl | hold := List.mem_cons.mp hrecord
      · have hnew : execution.installs + 1 = serial := hserial
        omega
      · exact hnone record hold hserial
    | leave => exact hnone record (List.mem_cons_of_mem _ hrecord) hserial
    | nothing => exact hnone record hrecord hserial

end Unnamed

theorem display_perform_remove (execution : Execution σ) (name : String) :
    (execution.perform (.remove name)).display =
      (Display.remove name).after execution.display := by
  rw [display_perform, Operation.run, Machine.after_onDisplay]

/-- A name that has just been removed stands for nothing in the running activation. -/
theorem Accounted.unnamed {execution : Execution σ} {records : List Record} {record : Record}
    (haccounted : execution.Accounted records)
    (hrecord : Record.at? records execution.display.level = some record) (name : String) :
    (execution.perform (.remove name)).Unnamed
      (Record.editAt execution.display.level (.remove name) records) record.call.serial name where
  accounted := haccounted.perform (.remove name)
  known := haccounted.numbered.bounded _ (List.mem_map_of_mem (Record.mem_of_at? hrecord))
  unnamed kept hkept hserial := by
    obtain rfl | ⟨-, hother⟩ :=
      mem_editAt_of_descending haccounted.numbered.descending hrecord hkept
    · exact Activation.slotOf?_apply_remove ..
    · exact absurd hserial.symm hother

/-- It goes on to stand for nothing there until it is defined there. -/
theorem Reaches.unnamed {first last : Execution σ} {records : List Record} {serial : Nat}
    {name : String} (hlater : Reaches (LeavesUndefined serial name) first last)
    (hunnamed : first.Unnamed records serial name) :
    ∃ records, last.Unnamed records serial name := by
  induction hlater with
  | refl => exact ⟨records, hunnamed⟩
  | step _ action hleaves ih =>
    obtain ⟨records, hunnamed⟩ := ih
    obtain ⟨after, hchange⟩ := hunnamed.accounted.shows.change action
    exact ⟨after, hunnamed.step hleaves hchange⟩

/-- A name that stands for nothing in the running activation can be defined there, under either
    policy. -/
theorem Unnamed.defines {execution : Execution σ} {records : List Record} {serial : Nat}
    {name : String} (hunnamed : execution.Unnamed records serial name)
    (hplace : execution.occupant? execution.display.level = some serial) :
    ∃ fresh, (Display.define name).answer execution.display = .ok fresh := by
  obtain ⟨record, hrecord, hserial⟩ := hunnamed.accounted.exists_record_of_occupant hplace
  have hnone := hunnamed.unnamed record (Record.mem_of_at? hrecord) hserial
  have hframe := hunnamed.accounted.shows.frame?_of_at? hrecord
  rw [Display.answer_define name hframe, Activation.answer_define, hnone, if_neg (by simp)]
  exact ⟨_, rfl⟩

/-- The slot that a definition makes is one for which no reference has been issued. -/
theorem Accounted.unissued {execution : Execution σ} {records : List Record} {serial owner : Nat}
    {name : String} {earlier fresh : Reference} (haccounted : execution.Accounted records)
    (hplace : execution.occupant? execution.display.level = some serial)
    (hfresh : (Display.define name).answer execution.display = .ok fresh)
    (hissued : execution.IssuedFor earlier owner) :
    ¬ (owner = serial ∧ earlier.slot = fresh.slot) ∧
      (execution.installs < UInt64.size → earlier ≠ fresh) := by
  obtain ⟨record, hrecord, hserial⟩ := haccounted.exists_record_of_occupant hplace
  have hmem := Record.mem_of_at? hrecord
  obtain ⟨frame, hframe, rfl, -⟩ := Display.define_eq_ok hfresh
  obtain rfl := Option.some.inj ((haccounted.shows.frame?_of_at? hrecord).symm.trans hframe)
  have hnew : ¬ (owner = serial ∧ earlier.slot = record.frame.activation.slots.size) := by
    rintro ⟨howner, hslot⟩
    have hmade := hissued.made
    rw [howner, hslot, ← hserial, ← haccounted.slots record hmem,
      Array.getElem?_eq_none (Nat.le_refl _)] at hmade
    cases hmade
  refine ⟨hnew, fun hinstalls hsame => hnew ⟨?_, congrArg Reference.slot hsame⟩⟩
  have hknown := hissued.known
  have hbound := haccounted.numbered.bounded _ (List.mem_map_of_mem hmem)
  have hstamp : Stamp.ofSerial owner = Stamp.ofSerial record.call.serial := by
    rw [← hissued.stamp, ← haccounted.numbered.stamped record hmem, hsame]
  rw [← hserial]
  exact Stamp.ofSerial_inj (by omega) (by omega) hstamp

/-- A reference that leads to a slot which has not been given out before: whatever reference has
    been issued at an earlier point of the run was issued for another slot or another activation,
    and is another reference, as long as marks do not repeat. -/
def Unissued (settings : Display.Settings) (host : σ) (execution : Execution σ) (serial : Nat)
    (fresh : Reference) : Prop :=
  ∀ issuing earlier action, Reaches Genuine (start settings host) issuing →
    issuing.Issues earlier action → Reaches Genuine (issuing.step action) execution →
    ∃ owner, issuing.occupant? earlier.depth = some owner ∧
      ¬ (owner = serial ∧ earlier.slot = fresh.slot) ∧
      (execution.installs < UInt64.size → earlier ≠ fresh)

theorem Accounted.issues_before {issuing execution : Execution σ} {records : List Record}
    {earlier : Reference} {action : Action} (haccounted : issuing.Accounted records)
    (hissues : issuing.Issues earlier action)
    (hlater : Reaches Genuine (issuing.step action) execution) :
    ∃ owner records, issuing.occupant? earlier.depth = some owner ∧
      execution.Accounted records ∧ execution.IssuedFor earlier owner := by
  obtain ⟨owner, hplace, hissued⟩ := haccounted.issues hissues
  have hgenuine : issuing.Genuine action := by cases hissues <;> trivial
  obtain ⟨after, hchange⟩ := haccounted.shows.change action
  obtain ⟨records, hlast⟩ := hlater.issuedFor (haccounted.step hgenuine hchange) hissued
  exact ⟨owner, records, hplace, hlast⟩

/-- What is listed for the current scope, what can be removed from it and what names stand for
    agree, at every point of a run and under either policy. The listed names are those that stand
    for variables of the current level, each once and in the order of their slots. Removing a name
    answers whether it is one of them. Afterwards it stands for what the scopes around define, and
    for none of the older slots that it has left behind; all other names stand for what they stood
    for; and old references to the removed slot read that it holds no value. From then on, until
    the name is defined again in the same activation, whatever is called, defined and removed
    elsewhere, that definition is accepted wherever it is made, and makes a slot for which no
    reference has been issued. -/
theorem current_scope_agrees {settings : Display.Settings} {host : σ} {execution : Execution σ}
    (hreaches : Reaches Genuine (start settings host) execution) (name : String) :
    execution.display.ListsScope ∧
    execution.display.RemovesFromScope name ∧
    ∃ serial, execution.occupant? execution.display.level = some serial ∧
      ∀ later, Reaches (LeavesUndefined serial name) (execution.perform (.remove name)) later →
        later.occupant? later.display.level = some serial →
        ∃ fresh, (Display.define name).answer later.display = .ok fresh ∧
          Unissued settings host later serial fresh := by
  obtain ⟨records, haccounted⟩ := hreaches.accounted
  obtain ⟨record, -, -, hrecord⟩ := haccounted.shows.current
  have hframe := haccounted.shows.frame?_of_at? hrecord
  obtain ⟨past, hbuilt⟩ := hreaches.built hframe
  refine ⟨Display.listsScope hframe hbuilt.tabled,
    Display.removesFromScope hframe hbuilt.tabled hbuilt.arity_le name,
    record.call.serial, haccounted.occupant?_eq hrecord, fun later hlater hplace => ?_⟩
  obtain ⟨_, hunnamed⟩ := hlater.unnamed (haccounted.unnamed hrecord name)
  obtain ⟨fresh, hfresh⟩ := hunnamed.defines hplace
  refine ⟨fresh, hfresh, fun issuing earlier action hissuing hissues hbetween => ?_⟩
  obtain ⟨_, hbefore⟩ := hissuing.accounted
  obtain ⟨owner, _, howner, hlast, hissued⟩ := hbefore.issues_before hissues hbetween
  exact ⟨owner, howner, hlast.unissued hplace hfresh hissued⟩

/-- In a function over the main one, `x` is defined twice, its new slot shadowing its old one. Its
    removal uncovers the variable of the main function and not the old slot, and when it is defined
    once more, the reference to the old slot is not the new one. -/
theorem current_scope_agrees_after_shadowing :
    let inner : Activation := .ofFunction ⟨"f", 1, []⟩
    let defining : Action := .perform (.define "x")
    let resolving : Action := .perform (.ask (.resolve "x"))
    let entered := [defining, .enter inner [], defining].foldl step
      (start { redefinition := .shadow } ())
    let shadowed := [resolving, defining].foldl step entered
    let removed := (shadowed.perform (.remove "x")).display
    entered.display.resolve? "x" = some ⟨1, 0, ⟨1⟩⟩ ∧
      shadowed.display.resolve? "x" = some ⟨1, 1, ⟨1⟩⟩ ∧
      (Display.remove "x").answer shadowed.display = .ok true ∧
      removed.resolve? "x" = some ⟨0, 0, ⟨0⟩⟩ ∧
      removed.get ⟨1, 1, ⟨1⟩⟩ = .error (.uninitializedVariable "x") ∧
      ∃ fresh, (Display.define "x").answer removed = .ok fresh ∧ fresh ≠ ⟨1, 0, ⟨1⟩⟩ := by
  intro inner defining resolving entered shadowed removed
  have hinner : inner.Built [] := ⟨inner, rfl, rfl⟩
  have hentered : Reaches Genuine (start { redefinition := .shadow } ()) entered :=
    (((Reaches.refl _).step defining trivial).step (.enter inner []) hinner).step defining trivial
  have hbetween : Reaches Genuine (entered.step resolving) shadowed :=
    (Reaches.refl _).step defining trivial
  have hshadowed := (hentered.step resolving trivial).trans hbetween
  have hfirst : entered.display.resolve? "x" = some ⟨1, 0, ⟨1⟩⟩ := by decide +kernel
  have hsecond : shadowed.display.resolve? "x" = some ⟨1, 1, ⟨1⟩⟩ := by decide +kernel
  have hlevel : shadowed.display.level = 1 := by decide +kernel
  have hrunning : shadowed.occupant? shadowed.display.level = some 1 := by decide +kernel
  have hissuer : (shadowed.display.issuer ⟨1, 1, ⟨1⟩⟩).isOk := by decide +kernel
  obtain ⟨-, hremoves, serial, hserial, hdefines⟩ := current_scope_agrees hshadowed "x"
  obtain rfl := Option.some.inj (hrunning.symm.trans hserial)
  obtain ⟨fresh, hfresh, hunissued⟩ := hdefines _ (.refl _) (by decide +kernel)
  have hremoved := hbetween.step (.perform (.remove "x")) trivial
  obtain ⟨_, -, -, hother⟩ := hunissued entered _ resolving hentered (.resolve hfirst) hremoved
  have hafter : removed = (Display.remove "x").after shadowed.display :=
    display_perform_remove shadowed "x"
  refine ⟨hfirst, hsecond, hremoves.present ⟨_, hsecond, hlevel.symm⟩, ?_, ?_, fresh, hfresh, ?_⟩
  · rw [hafter, hremoves.uncovered]
    decide +kernel
  · rw [hafter]
    exact hremoves.cleared _ _ hsecond hlevel.symm hissuer rfl rfl
  · exact (hother (by decide +kernel)).symm

end Execution

end InterpreterCore

import InterpreterCore.Proofs.Activation.Table
import InterpreterCore.Proofs.Execution.Reference

namespace InterpreterCore

namespace Display

variable {display : Display} {name : String} {reference : Reference}

/-- A reference to the innermost variable of a name: the name is visible in the frame to which the
    reference leads, and in no frame between that one and the current level. -/
structure Innermost (display : Display) (name : String) (reference : Reference) : Prop where
  depth_le : reference.depth ≤ display.level
  visible : ∃ frame, display.frame? reference.depth = some frame ∧
    frame.stamp = reference.stamp ∧ frame.activation.slotOf? name = some reference.slot
  hidden : ∀ level frame, reference.depth < level → level ≤ display.level →
    display.frame? level = some frame → frame.activation.slotOf? name = none

/-- Vacant levels are passed over, and otherwise the innermost variable is found. -/
theorem resolve?_eq_some_iff :
    display.resolve? name = some reference ↔ display.Innermost name reference := by
  constructor
  · intro hfound
    obtain ⟨depth, frame, hfinds⟩ := exists_finds_of_searchFrom hfound
    obtain ⟨slot, hslot, rfl⟩ := Option.map_eq_some_iff.mp hfinds.answer
    refine ⟨hfinds.depth_le, ⟨frame, hfinds.frame_eq, rfl, hslot⟩, ?_⟩
    intro level between habove hlevel hbetween
    exact Option.map_eq_none_iff.mp (hfinds.unanswered level between habove hlevel hbetween)
  · rintro ⟨hdepth, ⟨frame, hframe, hstamp, hslot⟩, hhidden⟩
    have hfinds : display.Finds
        (fun depth frame => (frame.activation.slotOf? name).map fun slot =>
          ⟨depth, slot, frame.stamp⟩) display.level reference reference.depth frame := by
      refine ⟨hdepth, hframe, by rw [hslot, Option.map_some, hstamp], ?_⟩
      intro level between habove hlevel hbetween
      rw [hhidden level between habove hlevel hbetween, Option.map_none]
    exact hfinds.searchFrom_eq

/-- A name that is visible in the current scope stands for its variable there. -/
theorem resolve?_here {frame : Frame} {slot : Nat}
    (hframe : display.frame? display.level = some frame)
    (hslot : frame.activation.slotOf? name = some slot) :
    display.resolve? name = some ⟨display.level, slot, frame.stamp⟩ :=
  resolve?_eq_some_iff.mpr ⟨Nat.le_refl _, ⟨frame, hframe, rfl, hslot⟩,
    fun _ _ habove hlevel => absurd hlevel (Nat.not_le_of_gt habove)⟩

/-- A name stands for nothing exactly if it is visible in no frame from the current level down. -/
theorem resolve?_eq_none_iff :
    display.resolve? name = none ↔ ∀ level frame, level ≤ display.level →
      display.frame? level = some frame → frame.activation.slotOf? name = none := by
  rw [resolve?, innermost?, searchFrom_eq_none_iff]
  constructor
  · intro hnone level frame hlevel hframe
    have hhere := hnone level hlevel
    rw [hframe] at hhere
    exact Option.map_eq_none_iff.mp hhere
  · intro hhidden level hlevel
    cases hframe : display.frame? level with
    | none => rfl
    | some frame => rw [Option.bind_some, hhidden level frame hlevel hframe, Option.map_none]

/-- A reference to the innermost variable of a name leads to the frame for which it was issued. -/
theorem Innermost.issuer_eq (hinnermost : display.Innermost name reference) :
    ∃ frame, display.frame? reference.depth = some frame ∧
      issuer reference display = .ok frame ∧
      frame.activation.slotOf? name = some reference.slot := by
  obtain ⟨frame, hframe, hstamp, hslot⟩ := hinnermost.visible
  exact ⟨frame, hframe, issuer_of_frame? hframe hstamp, hslot⟩

/-- Looking up a name reads the slot of its innermost variable. -/
theorem lookup_of_resolve (hfound : display.resolve? name = some reference) :
    display.lookup name = display.get reference := by
  rw [lookup, hfound]

/-- A name of the current scope reads its slot there. -/
theorem lookup_here {frame : Frame} {slot : Nat} {stored : Slot}
    (hframe : display.frame? display.level = some frame)
    (hslot : frame.activation.slotOf? name = some slot)
    (hstored : frame.activation.slots[slot]? = some stored) :
    display.lookup name = stored.read := by
  rw [lookup_of_resolve (resolve?_here hframe hslot), get_of_issuer (issuer_of_frame? hframe rfl),
    Activation.value_eq_read hstored]

theorem lookup_of_undefined (hnone : display.resolve? name = none) :
    display.lookup name = .error (.undefinedVariable name) := by
  rw [lookup, hnone]

/-- A name resolves as before after an edit that does not change what it stands for. -/
theorem resolve?_editAt (level : Nat) {edit : Edit}
    (hkeeps : ∀ frame, display.frame? level = some frame →
      (edit.apply frame.activation).slotOf? name = frame.activation.slotOf? name) :
    (display.editAt level edit).resolve? name = display.resolve? name :=
  innermost?_editAt fun frame hframe => by rw [Frame.edit, hkeeps frame hframe]

/-- A definition that succeeds makes a slot in the frame of the current level. -/
theorem define_eq_ok (hdefined : (define name).answer display = .ok reference) :
    ∃ frame, display.frame? display.level = some frame ∧
      reference = ⟨display.level, frame.activation.slots.size, frame.stamp⟩ ∧
      (define name).after display = display.withFrame display.level
        (some { frame with activation := frame.activation.withVariable name }) := by
  cases hframe : display.frame? display.level with
  | none =>
    rw [answer_define_of_vacant name hframe] at hdefined
    cases hdefined
  | some frame =>
    rw [answer_define name hframe, Activation.answer_define] at hdefined
    split at hdefined
    · cases hdefined
    · rename_i haccepted
      refine ⟨frame, rfl, (Except.ok.inj hdefined).symm, ?_⟩
      rw [after_define, editAt_of_frame? _ hframe, Frame.edit, Edit.apply,
        Activation.after_define, if_neg haccepted]

/-- What has just been defined is what its name stands for, and every other name stands for what it
    stood for. -/
theorem resolve?_after_define (hdefined : (define name).answer display = .ok reference) :
    ((define name).after display).Innermost name reference ∧
      ∀ other, other ≠ name →
        ((define name).after display).resolve? other = display.resolve? other := by
  constructor
  · obtain ⟨frame, _, rfl, hafter⟩ := define_eq_ok hdefined
    have hframe := frame?_withFrame display display.level display.level
      (some { frame with activation := frame.activation.withVariable name })
    have hslot := Activation.slotOf?_withVariable frame.activation name name
    rw [if_pos rfl] at hframe hslot
    rw [hafter]
    exact ⟨Nat.le_refl _, ⟨_, hframe, rfl, hslot⟩,
      fun level _ habove hle => absurd hle (Nat.not_le_of_gt habove)⟩
  · intro other hother
    rw [after_define]
    refine resolve?_editAt display.level fun frame _ => Activation.slotOf?_apply_of_ne ?_ nofun
    intro policy hsame
    cases hsame
    exact hother rfl

/-- What is stored in the innermost variable of a name is what the name looks up, mark and all. -/
theorem lookup_after_store (hinnermost : display.Innermost name reference)
    (hslots : ∀ frame, display.frame? reference.depth = some frame → frame.activation.NamesSlots)
    (value : Value) :
    ∃ stored, store reference value display = .ok () stored ∧
      stored.resolve? name = some reference ∧ stored.lookup name = .ok value := by
  obtain ⟨frame, hframe, hissuer, hname⟩ := hinnermost.issuer_eq
  have hslot : reference.slot < frame.activation.slots.size := hslots frame hframe name _ hname
  have hframes (level : Nat) := frame?_withFrame display reference.depth level
    (some { frame with activation := frame.activation.withContent reference.slot (some value) })
  have hstamp := (frame?_of_issuer hissuer).2
  refine ⟨_, store_of_issuer value hissuer hslot, ?_⟩
  generalize hstored : display.withFrame reference.depth (some { frame with
    activation := frame.activation.withContent reference.slot (some value) }) = stored at hframes
  have hhere := hframes reference.depth
  rw [if_pos rfl] at hhere
  have hlevel : stored.level = display.level := by rw [← hstored, withFrame]
  have hkept : stored.Innermost name reference := by
    refine ⟨hlevel ▸ hinnermost.depth_le, ⟨_, hhere, hstamp, hname⟩, ?_⟩
    intro level between habove hle hbetween
    rw [hframes, if_neg (Nat.ne_of_gt habove)] at hbetween
    exact hinnermost.hidden level between habove (hlevel ▸ hle) hbetween
  have hfound := resolve?_eq_some_iff.mpr hkept
  refine ⟨hfound, ?_⟩
  rw [lookup_of_resolve hfound, get_of_issuer (issuer_of_frame? hhere hstamp)]
  exact Activation.value_withContent _ _ _ hslot

end Display

theorem Activation.Built.apply {activation : Activation} {past : List Edit}
    (hbuilt : activation.Built past) (edit : Edit) :
    (edit.apply activation).Built (edit :: past) := by
  obtain ⟨first, hfresh, hedited⟩ := hbuilt
  exact ⟨first, by rw [function_apply, hfresh], by rw [List.foldr_cons, hedited]⟩

namespace Execution

variable {σ : Type}

/-- All open activations have been built, whatever has been done to them since their calls. -/
def AllBuilt (records : List Record) : Prop :=
  ∀ record ∈ records, ∃ past, record.frame.activation.Built past

theorem AllBuilt.step {execution last : Execution σ} {records after : List Record}
    {action : Action} (hbuilt : AllBuilt records) (hgenuine : execution.Genuine action)
    (hchange : Change execution records action last after) : AllBuilt after := by
  intro record hrecord
  cases hchange with
  | perform operation =>
    obtain hold | ⟨_, edit, old, _, hat, rfl⟩ := Record.mem_edited hrecord
    · exact hbuilt record hold
    · obtain ⟨past, hpast⟩ := hbuilt old (Record.mem_of_at? hat)
      exact ⟨edit :: past, hpast.apply edit⟩
  | enter past hroom =>
    obtain rfl | hold := List.mem_cons.mp hrecord
    · exact ⟨past, hgenuine⟩
    · exact hbuilt record hold
  | leave => exact hbuilt record (List.mem_cons_of_mem _ hrecord)
  | nothing => exact hbuilt record hrecord

theorem Reaches.allBuilt {settings : Display.Settings} {host : σ} {execution : Execution σ}
    (hreaches : Reaches Genuine (start settings host) execution) :
    ∃ records, execution.Shows records ∧ AllBuilt records := by
  induction hreaches with
  | refl =>
    refine ⟨_, shows_start settings host, fun record hrecord => ?_⟩
    obtain rfl := List.mem_singleton.mp hrecord
    exact ⟨[], _, rfl, rfl⟩
  | step _ action hgenuine ih =>
    obtain ⟨records, hshows, hbuilt⟩ := ih
    obtain ⟨after, hchange⟩ := hshows.change action
    exact ⟨after, hshows.step hchange, hbuilt.step hgenuine hchange⟩

/-- In a run that calls only activations that have been built, every frame in place holds one. -/
theorem Reaches.built {settings : Display.Settings} {host : σ} {execution : Execution σ}
    (hreaches : Reaches Genuine (start settings host) execution) {level : Nat} {frame : Frame}
    (hframe : execution.display.frame? level = some frame) :
    ∃ past, frame.activation.Built past := by
  obtain ⟨records, hshows, hbuilt⟩ := hreaches.allBuilt
  obtain ⟨record, hrecord, rfl⟩ := hshows.at?_of_frame? hframe
  exact hbuilt record (Record.mem_of_at? hrecord)

/-- The same holds on every machine that a program meets, in whatever calls. -/
theorem built_of_meets {settings : Display.Settings} {host : σ} {program : Program}
    {met : Machine σ} (hkeeps : program.Keeps Genuine (start settings host).machine)
    (hmeets : program.Meets (start settings host).machine met) {level : Nat} {frame : Frame}
    (hframe : met.display.frame? level = some frame) : ∃ past, frame.activation.Built past := by
  obtain ⟨execution, hreaches, rfl⟩ :=
    exists_reaches_of_meets machineRule_genuine.returns hkeeps hmeets
  exact hreaches.built hframe

theorem display_perform_define (execution : Execution σ) (name : String) :
    (execution.perform (.define name)).display = (Display.define name).after execution.display := by
  rw [display_perform, Operation.run, Machine.after_onDisplay]

/-- What is read through the innermost variable of a name is its content, or the fault that bears
    the name. -/
theorem Reaches.lookup_eq {settings : Display.Settings} {host : σ} {execution : Execution σ}
    (hreaches : Reaches Genuine (start settings host) execution) {name : String}
    {reference : Reference} (hfound : execution.display.resolve? name = some reference) :
    ∃ frame content, execution.display.issuer reference = .ok frame ∧
      frame.activation.slots[reference.slot]? = some ⟨name, content⟩ ∧
      execution.display.lookup name = (Slot.mk name content).read := by
  obtain ⟨frame, hframe, hissuer, hslot⟩ := (Display.resolve?_eq_some_iff.mp hfound).issuer_eq
  obtain ⟨past, hbuilt⟩ := hreaches.built hframe
  have hnamed := hbuilt.tabled.nameOf?_of_slotOf? hslot
  obtain ⟨⟨_, content⟩, hstored, rfl⟩ := Option.map_eq_some_iff.mp hnamed
  refine ⟨frame, content, hissuer, hstored, ?_⟩
  rw [Display.lookup_of_resolve hfound, Display.get_of_issuer hissuer,
    Activation.value_eq_read hstored]

/-- Names resolve to the innermost variable and lookups answer exactly what it holds, at every point
    of a run, inside or outside any calls and whatever has been shadowed, removed and defined again.
    A name stands for the variable at the highest level, from the current one down, at which it is
    visible; its reference is good; and looking it up answers the stored value, mark and all, or that
    the variable of that very name holds none. A name stands for nothing exactly if it is visible at
    none of these levels, and then it is undefined. There is no other answer. After a definition
    that succeeds, the name stands for the new variable and reads what is stored there, and all
    other names stand for what they stood for. -/
theorem resolution_exact {settings : Display.Settings} {host : σ} {execution : Execution σ}
    (hreaches : Reaches Genuine (start settings host) execution) (name : String) :
    (∀ reference, execution.display.resolve? name = some reference ↔
      execution.display.Innermost name reference) ∧
    (execution.display.resolve? name = none ↔
      ∀ level frame, level ≤ execution.display.level →
        execution.display.frame? level = some frame → frame.activation.slotOf? name = none) ∧
    (∀ reference, execution.display.resolve? name = some reference →
      ∃ frame content, execution.display.issuer reference = .ok frame ∧
        frame.activation.slots[reference.slot]? = some ⟨name, content⟩ ∧
        execution.display.lookup name =
          match content with
          | some value => .ok value
          | none => .error (.uninitializedVariable name)) ∧
    (execution.display.resolve? name = none ↔
      execution.display.lookup name = .error (.undefinedVariable name)) ∧
    (∀ fault, execution.display.lookup name = .error fault →
      fault = .uninitializedVariable name ∨ fault = .undefinedVariable name) ∧
    ∀ reference, (Display.define name).answer execution.display = .ok reference →
      ((Display.define name).after execution.display).resolve? name = some reference ∧
      (∀ value, ∃ stored,
        Display.store reference value ((Display.define name).after execution.display) =
          .ok () stored ∧ stored.lookup name = .ok value) ∧
      ∀ other, other ≠ name →
        ((Display.define name).after execution.display).resolve? other =
          execution.display.resolve? other := by
  have hread : ∀ reference, execution.display.resolve? name = some reference →
      ∃ frame content, execution.display.issuer reference = .ok frame ∧
        frame.activation.slots[reference.slot]? = some ⟨name, content⟩ ∧
        execution.display.lookup name =
          match content with
          | some value => .ok value
          | none => .error (.uninitializedVariable name) :=
    fun reference hfound => hreaches.lookup_eq hfound
  refine ⟨fun _ => Display.resolve?_eq_some_iff, Display.resolve?_eq_none_iff, hread,
    ⟨Display.lookup_of_undefined, fun hundefined => ?_⟩, fun fault hfault => ?_,
    fun reference hdefined => ?_⟩
  · cases hfound : execution.display.resolve? name with
    | none => rfl
    | some reference =>
      obtain ⟨_, content, _, _, hlookup⟩ := hread reference hfound
      rw [hundefined] at hlookup
      cases content <;> cases hlookup
  · cases hfound : execution.display.resolve? name with
    | none =>
      rw [Display.lookup_of_undefined hfound] at hfault
      exact .inr (Except.error.inj hfault).symm
    | some reference =>
      obtain ⟨_, content, _, _, hlookup⟩ := hread reference hfound
      rw [hfault] at hlookup
      cases content <;> cases hlookup
      exact .inl rfl
  · obtain ⟨hinnermost, hothers⟩ := Display.resolve?_after_define hdefined
    have hlater : Reaches Genuine (start settings host) (execution.perform (.define name)) :=
      hreaches.step (.perform (.define name)) trivial
    have hafter := display_perform_define execution name
    refine ⟨Display.resolve?_eq_some_iff.mpr hinnermost, fun value => ?_, hothers⟩
    obtain ⟨stored, hstored, _, hlookup⟩ :=
      Display.lookup_after_store hinnermost (fun frame hframe => by
        obtain ⟨past, hbuilt⟩ := hlater.built (hafter ▸ hframe)
        exact hbuilt.namesSlots) value
    exact ⟨stored, hstored, hlookup⟩

/-- Over vacant levels a name stands for the constant of the main function, until it is defined in
    the deep scope: then it has no value there, and does not fall through to the constant. -/
theorem resolution_over_vacancy :
    let constant : Value := ⟨.boolean true, true⟩
    let deep : Activation := .ofFunction ⟨"deep", 3, ["y"]⟩
    let entered := [Action.perform (.define "x"), .perform (.store ⟨0, 0, ⟨0⟩⟩ constant),
      .enter deep []].foldl step (start {} ())
    let shadowed := (Display.define "x").after entered.display
    entered.display.frame? 1 = none ∧
      entered.display.resolve? "x" = some ⟨0, 0, ⟨0⟩⟩ ∧
      entered.display.lookup "x" = .ok constant ∧
      shadowed.resolve? "x" = some ⟨3, 1, ⟨1⟩⟩ ∧
      shadowed.lookup "x" = .error (.uninitializedVariable "x") ∧
      shadowed.resolve? "y" = entered.display.resolve? "y" := by
  intro constant deep entered shadowed
  have hdeep : deep.Built [] := ⟨deep, rfl, rfl⟩
  have hentered : Reaches Genuine (start {} ()) entered :=
    (((Reaches.refl _).step (.perform (.define "x")) trivial).step
      (.perform (.store ⟨0, 0, ⟨0⟩⟩ constant)) trivial).step (.enter deep []) hdeep
  have hlevel : entered.display.level = 3 := by decide +kernel
  have hpolicy : entered.display.redefinition = .reject := by decide +kernel
  have hmain : entered.display.frame? 0 =
      some ⟨⟨0⟩, { function := .main, slots := #[⟨"x", some constant⟩], visible := [("x", 0)] }⟩ := by
    decide +kernel
  have hinner : entered.display.frame? entered.display.level = some ⟨⟨1⟩, deep⟩ := by
    decide +kernel
  have hempty : shadowed.frame? 3 = some ⟨⟨1⟩, deep.withVariable "x"⟩ := by decide +kernel
  have houter : entered.display.resolve? "x" = some ⟨0, 0, ⟨0⟩⟩ := by decide +kernel
  have hdefined : (Display.define "x").answer entered.display = .ok ⟨3, 1, ⟨1⟩⟩ := by
    rw [Display.answer_define "x" hinner, hlevel, hpolicy]
    rfl
  obtain ⟨_, _, _, _, _, hdefine⟩ := resolution_exact hentered "x"
  obtain ⟨hfound, _, hothers⟩ := hdefine _ hdefined
  have hissued : entered.display.issuer ⟨0, 0, ⟨0⟩⟩ = .ok _ := Display.issuer_of_frame? hmain rfl
  have hissuedInner : shadowed.issuer ⟨3, 1, ⟨1⟩⟩ = .ok _ := Display.issuer_of_frame? hempty rfl
  refine ⟨by decide +kernel, houter, ?_, hfound, ?_, hothers "y" (by decide)⟩
  · rw [Display.lookup_of_resolve houter, Display.get_of_issuer hissued]
    rfl
  · rw [Display.lookup_of_resolve hfound, Display.get_of_issuer hissuedInner]
    rfl

end Execution

end InterpreterCore

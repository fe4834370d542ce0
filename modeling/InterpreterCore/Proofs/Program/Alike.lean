import InterpreterCore.Proofs.Program.Apart

namespace InterpreterCore

variable {σ α : Type}

/-- Two displays agree on some levels: they have the same frames there, and nothing but their frames
    at other levels tells them apart. -/
structure Display.Agree (own : Nat → Prop) (first second : Display) : Prop where
  level : second.level = first.level
  nextStamp : second.nextStamp = first.nextStamp
  levelLimit : second.levelLimit = first.levelLimit
  redefinition : second.redefinition = first.redefinition
  classes : second.classes = first.classes
  interfaces : second.interfaces = first.interfaces
  frames : ∀ level, own level → second.frame? level = first.frame? level

/-- Two machines on which a program runs alike: their displays agree on the program's own levels,
    and on both of them the other frames are apart. Where fields are open to the program, the
    instances of both have the same ones. -/
structure Machine.Alike (home base : Nat) (fields : Prop) (own : Nat → Prop) (count : Nat)
    (held : List Reference) (first second : Machine σ) : Prop where
  agree : first.display.Agree own second.display
  firstApart : first.display.Apart home base own count held
  secondApart : second.display.Apart home base own count held
  heap : fields → second.heap = first.heap

namespace Display

variable {own : Nat → Prop} {first second : Display}

theorem issuer_congr {reference : Reference}
    (hframe : second.frame? reference.depth = first.frame? reference.depth) :
    second.issuer reference = first.issuer reference := by
  rw [issuer, issuer, hframe]

theorem get_congr {reference : Reference}
    (hissuer : second.issuer reference = first.issuer reference) :
    second.get reference = first.get reference := by
  rw [get, get, hissuer]

namespace Agree

section Scopes

variable (hagree : first.Agree own second) (hscopes : ∀ level, level ≤ first.level → own level)
include hagree hscopes

theorem current : second.frame? second.level = first.frame? first.level := by
  rw [hagree.level]
  exact hagree.frames _ (hscopes _ (Nat.le_refl _))

/-- A search from the current level finds the same on both. -/
theorem innermost?_eq (find : Nat → Frame → Option α) :
    second.innermost? find = first.innermost? find := by
  rw [innermost?, innermost?, hagree.level]
  exact searchFrom_congr find fun level hlevel => hagree.frames level (hscopes level hlevel)

theorem lookup_eq (name : String) : second.lookup name = first.lookup name := by
  have hresolve : second.resolve? name = first.resolve? name := hagree.innermost?_eq hscopes _
  rw [lookup, lookup, hresolve]
  cases hfound : first.resolve? name with
  | none => rfl
  | some reference =>
    have hdepth := (exists_frame_of_resolve hfound).1
    exact get_congr (issuer_congr (hagree.frames _ (hscopes _ hdepth)))

/-- An operation whose answer depends on the frame of the current scope alone, besides the policy
    and which level it is, has the same answer on both. -/
theorem answer_eq_of_current {operation : Update Display α}
    (vacant : Nat → Outcome α) (inFrame : Redefinition → Nat → Frame → Outcome α)
    (hvacant : ∀ display, display.frame? display.level = none →
      operation.answer display = vacant display.level)
    (hinFrame : ∀ display frame, display.frame? display.level = some frame →
      operation.answer display = inFrame display.redefinition display.level frame) :
    operation.answer second = operation.answer first := by
  have hcurrent := hagree.current hscopes
  cases hframe : first.frame? first.level with
  | none => rw [hvacant first hframe, hvacant second (hcurrent.trans hframe), hagree.level]
  | some frame =>
    rw [hinFrame first frame hframe, hinFrame second frame (hcurrent.trans hframe),
      hagree.redefinition, hagree.level]

theorem answer_declare_eq (decl : FunctionDecl) :
    (declare decl).answer second = (declare decl).answer first :=
  hagree.answer_eq_of_current hscopes (fun level => .error (.vacantLevel level))
    (fun policy _ frame => (Activation.declare policy decl).answer frame.activation)
    (fun _ hvacant => answer_declare_of_vacant decl hvacant)
    (fun _ _ hframe => answer_declare decl hframe)

end Scopes

/-- An edit of a level on which two displays agree leaves them in agreement. -/
theorem editAt (hagree : first.Agree own second) {level : Nat} (hown : own level) (edit : Edit) :
    (first.editAt level edit).Agree own (second.editAt level edit) := by
  rw [editAt_eq_with_frames first, editAt_eq_with_frames second]
  obtain ⟨hlevel, hnext, hlimit, hpolicy, hclasses, hinterfaces, hframes⟩ := hagree
  refine ⟨hlevel, hnext, hlimit, hpolicy, hclasses, hinterfaces, fun other hother => ?_⟩
  show (second.editAt level edit).frame? other = (first.editAt level edit).frame? other
  rw [frame?_editAt, frame?_editAt, hframes level hown, hframes other hother]

theorem install (hagree : first.Agree own second) (activation : Activation) :
    (first.install activation).Agree (fun level => own level ∨ level = activation.level)
      (second.install activation) := by
  obtain ⟨hlevel, hnext, hlimit, hpolicy, hclasses, hinterfaces, hframes⟩ := hagree
  refine ⟨rfl, congrArg Stamp.next hnext, hlimit, hpolicy, hclasses, hinterfaces, ?_⟩
  intro level hown
  rw [frame?_install, frame?_install, hnext]
  split
  · rfl
  · rename_i hne
    exact hframes level (hown.resolve_right hne)

end Agree

end Display

section Answers

variable {home base count : Nat} {fields : Prop} {own : Nat → Prop} {held : List Reference}
  {first second : Machine σ}

/-- What a program holds leads to the same frame on both, or is stale on both. -/
theorem Machine.Alike.issuer_eq (halike : first.Alike home base fields own count held second)
    (hcount : count ≤ UInt64.size) {reference : Reference}
    (hgiven : reference.depth ≤ home ∨ reference ∈ held) :
    second.display.issuer reference = first.display.issuer reference := by
  by_cases hown : own reference.depth
  · exact Display.issuer_congr (halike.agree.frames _ hown)
  · rw [halike.secondApart.stale hcount hgiven hown, halike.firstApart.stale hcount hgiven hown]

theorem Query.answer_eq (halike : first.Alike home base fields own count held second)
    (hcount : count ≤ UInt64.size) {query : Query α}
    (hconfined : query.Confined home fields held first.display.level) :
    query.answer second = query.answer first := by
  have hagree := halike.agree
  have hscopes := halike.firstApart.scopes
  have hcurrent := hagree.current hscopes
  cases query with
  | level => rw [answer, answer, hagree.level]
  | levelLimit => rw [answer, answer, hagree.levelLimit]
  | redefinition => rw [answer, answer, hagree.redefinition]
  | activation depth =>
    rw [answer, answer, Display.activation?, Display.activation?,
      hagree.frames depth (hscopes depth hconfined)]
  | innerLevel =>
    rw [answer, answer, Display.innerLevel, Display.innerLevel, Display.allow, Display.allow,
      hagree.level, hagree.levelLimit]
  | resolve name => exact congrArg Except.ok (hagree.innermost?_eq hscopes _)
  | lookup name => exact hagree.lookup_eq hscopes name
  | get reference => exact Display.get_congr (halike.issuer_eq hcount hconfined)
  | variableNames =>
    rw [answer, answer, Display.variableNames, Display.variableNames, Display.activation?,
      Display.activation?, hcurrent]
  | function name => exact congrArg Except.ok (hagree.innermost?_eq hscopes _)
  | requireFunction name =>
    have hfunction : second.display.function? name = first.display.function? name :=
      hagree.innermost?_eq hscopes _
    rw [answer, answer, Display.requireFunction, Display.requireFunction, hfunction]
  | functionHere name =>
    rw [answer, answer, Display.functionHere?, Display.functionHere?, Display.activation?,
      Display.activation?, hcurrent]
  | functions =>
    rw [answer, answer, Display.functions, Display.functions, Display.activation?,
      Display.activation?, hcurrent]
  | classes => rw [answer, answer, hagree.classes]
  | requireClass name =>
    rw [answer, answer, Display.requireClass, Display.requireClass, hagree.classes]
  | interfaces => rw [answer, answer, hagree.interfaces]
  | requireInterface name =>
    rw [answer, answer, Display.requireInterface, Display.requireInterface, hagree.interfaces]
  | field o name => rw [answer, answer, halike.heap hconfined]

namespace Operation

theorem answer_eq (halike : first.Alike home base fields own count held second)
    (hcount : count ≤ UInt64.size) {operation : Operation α}
    (hconfined : operation.Confined home fields held first.display.level) :
    operation.run.answer second = operation.run.answer first := by
  have hagree := halike.agree
  have hscopes := halike.firstApart.scopes
  have hcurrent := hagree.current hscopes
  cases operation with
  | ask query =>
    rw [run, Update.answer_read, Update.answer_read]
    exact Query.answer_eq halike hcount hconfined
  | define name =>
    rw [run, Machine.answer_onDisplay, Machine.answer_onDisplay]
    exact hagree.answer_eq_of_current hscopes (fun level => .error (.vacantLevel level))
      (fun policy level frame => ((Activation.define policy name).answer frame.activation).map
        fun slot => ⟨level, slot, frame.stamp⟩)
      (fun _ hvacant => Display.answer_define_of_vacant name hvacant)
      (fun _ _ hframe => Display.answer_define name hframe)
  | remove name =>
    rw [run, Machine.answer_onDisplay, Machine.answer_onDisplay]
    exact hagree.answer_eq_of_current hscopes (fun _ => .ok false)
      (fun _ _ frame => .ok (frame.activation.slotOf? name).isSome)
      (fun _ hvacant => Display.answer_remove_of_vacant name hvacant)
      (fun _ _ hframe => Display.answer_remove name hframe)
  | store reference value =>
    rw [run, Machine.answer_onDisplay, Machine.answer_onDisplay, Display.store, Display.onIssuer,
      Update.answer_within, Update.answer_within, halike.issuer_eq hcount hconfined]
  | assign reference value =>
    rw [run, Machine.answer_onDisplay, Machine.answer_onDisplay, Display.assign, Display.onIssuer,
      Update.answer_within, Update.answer_within, halike.issuer_eq hcount hconfined]
  | declare decl =>
    rw [run, Machine.answer_onDisplay, Machine.answer_onDisplay]
    exact hagree.answer_declare_eq hscopes decl
  | declareInner name parameters =>
    rw [run, Machine.answer_onDisplay, Machine.answer_onDisplay, Display.answer_declareInner,
      Display.answer_declareInner, hagree.answer_declare_eq hscopes, hagree.level,
      hagree.levelLimit]
  | undeclare name =>
    rw [run, Machine.answer_onDisplay, Machine.answer_onDisplay]
    exact hagree.answer_eq_of_current hscopes (fun _ => .ok none)
      (fun _ _ frame => .ok (frame.activation.function? name))
      (fun _ hvacant => Display.answer_undeclare_of_vacant name hvacant)
      (fun _ _ hframe => Display.answer_undeclare name hframe)
  | declareClass decl =>
    rw [run, Machine.answer_onDisplay, Machine.answer_onDisplay, Display.answer_declareClass,
      Display.answer_declareClass, hagree.redefinition, hagree.classes]
  | declareInterface decl =>
    rw [run, Machine.answer_onDisplay, Machine.answer_onDisplay, Display.answer_declareInterface,
      Display.answer_declareInterface, hagree.redefinition, hagree.interfaces]
  | allocate className =>
    show Except.ok (second.heap.allocate className).1 = Except.ok (first.heap.allocate className).1
    rw [halike.heap hconfined]
  | setField o name value => rfl

/-- Whether and where an operation makes an edit is the same on both. -/
theorem edit?_eq (halike : first.Alike home base fields own count held second)
    (hcount : count ≤ UInt64.size) {operation : Operation α}
    (hconfined : operation.Confined home fields held first.display.level) :
    operation.edit? second.display = operation.edit? first.display := by
  have hagree := halike.agree
  cases operation with
  | define name => rw [edit?, edit?, hagree.level, hagree.redefinition]
  | remove name => rw [edit?, edit?, hagree.level]
  | store reference value => rw [edit?, edit?, halike.issuer_eq hcount hconfined]
  | assign reference value => rw [edit?, edit?, halike.issuer_eq hcount hconfined]
  | declare decl => rw [edit?, edit?, hagree.level, hagree.redefinition]
  | declareInner name parameters =>
    rw [edit?, edit?, hagree.level, hagree.redefinition, hagree.levelLimit]
  | undeclare name => rw [edit?, edit?, hagree.level]
  | _ => rfl

theorem heap_eq (halike : first.Alike home base fields own count held second)
    (operation : Operation α) :
    fields → (operation.run.after second).heap = (operation.run.after first).heap := by
  intro hfields
  have hheap := halike.heap hfields
  cases operation with
  | ask query => rw [run, Update.after_read, Update.after_read, hheap]
  | allocate className => exact congrArg (fun heap => (heap.allocate className).2) hheap
  | setField o name value => exact congrArg (fun heap => heap.setField o name value) hheap
  | _ => simpa only [run, Machine.after_onDisplay] using hheap

/-- A confined operation has the same answer on both machines and leaves them alike. -/
theorem alike_after (halike : first.Alike home base fields own count held second)
    (hcount : count ≤ UInt64.size) {operation : Operation α}
    (hconfined : operation.Confined home fields held first.display.level) :
    (operation.run.after first).Alike home base fields own count
      (held ++ operation.handed (operation.run.answer first)) (operation.run.after second) where
  agree := by
    have hedit := edit?_eq halike hcount hconfined
    cases hfirst : operation.edit? first.display with
    | none =>
      have hafter := operation.display_after first
      have hother := operation.display_after second
      rw [hfirst] at hafter
      rw [hedit, hfirst] at hother
      rw [hafter, hother]
      obtain ⟨hlevel, hnext, hlimit, hpolicy, hclasses, hinterfaces, hframes⟩ := halike.agree
      exact ⟨hlevel, hnext, hlimit, hpolicy, by rw [hpolicy, hclasses],
        by rw [hpolicy, hinterfaces], hframes⟩
    | some made =>
      rw [display_of_edit hfirst, display_of_edit (hedit.trans hfirst)]
      exact halike.agree.editAt (own_of_edit halike.firstApart hcount hconfined hfirst) made.2
  firstApart := (apart_after halike.firstApart hcount hconfined).1
  secondApart := by
    rw [← answer_eq halike hcount hconfined]
    exact (apart_after halike.secondApart hcount (halike.agree.level ▸ hconfined)).1
  heap := heap_eq halike operation

end Operation

end Answers

namespace Machine

variable {home base count last : Nat} {fields : Prop} {own : Nat → Prop}
  {held holds : List Reference} {first second firstEnded secondEnded : Machine σ}
  {activation : Activation}

/-- The body of a call starts on machines that are alike at the level of the call, too. -/
theorem Alike.entered (halike : first.Alike home base fields own count held second)
    (hlevel : activation.level ≤ first.display.level + 1) :
    (first.entered activation).Alike home base fields
      (fun level => own level ∨ level = activation.level) (count + 1) held
      (second.entered activation) where
  agree := halike.agree.install activation
  firstApart := halike.firstApart.install hlevel
  secondApart := halike.secondApart.install (halike.agree.level ▸ hlevel)
  heap := halike.heap

/-- When the bodies have ended alike, the calls leave machines that are alike. -/
theorem Alike.left (halike : first.Alike home base fields own count held second)
    (hcount : count ≤ last)
    (hended : firstEnded.Alike home base fields (fun level => own level ∨ level = activation.level)
      last holds secondEnded) :
    (first.left activation firstEnded).Alike home base fields own last holds
      (second.left activation secondEnded) where
  agree := by
    obtain ⟨_, hnext, hlimit, hpolicy, hclasses, hinterfaces, hframes⟩ := hended.agree
    refine ⟨halike.agree.level, hnext, hlimit, hpolicy, hclasses, hinterfaces, ?_⟩
    intro level hown
    rw [Machine.left, Machine.left, Display.frame?_restore, Display.frame?_restore]
    split
    · rename_i heq
      exact halike.agree.frames _ (heq ▸ hown)
    · exact hframes level (.inl hown)
  firstApart := left_apart halike.firstApart hcount hended.firstApart
  secondApart := left_apart halike.secondApart hcount hended.secondApart
  heap := hended.heap

end Machine

namespace Program

/-- A program runs alike on two machines: with the same steps and the same end, after which the
    machines are alike again, and with no effect on the frames apart on either of them. -/
structure RunsAlike (home base : Nat) (fields : Prop) (own : Nat → Prop) (count : Nat)
    (held : List Reference) (program : Program) (first second : Machine σ) : Prop where
  steps : program.steps second = program.steps first
  answer : program.run.answer second = program.run.answer first
  alike : (program.run.after first).Alike home base fields own
    (count + Step.installed (program.steps first)) (Step.holding held (program.steps first))
    (program.run.after second)
  firstSame : first.display.SameApart own (program.run.after first).display
  secondSame : second.display.SameApart own (program.run.after second).display

section Runs

variable {home base count : Nat} {fields : Prop} {own : Nat → Prop} {held : List Reference}
  {first second : Machine σ}

theorem runsAlike_done (result : Outcome Value)
    (halike : first.Alike home base fields own count held second) :
    (done result).RunsAlike home base fields own count held first second := by
  have hholding : Step.holding held [] = held := List.append_nil held
  refine ⟨rfl, ?_, ?_, ?_, ?_⟩
  · rw [run, Update.answer_read, Update.answer_read]
  · rw [steps, hholding, run, Update.after_read, Update.after_read]
    exact halike
  · rw [run, Update.after_read]
    exact fun _ _ => rfl
  · rw [run, Update.after_read]
    exact fun _ _ => rfl

theorem runsAlike_perform {operation : Operation α} {next : Outcome α → Program}
    (halike : first.Alike home base fields own count held second) (hcount : count ≤ UInt64.size)
    (hconfined : operation.Confined home fields held first.display.level)
    (hnext : (next (operation.run.answer first)).RunsAlike home base fields own count
      (held ++ operation.handed (operation.run.answer first)) (operation.run.after first)
      (operation.run.after second)) :
    (perform operation next).RunsAlike home base fields own count held first second := by
  have hanswer := Operation.answer_eq halike hcount hconfined
  have hfirst := (Operation.apart_after halike.firstApart hcount hconfined).2
  have hsecond := (Operation.apart_after halike.secondApart hcount
    (halike.agree.level ▸ hconfined)).2
  refine ⟨?_, ?_, ?_, ?_, ?_⟩
  · rw [steps, steps, hanswer, halike.agree.level, hnext.steps]
  · rw [answer_perform, answer_perform, hanswer, hnext.answer]
  · rw [steps, Step.installed, Step.holding_cons, Step.holding_performed, after_perform,
      after_perform, hanswer, Step.installs, Nat.zero_add]
    exact hnext.alike
  · intro level hforeign
    rw [after_perform, hnext.firstSame level hforeign, hfirst level hforeign]
  · intro level hforeign
    rw [after_perform, hanswer, hnext.secondSame level hforeign, hsecond level hforeign]

variable {activation : Activation} {body : FunctionDecl → Program}

/-- A program that makes a call runs alike if the call does, and if what comes after it does. -/
theorem runsAlike_call {next : Outcome Value → Program}
    (hcall : (call activation body done).RunsAlike home base fields own count held first second)
    (hnext : (next ((Machine.call activation (evaluator body)).answer first)).RunsAlike home base
      fields own (count + Step.installed ((call activation body done).steps first))
      (Step.holding held ((call activation body done).steps first))
      ((Machine.call activation (evaluator body)).after first)
      ((Machine.call activation (evaluator body)).after second)) :
    (call activation body next).RunsAlike home base fields own count held first second := by
  obtain ⟨hsteps, hanswer, _, hfirst, hsecond⟩ := hcall
  rw [answer_call_done, answer_call_done] at hanswer
  rw [after_call_done] at hfirst hsecond
  refine ⟨?_, ?_, ?_, ?_, ?_⟩
  · rw [steps_call_append next, steps_call_append next, hsteps, hanswer, hnext.steps]
  · rw [answer_call, answer_call, hanswer, hnext.answer]
  · rw [steps_call_append next, Step.installed_append, Step.holding_append, after_call, after_call,
      hanswer, ← Nat.add_assoc]
    exact hnext.alike
  · intro level hforeign
    rw [after_call, hnext.firstSame level hforeign, hfirst level hforeign]
  · intro level hforeign
    rw [after_call, hanswer, hnext.secondSame level hforeign, hsecond level hforeign]

theorem runsAlike_call_of_refused (hrefused : first.display.levelLimit ≤ activation.level)
    (halike : first.Alike home base fields own count held second) :
    (call activation body done).RunsAlike home base fields own count held first second := by
  have hlimit := halike.agree.levelLimit
  have hother : second.display.levelLimit ≤ activation.level := hlimit ▸ hrefused
  have hanswer {machine : Machine σ} (hrefused : machine.display.levelLimit ≤ activation.level) :
      (call activation body done).run.answer machine =
        .error (.nestingLimitExceeded activation.level machine.display.levelLimit) := by
    rw [answer_call_done, Update.answer, Machine.call_of_refused _ hrefused]
  have hafter {machine : Machine σ} (hrefused : machine.display.levelLimit ≤ activation.level) :
      (call activation body done).run.after machine = machine := by
    rw [after_call_done, Update.after, Machine.call_of_refused _ hrefused]
  refine ⟨?_, ?_, ?_, ?_, ?_⟩
  · rw [steps_call_of_refused hrefused, steps_call_of_refused hother, halike.agree.level, hlimit]
  · rw [hanswer hrefused, hanswer hother, hlimit]
  · have hholding : Step.holding held ((call activation body done).steps first) = held := by
      rw [steps_call_of_refused hrefused]
      exact List.append_nil held
    rw [hholding, steps_call_of_refused hrefused, hafter hrefused, hafter hother]
    exact halike
  · rw [hafter hrefused]
    exact fun _ _ => rfl
  · rw [hafter hother]
    exact fun _ _ => rfl

theorem runsAlike_call_of_room (hroom : activation.level < first.display.levelLimit)
    (halike : first.Alike home base fields own count held second)
    (hbody : (body activation.function).RunsAlike home base fields
      (fun level => own level ∨ level = activation.level) (count + 1) held
      (first.entered activation) (second.entered activation)) :
    (call activation body done).RunsAlike home base fields own count held first second := by
  have hother : activation.level < second.display.levelLimit := halike.agree.levelLimit ▸ hroom
  have hanswer {machine : Machine σ} (hroom : activation.level < machine.display.levelLimit) :
      (call activation body done).run.answer machine =
        (body activation.function).run.answer (machine.entered activation) := by
    rw [answer_call_done, Machine.answer_call _ hroom, evaluator]
  have hafter {machine : Machine σ} (hroom : activation.level < machine.display.levelLimit) :
      (call activation body done).run.after machine = machine.left activation
        ((body activation.function).run.after (machine.entered activation)) := by
    rw [after_call_done, Machine.after_call _ hroom, evaluator]
  refine ⟨?_, ?_, ?_, ?_, ?_⟩
  · rw [steps_call hroom, steps_call hother, halike.agree.level, hbody.steps, hbody.answer]
  · rw [hanswer hroom, hanswer hother, hbody.answer]
  · rw [steps_call hroom, Step.installed_call, Step.holding_call, hafter hroom, hafter hother,
      Nat.add_comm _ 1, ← Nat.add_assoc]
    exact halike.left (by omega) hbody.alike
  · rw [hafter hroom]
    exact Machine.left_sameApart hbody.firstSame
  · rw [hafter hother]
    exact Machine.left_sameApart hbody.secondSame

end Runs

variable {home base : Nat} {fields : Prop}

/-- A confined program runs alike on machines that are alike. The induction is on the program: the
    body of a call runs with one more level of its own, and the number of installations and the
    references in hand grow from step to step. -/
theorem runsAlike (program : Program) {own : Nat → Prop} {count : Nat} {held : List Reference}
    {first second : Machine σ} (halike : first.Alike home base fields own count held second)
    (hconfined : Step.AllConfined home fields held (program.steps first))
    (hinstalled : count + Step.installed (program.steps first) ≤ UInt64.size) :
    program.RunsAlike home base fields own count held first second := by
  induction program generalizing own count held first second with
  | done result => exact runsAlike_done result halike
  | perform operation next ih =>
    obtain ⟨hoperation, hrest⟩ := hconfined
    rw [steps, Step.installed] at hinstalled
    rw [Step.holding_performed] at hrest
    have hcount : count ≤ UInt64.size := by omega
    have hafter := Operation.alike_after halike hcount hoperation
    have hnext := ih _ hafter hrest (by omega)
    exact runsAlike_perform halike hcount hoperation hnext
  | call activation body next ihbody ihnext =>
    rw [steps_call_append next, Step.allConfined_append] at hconfined
    rw [steps_call_append next, Step.installed_append] at hinstalled
    obtain ⟨hinside, hrest⟩ := hconfined
    -- The call by itself first: its body sees one more level, which is gone again afterwards.
    have hcall : (call activation body done).RunsAlike home base fields own count held first
        second := by
      by_cases hroom : activation.level < first.display.levelLimit
      · rw [steps_call hroom, Step.allConfined_call] at hinside
        rw [steps_call hroom, Step.installed_call] at hinstalled
        have hbody := ihbody activation.function (halike.entered hinside.1) hinside.2 (by omega)
        exact runsAlike_call_of_room hroom halike hbody
      · exact runsAlike_call_of_refused (Nat.le_of_not_lt hroom) halike
    have hended := hcall.alike
    rw [after_call_done, after_call_done] at hended
    exact runsAlike_call hcall (ihnext _ hended hrest (by omega))

end Program

end InterpreterCore

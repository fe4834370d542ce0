import InterpreterCore.Proofs.Display.Search
import InterpreterCore.Proofs.Execution.Serial
import InterpreterCore.Proofs.Execution.Simulation

namespace InterpreterCore

/-- What is found on the way from a call along the static links. The calls that are passed over
    have not been linked to. -/
def Record.walk {α : Type} (find : Nat → Frame → Option α) : Option Nat → List Record → Option α
  | none, _ => none
  | some _, [] => none
  | some serial, record :: outer =>
    if record.call.serial = serial then
      (find record.call.level record.frame).or (walk find record.call.link outer)
    else walk find (some serial) outer

/-- Every open call is linked to the call that was in place one level below its own when it began,
    at the caller's level or further out, and the main function is linked to none. -/
def Linked : List OpenCall → Prop
  | [] => False
  | [call] => call = .main
  | inner :: current :: rest =>
    (∃ definer, OpenCall.at? (current :: rest) definer.level = some definer ∧
      definer.level ≤ current.level ∧ inner.level = definer.level + 1 ∧
      inner.link = some definer.serial) ∧
    Linked (current :: rest)

/-- The levels of linked calls are a static chain, from the level of the innermost call down to
    zero. -/
theorem Linked.chain {current : OpenCall} {rest : List OpenCall}
    (hlinked : Linked (current :: rest)) {level : Nat} (hlevel : level < current.level) :
    ∃ outer inner, OpenCall.at? (current :: rest) level = some outer ∧
      OpenCall.at? (current :: rest) (level + 1) = some inner ∧
      inner.link = some outer.serial := by
  induction rest generalizing current with
  | nil =>
    obtain rfl : current = .main := hlinked
    exact absurd hlevel (Nat.not_lt_zero level)
  | cons caller rest ih =>
    obtain ⟨⟨definer, hdefiner, hvisible, hinner, hlink⟩, hcaller⟩ := hlinked
    rw [OpenCall.at?_cons current, OpenCall.at?_cons current, if_neg (by omega)]
    by_cases htop : level = definer.level
    · rw [if_pos (by omega), htop]
      exact ⟨definer, current, hdefiner, rfl, hlink⟩
    · rw [if_neg (by omega)]
      exact ih hcaller (by omega)

/-- What a search level by level finds from the level of a call is what a walk along the static
    links finds from that call. -/
theorem searchFrom_eq_walk {α : Type} (find : Nat → Frame → Option α) {display : Display}
    {current : Record} {rest : List Record}
    (hlinked : Linked ((current :: rest).map Record.call))
    (hdescending : OpenCall.Descending ((current :: rest).map Record.call))
    {level : Nat} (hlevel : level ≤ current.call.level) {record : Record}
    (hrecord : Record.at? (current :: rest) level = some record)
    (hframes : ∀ depth ≤ level,
      display.frame? depth = (Record.at? (current :: rest) depth).map Record.frame) :
    display.searchFrom find level =
      Record.walk find (some record.call.serial) (current :: rest) := by
  induction rest generalizing current level record with
  | nil =>
    have hmain : current.call = .main := hlinked
    have hcurrent : current.call.level = 0 := by rw [hmain]; rfl
    obtain rfl : level = 0 := by omega
    rw [Record.at?_cons, if_pos hcurrent] at hrecord
    obtain rfl := Option.some.inj hrecord
    rw [Display.searchFrom, hframes 0 (Nat.le_refl 0), Record.at?_cons, if_pos hcurrent,
      Record.walk, if_pos rfl, hcurrent, hmain]
    simp [Record.walk, OpenCall.main]
  | cons caller rest ih =>
    obtain ⟨⟨definer, hdefiner, hvisible, hinner, hlink⟩, hcaller⟩ := hlinked
    obtain ⟨hnewest, hdescending⟩ := List.pairwise_cons.mp hdescending
    -- Below the level of the current call, the records are those of its caller.
    have houter : ∀ depth ≤ definer.level,
        Record.at? (current :: caller :: rest) depth = Record.at? (caller :: rest) depth :=
      fun depth hdepth => by rw [Record.at?_cons current, if_neg (by omega)]
    by_cases htop : level = current.call.level
    · subst htop
      rw [Record.at?_cons, if_pos rfl] at hrecord
      obtain rfl := Option.some.inj hrecord
      rw [← List.map_cons, ← Record.map_call_at?] at hdefiner
      obtain ⟨outer, hat, rfl⟩ := Option.map_eq_some_iff.mp hdefiner
      have hhere : display.searchFrom find current.call.level =
          (find current.call.level current.frame).or
            (display.searchFrom find outer.call.level) := by
        rw [hinner, Display.searchFrom_succ, ← hinner, hframes _ (Nat.le_refl _),
          Record.at?_cons, if_pos rfl]
        rfl
      have hrest := ih hcaller hdescending hvisible hat fun depth hdepth => by
        rw [hframes depth (by omega), houter depth hdepth]
      rw [Record.walk, if_pos rfl, hlink, hhere, hrest]
    · rw [houter level (by omega)] at hrecord
      have hserial : current.call.serial ≠ record.call.serial :=
        Nat.ne_of_gt (hnewest _ (List.mem_map_of_mem (Record.mem_of_at? hrecord)))
      rw [Record.walk, if_neg hserial]
      exact ih hcaller hdescending (by omega) hrecord fun depth hdepth => by
        rw [hframes depth hdepth, houter depth (by omega)]

namespace Operation

variable {α : Type}

/-- The operation does not put a function of a level of its own choice into the current scope. -/
def LevelsFunctions : Operation α → Prop
  | declare _ => False
  | _ => True

/-- A function that is declared by the level of its scope runs one level deeper. -/
theorem level_of_edit? {operation : Operation α} (hlevels : operation.LevelsFunctions)
    {display : Display} {level : Nat} {policy : Redefinition} {decl : FunctionDecl}
    (hedit : operation.edit? display = some (level, .declare policy decl)) :
    decl.level = level + 1 := by
  cases operation with
  | declare new => cases hlevels
  | declareInner name parameters =>
    simp only [edit?] at hedit
    split at hedit <;> cases hedit
    rfl
  | store reference value =>
    simp only [edit?] at hedit
    split at hedit <;> cases hedit
  | assign reference value =>
    simp only [edit?] at hedit
    split at hedit
    · split at hedit <;> cases hedit
    · cases hedit
  | define name => cases hedit
  | remove name => cases hedit
  | undeclare name => cases hedit
  | ask query => cases hedit
  | declareClass new => cases hedit
  | declareInterface new => cases hedit
  | allocate className => cases hedit
  | setField o name value => cases hedit

end Operation

namespace Execution

variable {σ : Type}

/-- Runs in which functions are declared by the level of their scope, and in which each call is of
    a function that is found where the call is made, with an activation that has no functions of
    its own yet. -/
def Lexical (execution : Execution σ) : Action → Prop
  | .perform operation => operation.LevelsFunctions
  | .enter activation _ =>
    activation.functions = [] ∧
      ∃ name, execution.display.function? name = some activation.function
  | .leave => True

theorem machineRule_lexical : MachineRule (Lexical : Execution σ → Action → Prop) where
  onMachine {execution action} hlexical other hmachine := by
    cases action with
    | perform operation => exact hlexical
    | enter activation past =>
      obtain ⟨hempty, name, hfound⟩ := hlexical
      exact ⟨hempty, name, by rw [display, hmachine]; exact hfound⟩
    | leave => trivial
  returns _ := trivial

/-- What is found on the way from the running activation along the static links. -/
def walk {α : Type} (execution : Execution σ) (find : Nat → Frame → Option α) : Option α :=
  Record.walk find (execution.calls.head?.map OpenCall.serial) execution.records

/-- The activation of an open call is in place at a level, under the mark of its number. -/
structure InPlace (execution : Execution σ) (level : Nat) (record : Record) : Prop where
  mem : record ∈ execution.records
  holder : execution.holder? level = some record.call
  frame : execution.display.frame? level = some record.frame
  stamp : record.frame.stamp = .ofSerial record.call.serial

/-- The activation in place after a level is linked to the one in place at that level. -/
def LinkedAt (execution : Execution σ) (level : Nat) : Prop :=
  ∃ inner outer, execution.InPlace (level + 1) inner ∧ execution.InPlace level outer ∧
    inner.call.link = some outer.call.serial

/-- What lexical runs keep: calls are linked, and every declared function runs one level deeper
    than the activation that declares it. -/
structure Chained (execution : Execution σ) (records : List Record) : Prop where
  shows : execution.Shows records
  numbered : execution.Numbered records
  linked : Linked (records.map Record.call)
  levels : ∀ record ∈ records, ∀ decl ∈ record.frame.activation.functions,
    decl.level = record.call.level + 1

theorem chained_start (settings : Display.Settings) (host : σ) :
    (start settings host).Chained [⟨.main, ⟨⟨0⟩, .ofFunction .main⟩⟩] where
  shows := shows_start settings host
  numbered := numbered_start settings host
  linked := rfl
  levels := by
    intro record hrecord decl hdecl
    obtain rfl := List.mem_singleton.mp hrecord
    cases hdecl

namespace Chained

variable {execution : Execution σ} {records : List Record}

/-- The static link of a call is the activation in place at the level where its function is
    found. -/
theorem definer?_eq (hchained : execution.Chained records) {name : String} {decl : FunctionDecl}
    (hfound : execution.display.function? name = some decl) :
    ∃ definer, execution.definer? decl.name = some definer ∧
      execution.holder? definer.level = some definer ∧
      definer.level ≤ execution.display.level ∧ decl.level = definer.level + 1 := by
  obtain ⟨rfl, depth, frame, hdecl, hfinds⟩ := Display.exists_finds_function hfound
  obtain ⟨record, hrecord, rfl⟩ := hchained.shows.at?_of_frame? hfinds.frame_eq
  have hholder : execution.holder? depth = some record.call := by
    rw [hchained.shows.holder?_eq, hrecord, Option.map_some]
  have hlevel := Record.level_of_at? hrecord
  refine ⟨record.call, ?_, hlevel ▸ hholder, hlevel ▸ hfinds.depth_le,
    hchained.levels record (Record.mem_of_at? hrecord) decl hdecl⟩
  have hdefines : execution.display.Finds
      (fun level frame => (frame.activation.function? decl.name).bind fun _ =>
        execution.holder? level) execution.display.level record.call depth record.frame := by
    refine ⟨hfinds.depth_le, hfinds.frame_eq, ?_, fun level between habove hlevel hbetween => ?_⟩
    · rw [hfinds.answer, Option.bind_some, hholder]
    · rw [hfinds.unanswered level between habove hlevel hbetween, Option.bind_none]
  exact hdefines.searchFrom_eq

theorem perform (hchained : execution.Chained records) {α : Type} {operation : Operation α}
    (hlevels : operation.LevelsFunctions) :
    (execution.perform operation).Chained
      (Record.edited records (operation.edit? execution.display)) where
  shows := hchained.shows.perform operation
  numbered := hchained.numbered.perform operation
  linked := by
    rw [Record.map_call_edited]
    exact hchained.linked
  levels := by
    intro record hrecord decl hdecl
    obtain hold | ⟨level, edit, old, hedit, hat, rfl⟩ := Record.mem_edited hrecord
    · exact hchained.levels record hold decl hdecl
    · obtain hkept | ⟨policy, rfl⟩ := Activation.mem_functions_apply hdecl
      · exact hchained.levels old (Record.mem_of_at? hat) decl hkept
      · rw [Operation.level_of_edit? hlevels hedit, ← Record.level_of_at? hat]

theorem enter (hchained : execution.Chained records) {activation : Activation} (past : List Edit)
    (hroom : activation.level < execution.display.levelLimit)
    (hempty : activation.functions = []) {name : String}
    (hfound : execution.display.function? name = some activation.function) :
    (execution.enter activation past).Chained (execution.entering activation :: records) where
  shows := hchained.shows.enter past hroom
  numbered := hchained.numbered.enter past hroom
  linked := by
    obtain ⟨definer, hlink, hholder, hvisible, hlevel⟩ := hchained.definer?_eq hfound
    obtain ⟨current, rest, rfl, _⟩ := hchained.shows.current
    have hcurrent := hchained.shows.level_eq
    rw [holder?, hchained.shows.calls] at hholder
    refine ⟨⟨definer, hholder, hcurrent ▸ hvisible, hlevel, ?_⟩, hchained.linked⟩
    rw [entering, hlink, Option.map_some]
  levels := by
    intro record hrecord decl hdecl
    obtain rfl | hold := List.mem_cons.mp hrecord
    · rw [entering, hempty] at hdecl
      cases hdecl
    · exact hchained.levels record hold decl hdecl

theorem tail {inner outer : Record} {rest : List Record}
    (hchained : execution.Chained (inner :: outer :: rest)) :
    execution.leave.Chained (outer :: rest) where
  shows := hchained.shows.leave
  numbered := by
    rw [leave_of_cons hchained.shows.suspended hchained.shows.calls]
    exact hchained.numbered.tail rfl rfl
  linked := hchained.linked.2
  levels record hrecord := hchained.levels record (List.mem_cons_of_mem _ hrecord)

/-- Every action of a lexical run keeps its calls linked. -/
theorem step {last : Execution σ} {after : List Record} {action : Action}
    (hchained : execution.Chained records) (hlexical : execution.Lexical action)
    (hchange : Change execution records action last after) : last.Chained after := by
  cases hchange with
  | perform operation => exact hchained.perform hlexical
  | enter past hroom =>
    obtain ⟨hempty, name, hfound⟩ := hlexical
    exact hchained.enter past hroom hempty hfound
  | leave => exact hchained.tail
  | nothing => exact hchained

theorem inPlace (hchained : execution.Chained records) {level : Nat} {record : Record}
    (hrecord : Record.at? records level = some record) : execution.InPlace level record where
  mem := hchained.shows.records_eq ▸ Record.mem_of_at? hrecord
  holder := by rw [hchained.shows.holder?_eq, hrecord, Option.map_some]
  frame := hchained.shows.frame?_of_at? hrecord
  stamp := hchained.numbered.stamped record (Record.mem_of_at? hrecord)

theorem linkedAt (hchained : execution.Chained records) {level : Nat}
    (hlevel : level < execution.display.level) : execution.LinkedAt level := by
  obtain ⟨current, rest, rfl, _⟩ := hchained.shows.current
  have hcurrent := hchained.shows.level_eq
  obtain ⟨_, _, houter, hinner, hlink⟩ := hchained.linked.chain (hcurrent ▸ hlevel)
  rw [← List.map_cons, ← Record.map_call_at?] at houter hinner
  obtain ⟨outer, hplace, rfl⟩ := Option.map_eq_some_iff.mp houter
  obtain ⟨inner, hnext, rfl⟩ := Option.map_eq_some_iff.mp hinner
  exact ⟨inner, outer, hchained.inPlace hnext, hchained.inPlace hplace, hlink⟩

theorem innermost?_eq_walk (hchained : execution.Chained records) {α : Type}
    (find : Nat → Frame → Option α) : execution.display.innermost? find = execution.walk find := by
  obtain ⟨current, rest, rfl, hrecord⟩ := hchained.shows.current
  have hcurrent := hchained.shows.level_eq
  rw [Display.innermost?, walk, hchained.shows.records_eq, hchained.shows.calls]
  exact searchFrom_eq_walk find hchained.linked hchained.numbered.descending
    (Nat.le_of_eq hcurrent.symm) hrecord fun depth _ => hchained.shows.frames depth

end Chained

theorem Reaches.chained {settings : Display.Settings} {host : σ} {execution : Execution σ}
    (hreaches : Reaches Lexical (start settings host) execution) :
    ∃ records, execution.Chained records := by
  induction hreaches with
  | refl => exact ⟨_, chained_start settings host⟩
  | step _ action hlexical ih =>
    obtain ⟨records, hchained⟩ := ih
    obtain ⟨after, hchange⟩ := hchained.shows.change action
    exact ⟨after, hchained.step hlexical hchange⟩

/-- On every machine that a program meets, in whatever calls, a search finds what a walk along the
    static links finds, as long as the program declares functions by the level of their scope and
    calls what it finds. -/
theorem exists_walk_of_meets {settings : Display.Settings} {host : σ} {program : Program}
    {met : Machine σ} (hkeeps : program.Keeps Lexical (start settings host).machine)
    (hmeets : program.Meets (start settings host).machine met) :
    ∃ execution, Reaches Lexical (start settings host) execution ∧ execution.machine = met ∧
      ∀ {α : Type} (find : Nat → Frame → Option α),
        met.display.innermost? find = execution.walk find := by
  obtain ⟨execution, hreaches, rfl⟩ :=
    exists_reaches_of_meets machineRule_lexical.returns hkeeps hmeets
  obtain ⟨records, hchained⟩ := hreaches.chained
  exact ⟨execution, hreaches, rfl, fun find => hchained.innermost?_eq_walk find⟩

/-- Wherever a lexical run is, in whatever calls, the running activation is in place at the current
    level, the activation at each level up to that one is linked to the activation one level below
    it, and variables and functions are found as along the static links. What the bodies do
    otherwise, how calls follow one another and how they end is not restricted. -/
theorem reachable_staticLinks (settings : Display.Settings) (host : σ) {execution : Execution σ}
    (hreaches : Reaches Lexical (start settings host) execution) :
    execution.holder? execution.display.level = execution.calls.head? ∧
      (∀ level < execution.display.level, execution.LinkedAt level) ∧
      (∀ name, execution.display.resolve? name =
        execution.walk fun depth frame =>
          (frame.activation.slotOf? name).map fun slot => ⟨depth, slot, frame.stamp⟩) ∧
      ∀ name, execution.display.function? name =
        execution.walk fun _ frame => frame.activation.function? name := by
  obtain ⟨records, hchained⟩ := hreaches.chained
  exact ⟨hchained.shows.holder?_level, fun _ hlevel => hchained.linkedAt hlevel,
    fun _ => hchained.innermost?_eq_walk _, fun _ => hchained.innermost?_eq_walk _⟩

/-- A function that is called from its own inner function is linked to the main function again,
    and does not find its inner function there. -/
theorem staticLinks_of_upward_call :
    let outer : FunctionDecl := ⟨"outer", 1, []⟩
    let inner : FunctionDecl := ⟨"inner", 2, []⟩
    let last := [Action.perform (.declareInner "outer" []), .enter (.ofFunction outer) [],
      .perform (.declareInner "inner" []), .enter (.ofFunction inner) [],
      .enter (.ofFunction outer) []].foldl step (start {} ())
    last.display.level = 1 ∧ last.LinkedAt 0 ∧
      (last.walk fun _ frame => frame.activation.function? "inner") = none ∧
      (last.walk fun _ frame => frame.activation.function? "outer") = some outer := by
  intro outer inner last
  have hreaches : Reaches Lexical (start {} ()) last :=
    (((((Reaches.refl _).step (.perform (.declareInner "outer" [])) trivial).step
      (.enter (.ofFunction outer) []) ⟨rfl, "outer", by decide⟩).step
      (.perform (.declareInner "inner" [])) trivial).step
      (.enter (.ofFunction inner) []) ⟨rfl, "inner", by decide⟩).step
      (.enter (.ofFunction outer) []) ⟨rfl, "outer", by decide⟩
  obtain ⟨_, hlinked, _, hfunctions⟩ := reachable_staticLinks {} () hreaches
  have hlevel : last.display.level = 1 := by decide
  refine ⟨hlevel, hlinked 0 (by decide), ?_, ?_⟩
  · rw [← hfunctions]
    decide
  · rw [← hfunctions]
    decide

end Execution

end InterpreterCore

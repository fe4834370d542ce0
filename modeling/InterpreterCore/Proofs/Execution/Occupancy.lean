import InterpreterCore.Proofs.Execution.Record
import InterpreterCore.Proofs.Execution.Simulation
import InterpreterCore.Proofs.Program.Vacancy

namespace InterpreterCore

/-- Level zero and the current level are occupied, the levels stay below the limit, and every
    activation is at its own level. -/
structure Display.WellSeated (display : Display) : Prop where
  main : (display.frame? 0).isSome
  current : (display.frame? display.level).isSome
  level_lt_size : display.level < display.frames.size
  size_le_limit : display.frames.size ≤ display.levelLimit
  own_level : ∀ level frame, display.frame? level = some frame → frame.activation.level = level

namespace Execution

variable {σ : Type}

@[simp]
theorem levelLimit_step (execution : Execution σ) (action : Action) :
    (execution.step action).display.levelLimit = execution.display.levelLimit := by
  cases action with
  | perform operation => exact (operation.keeps_bounds execution.machine).2.2
  | enter activation past =>
    by_cases hroom : activation.level < execution.display.levelLimit
    · rw [step, display_enter past hroom]
      rfl
    · rw [step, enter_of_refused past (Nat.le_of_not_lt hroom)]
  | leave =>
    rw [step, leave]
    split <;> rfl

/-- The limit of a display never changes. -/
theorem Reaches.levelLimit_eq {allowed : Execution σ → Action → Prop} {first last : Execution σ}
    (hreaches : Reaches allowed first last) :
    last.display.levelLimit = first.display.levelLimit := by
  induction hreaches with
  | refl => rfl
  | step _ _ _ ih => rw [levelLimit_step, ih]

/-- No action takes a display past its limit. -/
theorem Shows.size_le_limit {execution last : Execution σ} {records after : List Record}
    {action : Action} (hshows : execution.Shows records)
    (hsize : execution.display.frames.size ≤ execution.display.levelLimit)
    (hchange : Change execution records action last after) :
    last.display.frames.size ≤ execution.display.levelLimit := by
  cases hchange with
  | perform operation =>
    exact Nat.le_trans (Nat.le_of_eq (operation.keeps_bounds execution.machine).1) hsize
  | @enter _ activation past hroom =>
    rw [display_enter past hroom, Display.size_install]
    omega
  | @leave inner outer rest =>
    -- The level that is given back is one at which a frame has just been.
    have hinner : Record.at? (inner :: outer :: rest) inner.call.level = some inner := by
      rw [Record.at?_cons, if_pos rfl]
    have hlevel := Display.lt_size_of_frame? (hshows.frame?_of_at? hinner)
    rw [hshows.display_leave, Display.size_restore]
    omega
  | nothing => exact hsize

/-- The main function stays the outermost open call. -/
theorem Change.getLast?_calls {execution last : Execution σ} {records after : List Record}
    {action : Action} (hchange : Change execution records action last after)
    (hmain : (records.map Record.call).getLast? = some .main) :
    (after.map Record.call).getLast? = some .main := by
  cases hchange with
  | perform operation => rw [Record.map_call_edited, hmain]
  | enter past hroom =>
    rw [List.map_cons, List.getLast?_cons, hmain, Option.getD_some]
  | leave => exact (List.getLast?_cons_cons ..).symm.trans hmain
  | nothing => exact hmain

theorem Shows.wellSeated {execution : Execution σ} {records : List Record}
    (hshows : execution.Shows records)
    (hmain : (records.map Record.call).getLast? = some .main)
    (hsize : execution.display.frames.size ≤ execution.display.levelLimit) :
    execution.display.WellSeated := by
  obtain ⟨inner, rest, _, hinner⟩ := hshows.current
  have hcurrent := hshows.frame?_of_at? hinner
  refine ⟨?_, by rw [hcurrent]; rfl, Display.lt_size_of_frame? hcurrent, hsize, ?_⟩
  · obtain ⟨record, hmem, hcall⟩ := List.mem_map.mp (List.mem_of_getLast? hmain)
    have hzero := Record.isSome_at?_of_mem hmem
    rw [hcall] at hzero
    rw [hshows.frames, Option.isSome_map]
    exact hzero
  · intro level frame hframe
    obtain ⟨record, hrecord, rfl⟩ := hshows.at?_of_frame? hframe
    rw [hshows.own record (Record.mem_of_at? hrecord), Record.level_of_at? hrecord]

theorem Reaches.wellSeated {allowed : Execution σ → Action → Prop} {settings : Display.Settings}
    {host : σ} {execution : Execution σ}
    (hreaches : Reaches allowed (start settings host) execution) :
    execution.display.WellSeated := by
  have hseated : ∃ records, execution.Shows records ∧
      (records.map Record.call).getLast? = some .main ∧
      execution.display.frames.size ≤ execution.display.levelLimit := by
    induction hreaches with
    | refl => exact ⟨_, shows_start settings host, rfl, Nat.le_max_right ..⟩
    | step _ action _ ih =>
      obtain ⟨records, hshows, hmain, hsize⟩ := ih
      obtain ⟨after, hchange⟩ := hshows.change action
      refine ⟨after, hshows.step hchange, hchange.getLast?_calls hmain, ?_⟩
      rw [levelLimit_step]
      exact hshows.size_le_limit hsize hchange
  obtain ⟨records, hshows, hmain, hsize⟩ := hseated
  exact hshows.wellSeated hmain hsize

end Execution

/-- A program that does not make up a vacant level: it ends in that fault only if an operation has
    answered with it before. -/
inductive Program.Honest : Program → Prop where
  | done {result : Outcome Value} (hresult : result.NotVacant) : Honest (.done result)
  | perform {α : Type} {operation : Operation α} {next : Outcome α → Program}
      (hnext : ∀ answer : Outcome α, answer.NotVacant → Honest (next answer)) :
      Honest (.perform operation next)
  | call {activation : Activation} {body : FunctionDecl → Program}
      {next : Outcome Value → Program} (hbody : ∀ function, Honest (body function))
      (hnext : ∀ answer : Outcome Value, answer.NotVacant → Honest (next answer)) :
      Honest (.call activation body next)

namespace Execution

variable {σ : Type}

/-- No program of a run answers with a vacant level, however deep its calls go, unless it makes
    up that fault. -/
theorem notVacant_run {settings : Display.Settings} {host : σ} {program : Program}
    (hhonest : program.Honest) {execution : Execution σ}
    (hreaches : Reaches Free (start settings host) execution) :
    (program.run.answer execution.machine).NotVacant := by
  induction hhonest generalizing execution with
  | done hresult =>
    rw [Program.run, Update.answer_read]
    exact hresult
  | @perform α operation next _ ih =>
    obtain ⟨frame, hframe⟩ := Option.isSome_iff_exists.mp hreaches.wellSeated.current
    have hanswer := operation.notVacant_answer hframe
    exact ih _ hanswer (hreaches.step (.perform operation) trivial)
  | @call activation body next _ _ ihbody ihnext =>
    have hentered : Reaches Free (start settings host) (execution.enter activation []) :=
      hreaches.step (.enter activation []) trivial
    obtain ⟨returned, hreturned, hmachine⟩ := balanced_run machineRule_free.returns
      (keeps_free (.call activation body .done) execution.machine)
    rw [Program.after_call_done] at hmachine
    have hanswer :
        ((Machine.call activation (Program.evaluator body)).answer
          execution.machine).NotVacant := by
      by_cases hroom : activation.level < execution.display.levelLimit
      · have hbody := ihbody activation.function hentered
        rw [enter_of_room [] hroom] at hbody
        rw [Machine.answer_call _ hroom]
        exact hbody
      · rw [Update.answer, Machine.call_of_refused _ (Nat.le_of_not_lt hroom)]
        exact Outcome.notVacant_error fun _ h => by cases h
    have hnext := ihnext _ hanswer (hreaches.trans hreturned.reaches)
    rw [hmachine] at hnext
    exact hnext

theorem notVacant_call {settings : Display.Settings} {host : σ} {activation : Activation}
    {body : FunctionDecl → Program} (hbody : ∀ function, (body function).Honest)
    {execution : Execution σ} (hreaches : Reaches Free (start settings host) execution) :
    ((Machine.call activation (Program.evaluator body)).answer execution.machine).NotVacant := by
  have hhonest : (Program.call activation body .done).Honest := .call hbody fun _ => .done
  have hrun := notVacant_run hhonest hreaches
  rw [Program.answer_call, Program.run, Update.answer_read] at hrun
  exact hrun

theorem innerLevel_eq_error_iff (display : Display) (level limit : Nat) :
    display.innerLevel = .error (.nestingLimitExceeded level limit) ↔
      display.levelLimit ≤ display.level + 1 ∧ level = display.level + 1 ∧
        limit = display.levelLimit := by
  rw [Display.innerLevel, Display.allow]
  by_cases hroom : display.level + 1 < display.levelLimit
  · rw [if_pos hroom]
    exact iff_of_false (fun h => by cases h) fun h => by omega
  · rw [if_neg hroom]
    simp only [Except.map, Except.error.injEq, Fault.nestingLimitExceeded.injEq]
    omega

theorem declareInner_nesting_iff {display : Display}
    (hcurrent : (display.frame? display.level).isSome) (name : String)
    (parameters : List String) (level limit : Nat) :
    (Display.declareInner name parameters).answer display =
        .error (.nestingLimitExceeded level limit) ↔
      display.levelLimit ≤ display.level + 1 ∧ level = display.level + 1 ∧
        limit = display.levelLimit := by
  obtain ⟨frame, hframe⟩ := Option.isSome_iff_exists.mp hcurrent
  rw [Display.answer_declareInner, Display.answer_declare _ hframe]
  by_cases hroom : display.level + 1 < display.levelLimit
  · rw [if_pos hroom, Activation.answer_declare]
    refine iff_of_false ?_ fun h => by omega
    split <;> intro h <;> cases h
  · rw [if_neg hroom]
    simp only [Except.error.injEq, Fault.nestingLimitExceeded.injEq]
    omega

/-- In whatever state a run is, inside or outside any calls, level zero and the current level are
    occupied, all levels are below the limit, and every activation is at its own level. So no
    operation and no call meets a vacant level, unless a body makes up that fault; the level after
    the current one can be computed in machine words; calls, inner levels and inner declarations
    are refused for their level exactly from the limit on; and what has been declared as an inner
    function can be called for the rest of the run. -/
theorem reachable_wellSeated (settings : Display.Settings) (host : σ) {execution : Execution σ}
    (hreaches : Reaches Free (start settings host) execution) :
    execution.display.WellSeated ∧
      execution.display.levelLimit = max settings.levelLimit 1 ∧
      (∀ {α : Type} (operation : Operation α),
        (operation.run.answer execution.machine).NotVacant) ∧
      (∀ (activation : Activation) (body : FunctionDecl → Program),
        (∀ function, (body function).Honest) →
        ((Machine.call activation (Program.evaluator body)).answer execution.machine).NotVacant) ∧
      (settings.levelLimit < USize.size → execution.display.level + 1 < USize.size) ∧
      (∀ (activation : Activation) (evaluate : Evaluator σ),
        (execution.display.levelLimit ≤ activation.level →
          Machine.call activation evaluate execution.machine =
            .error (.nestingLimitExceeded activation.level execution.display.levelLimit)
              execution.machine) ∧
        (activation.level < execution.display.levelLimit →
          (Machine.call activation evaluate).answer execution.machine =
            (evaluate activation.function).answer (execution.machine.entered activation))) ∧
      (∀ level limit,
        execution.display.innerLevel = .error (.nestingLimitExceeded level limit) ↔
          execution.display.levelLimit ≤ execution.display.level + 1 ∧
            level = execution.display.level + 1 ∧ limit = execution.display.levelLimit) ∧
      (∀ name parameters level limit,
        (Display.declareInner name parameters).answer execution.display =
            .error (.nestingLimitExceeded level limit) ↔
          execution.display.levelLimit ≤ execution.display.level + 1 ∧
            level = execution.display.level + 1 ∧ limit = execution.display.levelLimit) ∧
      ∀ name parameters decl,
        (Display.declareInner name parameters).answer execution.display = .ok decl →
        ∀ later, Reaches Free execution later →
        ∀ activation : Activation, activation.function = decl →
          later.display.allow activation.level = .ok () := by
  have hseated := hreaches.wellSeated
  have hlimit : execution.display.levelLimit = max settings.levelLimit 1 := hreaches.levelLimit_eq
  obtain ⟨frame, hframe⟩ := Option.isSome_iff_exists.mp hseated.current
  refine ⟨hseated, hlimit, fun operation => operation.notVacant_answer hframe,
    fun _ _ hbody => notVacant_call hbody hreaches, fun hword => ?_,
    fun _ evaluate => ⟨Machine.call_of_refused evaluate, Machine.answer_call evaluate⟩,
    innerLevel_eq_error_iff _, declareInner_nesting_iff hseated.current, ?_⟩
  · have hlevel := hseated.level_lt_size
    have hsize := hseated.size_le_limit
    have hone : 1 < USize.size := by cases USize.size_eq <;> omega
    omega
  · intro name parameters decl hdeclared later hlater activation hfunction
    obtain ⟨hroom, rfl⟩ := Display.declareInner_eq_ok hdeclared
    have hlevel : activation.level = execution.display.level + 1 := by
      rw [Activation.level, hfunction]
    rw [Display.allow, hlater.levelLimit_eq, hlevel, if_pos hroom]

/-- Levels in between may be vacant. -/
theorem wellSeated_over_vacancy :
    let deep : Activation := .ofFunction ⟨"deep", 3, []⟩
    let last := (start { levelLimit := 4 } ()).step (.enter deep [])
    last.display.level = 3 ∧ last.display.frame? 1 = none ∧ last.display.WellSeated := by
  intro deep last
  have hreaches : Reaches Free (start { levelLimit := 4 } ()) last :=
    (Reaches.refl _).step (.enter deep []) trivial
  exact ⟨by decide, by decide, (reachable_wellSeated { levelLimit := 4 } () hreaches).1⟩

end Execution

end InterpreterCore

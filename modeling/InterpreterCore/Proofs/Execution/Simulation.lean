import InterpreterCore.Proofs.Execution.Basic

namespace InterpreterCore

variable {σ : Type}

/-- The machines that a program meets on its way, those inside the bodies of its calls included. -/
inductive Program.Meets : Program → Machine σ → Machine σ → Prop where
  | here {program : Program} {machine : Machine σ} : Meets program machine machine
  | perform {α : Type} {operation : Operation α} {next : Outcome α → Program}
      {machine met : Machine σ}
      (hnext : Meets (next (operation.run.answer machine)) (operation.run.after machine) met) :
      Meets (.perform operation next) machine met
  | body {activation : Activation} {body : FunctionDecl → Program}
      {next : Outcome Value → Program} {machine met : Machine σ}
      (hroom : activation.level < machine.display.levelLimit)
      (hbody : Meets (body activation.function) (machine.entered activation) met) :
      Meets (.call activation body next) machine met
  | next {activation : Activation} {body : FunctionDecl → Program}
      {next : Outcome Value → Program} {machine met : Machine σ}
      (hnext : Meets (next ((Machine.call activation (evaluator body)).answer machine))
        ((Machine.call activation (evaluator body)).after machine) met) :
      Meets (.call activation body next) machine met

/-- The machine that a program leaves is the last one that it meets. -/
theorem Program.meets_after (program : Program) (machine : Machine σ) :
    program.Meets machine (program.run.after machine) := by
  induction program generalizing machine with
  | done result =>
    rw [run, Update.after_read]
    exact .here
  | perform operation next ih => exact .perform (ih _ _)
  | call activation body next _ ihnext => exact .next (ihnext _ _)

namespace Execution

/-- An action is allowed on a machine, whatever has happened in the run before. -/
def AllowedOn (allowed : Execution σ → Action → Prop) (machine : Machine σ) (action : Action) :
    Prop :=
  ∀ execution : Execution σ, execution.machine = machine → allowed execution action

/-- A rule that asks about nothing but the machine, and that lets every call return. -/
structure MachineRule (allowed : Execution σ → Action → Prop) : Prop where
  onMachine : ∀ {execution action}, allowed execution action →
    AllowedOn allowed execution.machine action
  returns : ∀ execution, allowed execution .leave

end Execution

open Execution

/-- Whether everything that a program does is allowed on the machine where it does it. Nothing is
    asked of a call that is refused. -/
def Program.Keeps (allowed : Execution σ → Action → Prop) : Program → Machine σ → Prop
  | done _, _ => True
  | perform operation next, machine =>
    AllowedOn allowed machine (.perform operation) ∧
      (next (operation.run.answer machine)).Keeps allowed (operation.run.after machine)
  | call activation body next, machine =>
    let called := Machine.call activation (evaluator body)
    (activation.level < machine.display.levelLimit →
      (∃ past, AllowedOn allowed machine (.enter activation past)) ∧
        (body activation.function).Keeps allowed (machine.entered activation)) ∧
      (next (called.answer machine)).Keeps allowed (called.after machine)

namespace Execution

variable {α : Type} {allowed : Execution σ → Action → Prop}

theorem machineRule_free : MachineRule (Free : Execution σ → Action → Prop) :=
  ⟨fun _ _ _ => trivial, fun _ => trivial⟩

theorem keeps_free (program : Program) (machine : Machine σ) :
    program.Keeps Free machine := by
  induction program generalizing machine with
  | done => trivial
  | perform operation next ih => exact ⟨fun _ _ => trivial, ih _ _⟩
  | call activation body next ihbody ihnext =>
    exact ⟨fun _ => ⟨⟨[], fun _ _ => trivial⟩, ihbody _ _⟩, ihnext _ _⟩

/-- A later execution of the same run in which the same calls are open, with the same things put
    aside. -/
structure Balanced (allowed : Execution σ → Action → Prop) (first last : Execution σ) : Prop where
  reaches : Reaches allowed first last
  suspended : last.suspended = first.suspended
  calls : last.calls = first.calls

theorem Balanced.refl (execution : Execution σ) : Balanced allowed execution execution :=
  ⟨.refl execution, rfl, rfl⟩

theorem Balanced.trans {first between last : Execution σ}
    (hfirst : Balanced allowed first between) (hlast : Balanced allowed between last) :
    Balanced allowed first last where
  reaches := hfirst.reaches.trans hlast.reaches
  suspended := hlast.suspended.trans hfirst.suspended
  calls := hlast.calls.trans hfirst.calls

theorem balanced_perform {execution : Execution σ} {operation : Operation α}
    (hallowed : allowed execution (.perform operation)) :
    Balanced allowed execution (execution.perform operation) :=
  ⟨.single hallowed, rfl, rfl⟩

theorem machine_perform (execution : Execution σ) (operation : Operation α) :
    (execution.perform operation).machine = operation.run.after execution.machine := rfl

theorem machine_enter {execution : Execution σ} {activation : Activation} (past : List Edit)
    (hroom : activation.level < execution.display.levelLimit) :
    (execution.enter activation past).machine = execution.machine.entered activation := by
  rw [enter_of_room past hroom]

/-- An accepted call runs as its beginning, its body and its end do, whatever the past of its
    activation is said to be. -/
theorem balanced_call {execution ended : Execution σ} {activation : Activation}
    {past : List Edit} (body : FunctionDecl → Program)
    (hroom : activation.level < execution.display.levelLimit)
    (henter : allowed execution (.enter activation past))
    (hbody : Balanced allowed (execution.enter activation past) ended)
    (hmachine : ended.machine =
      (body activation.function).run.after (execution.machine.entered activation))
    (hleave : allowed ended .leave) :
    Balanced allowed execution ended.leave ∧
      ended.leave.machine =
        (Machine.call activation (Program.evaluator body)).after execution.machine := by
  have hentered := enter_of_room past hroom
  have hleft := leave_of_cons (hbody.suspended.trans (by rw [hentered]))
    (hbody.calls.trans (by rw [hentered]))
  have hrestored : ended.leave.machine = execution.machine.left activation ended.machine := by
    rw [hleft]
    rfl
  have hbegun : Reaches allowed execution (execution.enter activation past) := .single henter
  refine ⟨⟨?_, by rw [hleft], by rw [hleft]⟩, ?_⟩
  · exact (hbegun.trans hbody.reaches).step .leave hleave
  · rw [Machine.after_call _ hroom, hrestored, hmachine]
    rfl

section Simulation

variable (hreturns : ∀ execution, allowed execution .leave)
include hreturns

/-- A program that keeps a rule runs as some allowed actions do: from wherever it starts, they lead
    to the machine that it leaves, with no call open that was not open before. -/
theorem balanced_run {program : Program} {execution : Execution σ}
    (hkeeps : program.Keeps allowed execution.machine) :
    ∃ last, Balanced allowed execution last ∧
      last.machine = program.run.after execution.machine := by
  induction program generalizing execution with
  | done result => exact ⟨execution, .refl execution, by rw [Program.run, Update.after_read]⟩
  | perform operation next ih =>
    obtain ⟨hallowed, hnext⟩ := hkeeps
    rw [← machine_perform] at hnext
    obtain ⟨last, hlast, hmachine⟩ := ih _ hnext
    exact ⟨last, (balanced_perform (hallowed execution rfl)).trans hlast, hmachine⟩
  | call activation body next ihbody ihnext =>
    obtain ⟨haccepted, hnext⟩ := hkeeps
    have hcalled : ∃ returned, Balanced allowed execution returned ∧ returned.machine =
        (Machine.call activation (Program.evaluator body)).after execution.machine := by
      by_cases hroom : activation.level < execution.display.levelLimit
      · obtain ⟨⟨past, henter⟩, hbody⟩ := haccepted hroom
        rw [← machine_enter past hroom] at hbody
        obtain ⟨ended, hended, hmachine⟩ := ihbody _ hbody
        rw [machine_enter past hroom] at hmachine
        exact ⟨_, balanced_call body hroom (henter execution rfl) hended hmachine (hreturns ended)⟩
      · refine ⟨execution, .refl execution, ?_⟩
        rw [Update.after, Machine.call_of_refused _ (Nat.le_of_not_lt hroom)]
    obtain ⟨returned, hreturned, hmachine⟩ := hcalled
    rw [← hmachine] at hnext
    obtain ⟨last, hlast, hafter⟩ := ihnext _ hnext
    exact ⟨last, hreturned.trans hlast, by rw [hafter, Program.after_call, hmachine]⟩

/-- What a program that keeps a rule meets is the machine of an execution that allowed actions
    reach, so that whatever holds in all of these holds everywhere inside and after the program. -/
theorem exists_reaches_of_meets {program : Program} {execution : Execution σ} {met : Machine σ}
    (hkeeps : program.Keeps allowed execution.machine)
    (hmeets : program.Meets execution.machine met) :
    ∃ last, Reaches allowed execution last ∧ last.machine = met := by
  generalize hmachine : execution.machine = machine at hkeeps hmeets
  induction hmeets generalizing execution with
  | here => exact ⟨execution, .refl execution, hmachine⟩
  | @perform _ operation _ _ _ _ ih =>
    subst hmachine
    obtain ⟨hallowed, hnext⟩ := hkeeps
    obtain ⟨last, hlast, hmet⟩ := ih (machine_perform execution operation) hnext
    exact ⟨last, (balanced_perform (hallowed execution rfl)).reaches.trans hlast, hmet⟩
  | @body activation _ _ _ _ hroom _ ih =>
    subst hmachine
    obtain ⟨⟨past, henter⟩, hbody⟩ := hkeeps.1 hroom
    obtain ⟨last, hlast, hmet⟩ := ih (machine_enter past hroom) hbody
    have hbegun : Reaches allowed execution (execution.enter activation past) :=
      .single (henter execution rfl)
    exact ⟨last, hbegun.trans hlast, hmet⟩
  | @next activation body _ _ _ _ ih =>
    subst hmachine
    obtain ⟨haccepted, hnext⟩ := hkeeps
    -- The call alone is a program that keeps the rule, and it runs as allowed actions do.
    have hcall : (Program.call activation body .done).Keeps allowed execution.machine :=
      ⟨haccepted, trivial⟩
    obtain ⟨returned, hreturned, hmachine⟩ := balanced_run hreturns hcall
    rw [Program.after_call_done] at hmachine
    obtain ⟨last, hlast, hmet⟩ := ih hmachine hnext
    exact ⟨last, hreturned.reaches.trans hlast, hmet⟩

end Simulation

/-- A program can be run from a machine, and others after it as the open calls return, so that a
    machine is met on the way. -/
def CanMeet (allowed : Execution σ → Action → Prop) (met : Machine σ) :
    List Suspension → Program → Machine σ → Prop
  | [], program, machine => program.Keeps allowed machine ∧ program.Meets machine met
  | suspension :: suspended, program, machine =>
    program.Keeps allowed machine ∧
      (program.Meets machine met ∨
        ∃ next, CanMeet allowed met suspended next
          { program.run.after machine with
            display := (program.run.after machine).display.restore suspension.level
              suspension.occupant suspension.current })

namespace CanMeet

variable {met machine before : Machine σ} {suspended : List Suspension} {program first : Program}

theorem keeps (hcan : CanMeet allowed met suspended program machine) :
    program.Keeps allowed machine := by
  cases suspended <;> exact hcan.1

/-- What can be met by a program can be met by one that comes to it. -/
theorem of_after (hcan : CanMeet allowed met suspended program machine)
    (hkeeps : first.Keeps allowed before)
    (hmeets : program.Meets machine met → first.Meets before met)
    (hafter : first.run.after before = program.run.after machine) :
    CanMeet allowed met suspended first before := by
  cases suspended with
  | nil => exact ⟨hkeeps, hmeets hcan.2⟩
  | cons suspension suspended =>
    obtain ⟨_, hmet | hlater⟩ := hcan
    · exact ⟨hkeeps, .inl (hmeets hmet)⟩
    · rw [← hafter] at hlater
      exact ⟨hkeeps, .inr hlater⟩

theorem of_meets (suspended : List Suspension) (hkeeps : program.Keeps allowed machine)
    (hmeets : program.Meets machine met) :
    CanMeet allowed met suspended program machine := by
  cases suspended with
  | nil => exact ⟨hkeeps, hmeets⟩
  | cons => exact ⟨hkeeps, .inl hmeets⟩

theorem perform {execution : Execution σ} {operation : Operation α}
    (hallowed : AllowedOn allowed execution.machine (.perform operation))
    (hcan : CanMeet allowed met suspended program (execution.perform operation).machine) :
    CanMeet allowed met suspended (.perform operation fun _ => program) execution.machine :=
  hcan.of_after ⟨hallowed, hcan.keeps⟩ (fun hmet => .perform hmet) rfl

theorem enter {execution : Execution σ} {activation : Activation} {past : List Edit}
    (hroom : activation.level < execution.display.levelLimit)
    (hallowed : AllowedOn allowed execution.machine (.enter activation past))
    (hcan : CanMeet allowed met (execution.enter activation past).suspended program
      (execution.enter activation past).machine) :
    ∃ first, CanMeet allowed met execution.suspended first execution.machine := by
  rw [enter_of_room past hroom] at hcan
  have haccepted : (∃ past, AllowedOn allowed execution.machine (.enter activation past)) ∧
      program.Keeps allowed (execution.machine.entered activation) := ⟨⟨past, hallowed⟩, hcan.keeps⟩
  obtain ⟨_, hmet | ⟨next, hnext⟩⟩ := hcan
  · exact ⟨.call activation (fun _ => program) .done,
      of_meets _ ⟨fun _ => haccepted, trivial⟩ (.body hroom hmet)⟩
  · have hafter := Machine.after_call (Program.evaluator fun _ => program) hroom
    refine ⟨.call activation (fun _ => program) fun _ => next, ?_⟩
    have hreturned : CanMeet allowed met execution.suspended next
        ((Machine.call activation (Program.evaluator fun _ => program)).after
          execution.machine) := by
      rw [hafter]
      exact hnext
    exact hreturned.of_after ⟨fun _ => haccepted, hreturned.keeps⟩ (fun hmet => .next hmet) rfl

theorem leave {execution : Execution σ}
    (hcan : CanMeet allowed met execution.leave.suspended program execution.leave.machine) :
    ∃ first, CanMeet allowed met execution.suspended first execution.machine := by
  cases hsuspended : execution.suspended with
  | nil =>
    have hsame : execution.leave = execution := by rw [Execution.leave, hsuspended]
    rw [hsame, hsuspended] at hcan
    exact ⟨program, hcan⟩
  | cons suspension suspended =>
    cases hcalls : execution.calls with
    | nil =>
      have hsame : execution.leave = execution := by rw [Execution.leave, hsuspended, hcalls]
      rw [hsame, hsuspended] at hcan
      exact ⟨program, hcan⟩
    | cons call calls =>
      rw [leave_of_cons hsuspended hcalls] at hcan
      exact ⟨.done (.error .divisionByZero), trivial, .inr ⟨program, hcan⟩⟩

/-- What can be met after an allowed action can be met before it. -/
theorem of_step (hrule : MachineRule allowed) {execution : Execution σ} {action : Action}
    (hallowed : allowed execution action)
    (hcan : CanMeet allowed met (execution.step action).suspended program
      (execution.step action).machine) :
    ∃ first, CanMeet allowed met execution.suspended first execution.machine := by
  cases action with
  | perform operation => exact ⟨_, hcan.perform (hrule.onMachine hallowed)⟩
  | enter activation past =>
    by_cases hroom : activation.level < execution.display.levelLimit
    · exact hcan.enter hroom (hrule.onMachine hallowed)
    · rw [step, enter_of_refused past (Nat.le_of_not_lt hroom)] at hcan
      exact ⟨program, hcan⟩
  | leave => exact hcan.leave

end CanMeet

/-- What can be met where allowed actions lead can be met where they begin. -/
theorem Reaches.exists_canMeet (hrule : MachineRule allowed) {first last : Execution σ}
    (hreaches : Reaches allowed first last) {met : Machine σ} {program : Program}
    (hcan : CanMeet allowed met last.suspended program last.machine) :
    ∃ program, CanMeet allowed met first.suspended program first.machine := by
  induction hreaches generalizing program with
  | refl => exact ⟨program, hcan⟩
  | step _ action hallowed ih =>
    obtain ⟨before, hbefore⟩ := hcan.of_step hrule hallowed
    exact ih hbefore

/-- A run action by action and the running of programs are one thing: under a rule that asks about
    the machine alone, the machines which allowed actions reach are exactly those which programs
    that keep the rule meet, in whatever calls. -/
theorem exists_reaches_iff_exists_meets (hrule : MachineRule allowed)
    (settings : Display.Settings) (host : σ) (met : Machine σ) :
    (∃ execution, Reaches allowed (start settings host) execution ∧ execution.machine = met) ↔
      ∃ program : Program, program.Keeps allowed (start settings host).machine ∧
        program.Meets (start settings host).machine met := by
  constructor
  · rintro ⟨execution, hreaches, rfl⟩
    have hkeeps : (Program.done (.error .divisionByZero)).Keeps allowed execution.machine :=
      trivial
    exact hreaches.exists_canMeet hrule (.of_meets execution.suspended hkeeps .here)
  · rintro ⟨program, hkeeps, hmeets⟩
    exact exists_reaches_of_meets hrule.returns hkeeps hmeets

end Execution

end InterpreterCore

import InterpreterCore.Proofs.Execution.Ledger
import InterpreterCore.Proofs.Program.Effect

namespace InterpreterCore

/-- A call that has not returned: the number of its activation in the order of installation, the
    level at which the activation runs, and its static link, which is the number of the activation
    among whose functions the called one was found. -/
structure OpenCall where
  serial : Nat
  level : Nat
  link : Option Nat
deriving DecidableEq

/-- The activation of the main function is in place from the beginning. -/
def OpenCall.main : OpenCall := ⟨0, 0, none⟩

/-- The call whose activation is in place at a level: of the open calls of that level, the one made
    last. -/
def OpenCall.at? (calls : List OpenCall) (level : Nat) : Option OpenCall :=
  calls.find? fun call => call.level == level

theorem OpenCall.at?_cons (call : OpenCall) (rest : List OpenCall) (level : Nat) :
    at? (call :: rest) level = if call.level = level then some call else at? rest level := by
  by_cases hlevel : call.level = level
  · simp [at?, hlevel]
  · simp [at?, hlevel]

/-- Each call was made before those that stand in front of it. -/
def OpenCall.Descending (calls : List OpenCall) : Prop :=
  calls.Pairwise fun inner outer => outer.serial < inner.serial

/-- What a call puts aside until it returns. -/
structure Suspension where
  level : Nat
  occupant : Option Frame
  current : Nat

/-- A machine in the middle of a run and what its open calls have put aside, innermost first. The
    open calls themselves, the number of installations, the calls that have returned and the ledger
    are kept for statements about the run: they have no part in how the machine goes on. -/
structure Execution (σ : Type) where
  machine : Machine σ
  suspended : List Suspension
  calls : List OpenCall
  installs : Nat
  returned : List Nat
  ledger : List Event

/-- One action of a run. -/
inductive Action : Type 1 where
  | perform {α : Type} (operation : Operation α)
  | enter (activation : Activation) (past : List Edit)
  | leave

namespace Execution

variable {σ α : Type}

/-- The display of the machine. -/
abbrev display (execution : Execution σ) : Display := execution.machine.display

/-- A run begins on a display on which the main function is installed. -/
def start (settings : Display.Settings) (host : σ) : Execution σ where
  machine := { display := .create settings, host }
  suspended := []
  calls := [.main]
  installs := 0
  returned := []
  ledger := []

/-- The open call whose activation is in place at a level. -/
def holder? (execution : Execution σ) (level : Nat) : Option OpenCall :=
  OpenCall.at? execution.calls level

/-- The call among whose functions the innermost one of a name is found. -/
def definer? (execution : Execution σ) (name : String) : Option OpenCall :=
  execution.display.innermost? fun level frame =>
    (frame.activation.function? name).bind fun _ => execution.holder? level

/-- An event of the activation in place at a level. -/
def noteAt (execution : Execution σ) (level : Nat) (event : Nat → Event) : List Event :=
  (execution.holder? level).toList.map fun call => event call.serial

/-- What a store is noted for, by its answer. -/
def noteStored (execution : Execution σ) (reference : Reference) (value : Value) :
    Outcome Unit → List Event
  | .ok () => execution.noteAt reference.depth (.stored · reference.slot value)
  | .error _ => []

/-- What an operation is noted for, by its answer. -/
def noted (execution : Execution σ) : Operation α → List Event
  | .define name =>
    match (Display.define name).answer execution.display with
    | .ok reference =>
      execution.noteAt reference.depth (.made · reference.slot name)
    | .error _ => []
  | .remove name =>
    match (Display.remove name).answer execution.display with
    | .ok true =>
      match (execution.display.activation? execution.display.level).bind (·.slotOf? name) with
      | some slot => execution.noteAt execution.display.level (.cleared · slot)
      | none => []
    | _ => []
  | .store reference value =>
    execution.noteStored reference value
      ((Display.store reference value).answer execution.display)
  | .assign reference value =>
    execution.noteStored reference value
      ((Display.assign reference value).answer execution.display)
  | _ => []

/-- The execution after an operation. -/
def perform (execution : Execution σ) (operation : Operation α) : Execution σ :=
  { execution with
    machine := operation.run.after execution.machine
    ledger := execution.noted operation ++ execution.ledger }

@[simp]
theorem display_perform (execution : Execution σ) (operation : Operation α) :
    (execution.perform operation).display = (operation.run.after execution.machine).display := rfl

@[simp]
theorem ledger_perform (execution : Execution σ) (operation : Operation α) :
    (execution.perform operation).ledger = execution.noted operation ++ execution.ledger := rfl

/-- The execution when the body of a call begins. What has been done to the activation before is
    entered in the ledger. A refused call changes nothing. -/
def enter (execution : Execution σ) (activation : Activation) (past : List Edit) : Execution σ :=
  match execution.display.allow activation.level with
  | .error _ => execution
  | .ok () =>
    let serial := execution.installs + 1
    let link := (execution.definer? activation.function.name).map OpenCall.serial
    { machine := execution.machine.entered activation
      suspended :=
        ⟨activation.level, execution.display.frame? activation.level, execution.display.level⟩ ::
          execution.suspended
      calls := ⟨serial, activation.level, link⟩ :: execution.calls
      installs := serial
      returned := execution.returned
      ledger := Edit.account activation.function serial past ++ execution.ledger }

/-- The execution after the innermost call has returned. -/
def leave (execution : Execution σ) : Execution σ :=
  match execution.suspended, execution.calls with
  | suspension :: suspended, call :: calls =>
    { execution with
      machine := { execution.machine with
        display := execution.display.restore suspension.level suspension.occupant
          suspension.current }
      suspended
      calls
      returned := call.serial :: execution.returned }
  | _, _ => execution

/-- The execution after an action. -/
def step (execution : Execution σ) : Action → Execution σ
  | .perform operation => execution.perform operation
  | .enter activation past => execution.enter activation past
  | .leave => execution.leave

/-- A later execution of the same run, when each action is one that is allowed where it is made. -/
inductive Reaches (allowed : Execution σ → Action → Prop) :
    Execution σ → Execution σ → Prop where
  | refl (execution : Execution σ) : Reaches allowed execution execution
  | step {first last : Execution σ} (hreaches : Reaches allowed first last) (action : Action)
      (hallowed : allowed last action) : Reaches allowed first (last.step action)

/-- Runs in which everything is allowed. -/
abbrev Free (_ : Execution σ) (_ : Action) : Prop := True

theorem Reaches.single {allowed : Execution σ → Action → Prop} {execution : Execution σ}
    {action : Action} (hallowed : allowed execution action) :
    Reaches allowed execution (execution.step action) :=
  (Reaches.refl execution).step action hallowed

theorem Reaches.trans {allowed : Execution σ → Action → Prop} {first between last : Execution σ}
    (hfirst : Reaches allowed first between) (hlast : Reaches allowed between last) :
    Reaches allowed first last := by
  induction hlast with
  | refl => exact hfirst
  | step _ action hallowed ih => exact ih.step action hallowed

/-- A run that is allowed by one rule is allowed by every wider one. -/
theorem Reaches.mono {allowed wider : Execution σ → Action → Prop} {first last : Execution σ}
    (hwider : ∀ execution action, allowed execution action → wider execution action)
    (hreaches : Reaches allowed first last) : Reaches wider first last := by
  induction hreaches with
  | refl => exact .refl _
  | step _ action hallowed ih => exact ih.step action (hwider _ action hallowed)

theorem enter_of_refused {execution : Execution σ} {activation : Activation} (past : List Edit)
    (hrefused : execution.display.levelLimit ≤ activation.level) :
    execution.enter activation past = execution := by
  simp only [enter, Display.allow, if_neg (Nat.not_lt.mpr hrefused)]

theorem enter_of_room {execution : Execution σ} {activation : Activation} (past : List Edit)
    (hroom : activation.level < execution.display.levelLimit) :
    execution.enter activation past =
      { machine := execution.machine.entered activation
        suspended :=
          ⟨activation.level, execution.display.frame? activation.level,
            execution.display.level⟩ :: execution.suspended
        calls :=
          ⟨execution.installs + 1, activation.level,
            (execution.definer? activation.function.name).map OpenCall.serial⟩ :: execution.calls
        installs := execution.installs + 1
        returned := execution.returned
        ledger := Edit.account activation.function (execution.installs + 1) past ++
          execution.ledger } := by
  simp only [enter, Display.allow, if_pos hroom]

theorem display_enter {execution : Execution σ} {activation : Activation} (past : List Edit)
    (hroom : activation.level < execution.display.levelLimit) :
    (execution.enter activation past).display = execution.display.install activation := by
  rw [enter_of_room past hroom]
  rfl

theorem leave_of_cons {execution : Execution σ} {suspension : Suspension}
    {suspended : List Suspension} {call : OpenCall} {calls : List OpenCall}
    (hsuspended : execution.suspended = suspension :: suspended)
    (hcalls : execution.calls = call :: calls) :
    execution.leave =
      { execution with
        machine := { execution.machine with
          display := execution.display.restore suspension.level suspension.occupant
            suspension.current }
        suspended
        calls
        returned := call.serial :: execution.returned } := by
  simp only [leave, hsuspended, hcalls]

end Execution

end InterpreterCore

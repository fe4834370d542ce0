import InterpreterCore.Proofs.Activation.Edit

namespace InterpreterCore

/-- One thing that happened to a slot of an activation. -/
inductive Event where
  | made (serial slot : Nat) (name : String)
  | stored (serial slot : Nat) (value : Value)
  | cleared (serial slot : Nat)
deriving DecidableEq

/-- A slot of an activation after an event. A slot keeps the name with which it was made. -/
def Event.over (serial slot : Nat) (before : Option Slot) : Event → Option Slot
  | made owner i name => if owner = serial ∧ i = slot then some ⟨name, none⟩ else before
  | stored owner i value =>
    if owner = serial ∧ i = slot then before.map fun stored => ⟨stored.name, some value⟩ else before
  | cleared owner i =>
    if owner = serial ∧ i = slot then before.map fun stored => ⟨stored.name, none⟩ else before

/-- A slot of an activation as a ledger tells it: the name with which it was made, and the value
    last stored there, unless it was cleared since. -/
def recorded (ledger : List Event) (serial slot : Nat) : Option Slot :=
  ledger.foldr (fun event before => event.over serial slot before) none

@[simp]
theorem recorded_cons (event : Event) (ledger : List Event) (serial slot : Nat) :
    recorded (event :: ledger) serial slot = event.over serial slot (recorded ledger serial slot) :=
  rfl

/-- A slot that has been made is there for good. -/
theorem isSome_recorded_append (events ledger : List Event) {serial slot : Nat}
    (hmade : (recorded ledger serial slot).isSome) :
    (recorded (events ++ ledger) serial slot).isSome := by
  induction events with
  | nil => exact hmade
  | cons event rest ih =>
    rw [List.cons_append, recorded_cons]
    cases event with
    | made owner i name => rw [Event.over]; split <;> simp [ih]
    | stored owner i value => rw [Event.over]; split <;> simp [ih]
    | cleared owner i => rw [Event.over]; split <;> simp [ih]

/-- The activation that an event is about. -/
def Event.owner : Event → Nat
  | made serial _ _ => serial
  | stored serial _ _ => serial
  | cleared serial _ => serial

/-- Events of other activations do not matter. -/
theorem recorded_append_of_ne {events : List Event} {serial : Nat}
    (hother : ∀ event ∈ events, event.owner ≠ serial) (ledger : List Event) (slot : Nat) :
    recorded (events ++ ledger) serial slot = recorded ledger serial slot := by
  induction events with
  | nil => rfl
  | cons event rest ih =>
    obtain ⟨hevent, hrest⟩ := List.forall_mem_cons.mp hother
    rw [List.cons_append, recorded_cons, ih hrest]
    cases event with
    | made owner i name => exact if_neg fun h => hevent h.1
    | stored owner i value => exact if_neg fun h => hevent h.1
    | cleared owner i => exact if_neg fun h => hevent h.1

/-- The slots of the parameters of a function, as events. -/
def FunctionDecl.makings (function : FunctionDecl) (serial : Nat) : List Event :=
  function.parameters.zipIdx.map fun (name, slot) => .made serial slot name

theorem recorded_makings (names : List String) (first : Nat) {serial : Nat} {ledger : List Event}
    (hfresh : ∀ slot, recorded ledger serial slot = none) (slot : Nat) :
    recorded ((names.zipIdx first).map (fun (name, slot) => Event.made serial slot name) ++
        ledger) serial slot =
      if first ≤ slot then names[slot - first]?.map fun name => { name } else none := by
  induction names generalizing first with
  | nil => simp [hfresh]
  | cons name rest ih =>
    rw [List.zipIdx_cons, List.map_cons, List.cons_append, recorded_cons, ih]
    simp only [Event.over, true_and]
    by_cases heq : first = slot
    · subst heq
      simp
    · by_cases hle : first ≤ slot
      · have hnext : slot - first = (slot - (first + 1)) + 1 := by omega
        rw [if_neg heq, if_pos (by omega), if_pos hle, hnext, List.getElem?_cons_succ]
      · rw [if_neg heq, if_neg (by omega), if_neg hle]

/-- What an edit does to the slots of an activation, as events. -/
def Edit.events (activation : Activation) (serial : Nat) : Edit → List Event
  | store slot value => if slot < activation.slots.size then [.stored serial slot value] else []
  | bind index value =>
    if index < activation.function.arity ∧ index < activation.slots.size then
      [.stored serial index value]
    else []
  | define policy name =>
    if policy = .reject ∧ (activation.slotOf? name).isSome then []
    else [.made serial activation.slots.size name]
  | remove name => (activation.slotOf? name).toList.map fun slot => .cleared serial slot
  | declare _ _ => []
  | undeclare _ => []

/-- What has happened to the slots of an activation before its call, as events: its parameters get
    their slots, and then come the edits, of which the latest is the first in the list. -/
def Edit.account (function : FunctionDecl) (serial : Nat) : List Edit → List Event
  | [] => function.makings serial
  | edit :: earlier =>
    edit.events (earlier.foldr apply (.ofFunction function)) serial ++
      account function serial earlier

theorem Edit.owner_of_mem_events {edit : Edit} {activation : Activation} {serial : Nat}
    {event : Event} (hevent : event ∈ edit.events activation serial) : event.owner = serial := by
  cases edit with
  | store slot value =>
    rw [events] at hevent
    split at hevent
    · obtain rfl := List.mem_singleton.mp hevent
      rfl
    · cases hevent
  | bind index value =>
    rw [events] at hevent
    split at hevent
    · obtain rfl := List.mem_singleton.mp hevent
      rfl
    · cases hevent
  | define policy name =>
    rw [events] at hevent
    split at hevent
    · cases hevent
    · obtain rfl := List.mem_singleton.mp hevent
      rfl
  | remove name =>
    obtain ⟨slot, _, rfl⟩ := List.mem_map.mp hevent
    rfl
  | declare policy decl => cases hevent
  | undeclare name => cases hevent

section Shown

variable {activation : Activation} {serial : Nat} {ledger : List Event}

theorem recorded_stored (hshown : ∀ slot, activation.slots[slot]? = recorded ledger serial slot)
    (slot other : Nat) (value : Value) :
    (activation.withContent slot (some value)).slots[other]? =
      recorded ((if slot < activation.slots.size then [.stored serial slot value] else []) ++
        ledger) serial other := by
  by_cases hslot : slot < activation.slots.size
  · rw [if_pos hslot, Activation.getElem?_withContent, hshown]
    simp [Event.over]
  · rw [if_neg hslot, Activation.withContent_of_size_le _ _ (by omega), hshown]
    rfl

theorem recorded_cleared (hshown : ∀ slot, activation.slots[slot]? = recorded ledger serial slot)
    (slot other : Nat) :
    (activation.withContent slot none).slots[other]? =
      recorded (.cleared serial slot :: ledger) serial other := by
  rw [Activation.getElem?_withContent, hshown]
  simp [Event.over]

theorem recorded_made (hshown : ∀ slot, activation.slots[slot]? = recorded ledger serial slot)
    (name : String) (other : Nat) :
    (activation.withVariable name).slots[other]? =
      recorded (.made serial activation.slots.size name :: ledger) serial other := by
  rw [Activation.withVariable, Array.getElem?_push, hshown]
  simp [Event.over, eq_comm]

/-- A ledger that shows an activation shows it after an edit, when the events of the edit are
    entered. -/
theorem Edit.recorded_events
    (hshown : ∀ slot, activation.slots[slot]? = recorded ledger serial slot)
    (edit : Edit) (slot : Nat) :
    (edit.apply activation).slots[slot]? =
      recorded (edit.events activation serial ++ ledger) serial slot := by
  cases edit with
  | store i value =>
    rw [apply, Activation.after_store]
    exact recorded_stored hshown i slot value
  | bind i value =>
    rw [apply, Activation.after_bindParameter, events]
    by_cases hindex : i < activation.function.arity
    · rw [if_pos hindex, recorded_stored hshown]
      simp only [hindex, true_and]
    · rw [if_neg hindex, if_neg (fun h => hindex h.1)]
      exact hshown slot
  | define policy name =>
    rw [apply, Activation.after_define, events]
    split
    · exact hshown slot
    · exact recorded_made hshown name slot
  | remove name =>
    rw [apply, Activation.after_remove, events]
    cases activation.slotOf? name with
    | none => exact hshown slot
    | some i => exact recorded_cleared hshown i slot
  | declare policy decl =>
    rw [apply, Activation.after_declare]
    split <;> exact hshown slot
  | undeclare name => exact hshown slot

end Shown

theorem Edit.owner_of_mem_account {function : FunctionDecl} {serial : Nat} {past : List Edit}
    {event : Event} (hevent : event ∈ account function serial past) : event.owner = serial := by
  induction past with
  | nil =>
    obtain ⟨_, _, rfl⟩ := List.mem_map.mp hevent
    rfl
  | cons edit earlier ih =>
    obtain hlatest | hearlier := List.mem_append.mp hevent
    · exact owner_of_mem_events hlatest
    · exact ih hearlier

/-- The account of an activation's past shows the activation as its past has made it. -/
theorem Edit.recorded_account (function : FunctionDecl) (past : List Edit) {serial : Nat}
    {ledger : List Event} (hfresh : ∀ slot, recorded ledger serial slot = none) (slot : Nat) :
    (past.foldr apply (.ofFunction function)).slots[slot]? =
      recorded (account function serial past ++ ledger) serial slot := by
  induction past generalizing slot with
  | nil =>
    rw [account, FunctionDecl.makings, recorded_makings _ 0 hfresh]
    simp [Activation.ofFunction]
  | cons edit earlier ih =>
    rw [account, List.append_assoc]
    exact recorded_events ih edit slot

end InterpreterCore

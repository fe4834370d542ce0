import InterpreterCore.Proofs.Execution.Record

namespace InterpreterCore

/-- The mark of an installation by its number. -/
def Stamp.ofSerial (serial : Nat) : Stamp := ⟨UInt64.ofNat serial⟩

theorem Stamp.next_ofSerial (serial : Nat) : (ofSerial serial).next = ofSerial (serial + 1) := by
  simp only [next, ofSerial, UInt64.ofNat_add]
  rfl

/-- Marks tell installations apart while the words last. -/
theorem Stamp.ofSerial_inj {first second : Nat} (hfirst : first < UInt64.size)
    (hsecond : second < UInt64.size) (hsame : ofSerial first = ofSerial second) : first = second := by
  have hnumber := congrArg (fun stamp => stamp.number.toNat) hsame
  simpa only [ofSerial, UInt64.toNat_ofNat_of_lt' hfirst, UInt64.toNat_ofNat_of_lt' hsecond]
    using hnumber

namespace Execution

variable {σ : Type}

/-- Inner calls have higher numbers than outer ones, none higher than the number of installations,
    and each frame bears the mark of its call. -/
structure Numbered (execution : Execution σ) (records : List Record) : Prop where
  descending : OpenCall.Descending (records.map Record.call)
  bounded : ∀ call ∈ records.map Record.call, call.serial ≤ execution.installs
  stamped : ∀ record ∈ records, record.frame.stamp = .ofSerial record.call.serial
  next : execution.display.nextStamp = .ofSerial (execution.installs + 1)

theorem numbered_start (settings : Display.Settings) (host : σ) :
    (start settings host).Numbered [⟨.main, ⟨⟨0⟩, .ofFunction .main⟩⟩] where
  descending := List.pairwise_singleton ..
  bounded := by
    intro call hcall
    obtain rfl := List.mem_singleton.mp hcall
    exact Nat.le_refl 0
  stamped := by
    intro record hrecord
    obtain rfl := List.mem_singleton.mp hrecord
    rfl
  next := rfl

namespace Numbered

variable {execution : Execution σ} {records : List Record}

theorem perform {α : Type} (hnumbered : execution.Numbered records) (operation : Operation α) :
    (execution.perform operation).Numbered
      (Record.edited records (operation.edit? execution.display)) where
  descending := by
    rw [Record.map_call_edited]
    exact hnumbered.descending
  bounded := by
    rw [Record.map_call_edited]
    exact hnumbered.bounded
  stamped record hrecord := by
    obtain hold | ⟨_, _, old, _, hat, rfl⟩ := Record.mem_edited hrecord
    · exact hnumbered.stamped record hold
    · exact hnumbered.stamped old (Record.mem_of_at? hat)
  next := (operation.keeps_bounds execution.machine).2.1.trans hnumbered.next

theorem enter (hnumbered : execution.Numbered records) {activation : Activation}
    (past : List Edit) (hroom : activation.level < execution.display.levelLimit) :
    (execution.enter activation past).Numbered (execution.entering activation :: records) := by
  rw [enter_of_room past hroom]
  refine ⟨?_, ?_, ?_, ?_⟩
  · exact List.pairwise_cons.mpr
      ⟨fun call hcall => Nat.lt_succ_of_le (hnumbered.bounded call hcall), hnumbered.descending⟩
  · intro call hcall
    obtain rfl | hold := List.mem_cons.mp hcall
    · exact Nat.le_refl _
    · exact Nat.le_succ_of_le (hnumbered.bounded call hold)
  · intro record hrecord
    obtain rfl | hold := List.mem_cons.mp hrecord
    · exact hnumbered.next
    · exact hnumbered.stamped record hold
  · exact (congrArg Stamp.next hnumbered.next).trans (Stamp.next_ofSerial _)

theorem tail {inner : Record} (hnumbered : execution.Numbered (inner :: records))
    {after : Execution σ} (hinstalls : after.installs = execution.installs)
    (hnext : after.display.nextStamp = execution.display.nextStamp) : after.Numbered records where
  descending := (List.pairwise_cons.mp hnumbered.descending).2
  bounded call hcall := hinstalls ▸ hnumbered.bounded call (List.mem_cons_of_mem _ hcall)
  stamped record hrecord := hnumbered.stamped record (List.mem_cons_of_mem _ hrecord)
  next := by rw [hnext, hnumbered.next, hinstalls]

theorem step {last : Execution σ} {after : List Record} {action : Action}
    (hnumbered : execution.Numbered records) (hshows : execution.Shows records)
    (hchange : Change execution records action last after) : last.Numbered after := by
  cases hchange with
  | perform operation => exact hnumbered.perform operation
  | enter past hroom => exact hnumbered.enter past hroom
  | leave =>
    rw [leave_of_cons hshows.suspended hshows.calls]
    exact hnumbered.tail rfl rfl
  | nothing => exact hnumbered

/-- Records are told apart by the numbers of their calls. -/
theorem record_unique (hnumbered : execution.Numbered records) {first second : Record}
    (hfirst : first ∈ records) (hsecond : second ∈ records)
    (hserial : first.call.serial = second.call.serial) : first = second := by
  have hdescending := List.pairwise_map.mp hnumbered.descending
  clear hnumbered
  induction records with
  | nil => cases hfirst
  | cons inner outer ih =>
    obtain ⟨hinner, hrest⟩ := List.pairwise_cons.mp hdescending
    obtain rfl | hfirst := List.mem_cons.mp hfirst <;>
      obtain rfl | hsecond := List.mem_cons.mp hsecond
    · rfl
    · exact absurd (hinner second hsecond) (by omega)
    · exact absurd (hinner first ‹_›) (by omega)
    · exact ih ‹_› ‹_› hrest

/-- Open calls are told apart by their numbers. -/
theorem call_unique (hnumbered : execution.Numbered records) {first second : OpenCall}
    (hfirst : first ∈ records.map Record.call) (hsecond : second ∈ records.map Record.call)
    (hserial : first.serial = second.serial) : first = second := by
  obtain ⟨inner, hinner, rfl⟩ := List.mem_map.mp hfirst
  obtain ⟨outer, houter, rfl⟩ := List.mem_map.mp hsecond
  rw [hnumbered.record_unique hinner houter hserial]

end Numbered

/-- Every execution of a run is the view of numbered records, whatever the run is allowed to do. -/
theorem Reaches.numbered {allowed : Execution σ → Action → Prop} {settings : Display.Settings}
    {host : σ} {execution : Execution σ}
    (hreaches : Reaches allowed (start settings host) execution) :
    ∃ records, execution.Shows records ∧ execution.Numbered records := by
  induction hreaches with
  | refl => exact ⟨_, shows_start settings host, numbered_start settings host⟩
  | step _ action _ ih =>
    obtain ⟨records, hshows, hnumbered⟩ := ih
    obtain ⟨after, hchange⟩ := hshows.change action
    exact ⟨after, hshows.step hchange, hnumbered.step hshows hchange⟩

end Execution

end InterpreterCore

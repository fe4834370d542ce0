import InterpreterCore.Proofs.Program.Alike

namespace InterpreterCore.Execution

variable {σ : Type}

theorem stamp_next_inj {first second : Stamp} (hsame : first.next = second.next) :
    first = second := by
  have hnumber : first.number + 1 = second.number + 1 := congrArg Stamp.number hsame
  rw [UInt64.add_left_inj] at hnumber
  cases first
  cases second
  exact congrArg Stamp.mk hnumber

/-- To a program that starts in a reachable execution, the frames above the current level are apart:
    all of them have been installed before. -/
theorem Reaches.apart {settings : Display.Settings} {host : σ} {execution : Execution σ}
    (hreaches : Reaches Free (start settings host) execution) :
    execution.display.Apart execution.display.level (execution.installs + 1)
      (fun level => level ≤ execution.display.level) (execution.installs + 1) [] := by
  obtain ⟨records, hshows, hnumbered⟩ := hreaches.numbered
  exact
    { started := Nat.le_refl _
      next := hnumbered.next
      inner := fun _ hlevel => hlevel
      scopes := fun _ hlevel => hlevel
      older := by
        intro level frame _ hframe
        obtain ⟨record, hrecord, rfl⟩ := hshows.at?_of_frame? hframe
        have hmem := Record.mem_of_at? hrecord
        have hbound := hnumbered.bounded _ (List.mem_map_of_mem hmem)
        exact ⟨_, Nat.zero_le _, Nat.lt_succ_of_le hbound, hnumbered.stamped record hmem⟩
      newer := fun level _ hlevel habove => absurd habove (Nat.not_lt.mpr hlevel)
      held := nofun }

/-- Equal marks for the next installation mean equal numbers of installations. -/
theorem Reaches.installs_eq {firstSettings secondSettings : Display.Settings}
    {firstHost secondHost : σ} {first second : Execution σ}
    (hfirst : Reaches Free (start firstSettings firstHost) first)
    (hsecond : Reaches Free (start secondSettings secondHost) second)
    (hnext : second.display.nextStamp = first.display.nextStamp)
    (hbound : first.installs < UInt64.size) (hother : second.installs < UInt64.size) :
    second.installs = first.installs := by
  obtain ⟨_, _, hnumbered⟩ := hfirst.numbered
  obtain ⟨_, _, hcounted⟩ := hsecond.numbered
  rw [hcounted.next, hnumbered.next, ← Stamp.next_ofSerial, ← Stamp.next_ofSerial] at hnext
  exact Stamp.ofSerial_inj hother hbound (stamp_next_inj hnext)

/-- Frames above the current level do not interfere. Take two points of any runs at which the
    displays agree up to the current level, with whatever frames above it, and a program that uses
    references of those levels and such as it is handed, makes calls at most one level deeper than
    where they are made, and looks at no activation above the level where it does. Then each step of
    the program, the steps of all bodies included, is the same on both displays, and so is its end;
    the displays agree again, and each has the frames above that it had. The bodies may call to any
    depth, back to any lower level, and end in values or faults. Fields of instances may be used
    where they are the same. -/
theorem frames_above_unseen {firstSettings secondSettings : Display.Settings}
    {firstHost secondHost : σ} {first second : Execution σ} {program : Program}
    (hfirst : Reaches Free (start firstSettings firstHost) first)
    (hsecond : Reaches Free (start secondSettings secondHost) second)
    (hagree : first.display.Agree (fun level => level ≤ first.display.level) second.display)
    (hconfined : Step.AllConfined first.display.level (second.machine.heap = first.machine.heap) []
      (program.steps first.machine))
    (hinstalls : first.installs + Step.installed (program.steps first.machine) < UInt64.size)
    (hothers : second.installs + Step.installed (program.steps first.machine) < UInt64.size) :
    program.steps second.machine = program.steps first.machine ∧
      program.run.answer second.machine = program.run.answer first.machine ∧
      (program.run.after first.machine).display.level = first.display.level ∧
      (program.run.after first.machine).display.Agree (fun level => level ≤ first.display.level)
        (program.run.after second.machine).display ∧
      ∀ level, first.display.level < level →
        (program.run.after first.machine).display.frame? level = first.display.frame? level ∧
          (program.run.after second.machine).display.frame? level =
            second.display.frame? level := by
  have hsame : second.installs = first.installs :=
    hfirst.installs_eq hsecond hagree.nextStamp (by omega) (by omega)
  have hsecondApart := hsecond.apart
  rw [hagree.level, hsame] at hsecondApart
  have halike : first.machine.Alike first.display.level (first.installs + 1)
      (second.machine.heap = first.machine.heap) (fun level => level ≤ first.display.level)
      (first.installs + 1) [] second.machine := ⟨hagree, hfirst.apart, hsecondApart, id⟩
  have hruns := program.runsAlike halike hconfined (by omega)
  refine ⟨hruns.steps, hruns.answer, (program.run_keepsOthers first.machine).level,
    hruns.alike.agree, fun level hlevel => ⟨?_, ?_⟩⟩
  · exact hruns.firstSame level (Nat.not_le.mpr hlevel)
  · exact hruns.secondSame level (Nat.not_le.mpr hlevel)

/-- A function of level zero runs with its callers in place above it, different ones at level one.
    What it calls there stores in a variable of its own, finds none of theirs, and takes their place
    for as long as it runs. -/
theorem caller_unseen_at_level_zero :
    let callee : Activation := .ofFunction ⟨"callee", 0, []⟩
    let first := [Action.enter (.ofFunction ⟨"caller", 1, ["x"]⟩) [], .enter callee []].foldl step
      (start {} ())
    let second := [Action.enter (.ofFunction ⟨"other", 1, ["y", "z"]⟩) [], .enter callee []].foldl
      step (start {} ())
    let inner : Program := .perform (.define "w") fun
      | .ok reference =>
        .perform (.store reference (.boolean true)) fun _ => .perform (.ask (.lookup "x")) .done
      | .error fault => .done (.error fault)
    let program : Program := .call (.ofFunction ⟨"inner", 1, []⟩) (fun _ => inner) .done
    first.display.frame? 1 ≠ second.display.frame? 1 ∧
      program.run.answer second.machine = program.run.answer first.machine ∧
      (program.run.after second.machine).display.frame? 1 = second.display.frame? 1 := by
  intro callee first second inner program
  have hfirst : Reaches Free (start {} ()) first :=
    ((Reaches.refl _).step (.enter (.ofFunction ⟨"caller", 1, ["x"]⟩) []) trivial).step
      (.enter callee []) trivial
  have hsecond : Reaches Free (start {} ()) second :=
    ((Reaches.refl _).step (.enter (.ofFunction ⟨"other", 1, ["y", "z"]⟩) []) trivial).step
      (.enter callee []) trivial
  have hlevel : first.display.level = 0 := by decide
  have hagree : first.display.Agree (fun level => level ≤ first.display.level) second.display := by
    refine ⟨by decide, by decide, by decide, by decide, rfl, rfl, fun level hle => ?_⟩
    obtain rfl : level = 0 := Nat.le_zero.mp (hlevel ▸ hle)
    decide
  have hconfined : Step.AllConfined first.display.level
      (second.machine.heap = first.machine.heap) [] (program.steps first.machine) := by
    decide +kernel
  have hbound : first.installs + Step.installed (program.steps first.machine) < UInt64.size := by
    decide +kernel
  have hother : second.installs + Step.installed (program.steps first.machine) < UInt64.size := by
    decide +kernel
  have habove : first.display.level < 1 := by decide
  obtain ⟨_, hanswer, _, _, hframes⟩ :=
    frames_above_unseen hfirst hsecond hagree hconfined hbound hother
  have hdiffer : first.display.frame? 1 ≠ second.display.frame? 1 := by decide
  exact ⟨hdiffer, hanswer, (hframes 1 habove).2⟩

end InterpreterCore.Execution

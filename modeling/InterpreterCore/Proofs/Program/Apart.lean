import InterpreterCore.Proofs.Execution.Serial
import InterpreterCore.Proofs.Program.Steps

namespace InterpreterCore

variable {σ α : Type}

/-- The mark of one of the installations from one number on up to another. -/
def Stamp.Between (low high : Nat) (stamp : Stamp) : Prop :=
  ∃ serial, low ≤ serial ∧ serial < high ∧ stamp = .ofSerial serial

theorem Stamp.Between.mono {low high higher : Nat} {stamp : Stamp}
    (hbetween : stamp.Between low high) (hle : high ≤ higher) : stamp.Between low higher := by
  obtain ⟨serial, hlow, hhigh, hserial⟩ := hbetween
  exact ⟨serial, hlow, Nat.lt_of_lt_of_le hhigh hle, hserial⟩

namespace Display

/-- A display on which a program runs that has started at a level, its home, with the next
    installation numbered as the base. The levels that are the program's own are those up to its
    home and those to which its calls have gone. Frames of other levels were installed before it
    started, frames of its own levels above its home after that, and so were those to which the
    references lead that it holds. -/
structure Apart (home base : Nat) (own : Nat → Prop) (count : Nat) (held : List Reference)
    (display : Display) : Prop where
  started : base ≤ count
  next : display.nextStamp = .ofSerial count
  inner : ∀ level, level ≤ home → own level
  scopes : ∀ level, level ≤ display.level → own level
  older : ∀ level frame, ¬ own level → display.frame? level = some frame →
    frame.stamp.Between 0 base
  newer : ∀ level frame, own level → home < level → display.frame? level = some frame →
    frame.stamp.Between base count
  held : ∀ reference ∈ held, home < reference.depth → reference.stamp.Between base count

/-- Two displays have the same frames at the levels that are not a program's own. -/
def SameApart (own : Nat → Prop) (before after : Display) : Prop :=
  ∀ level, ¬ own level → after.frame? level = before.frame? level

namespace Apart

variable {home base count : Nat} {own : Nat → Prop} {held : List Reference} {display : Display}

/-- No reference of the program leads to a frame apart: the mark is too new. -/
theorem stale (hapart : display.Apart home base own count held) (hcount : count ≤ UInt64.size)
    {reference : Reference} (hgiven : reference.depth ≤ home ∨ reference ∈ held)
    (hforeign : ¬ own reference.depth) :
    display.issuer reference = .error (.staleReference reference.depth) := by
  have habove : ¬ reference.depth ≤ home := fun hle => hforeign (hapart.inner _ hle)
  have hnew := hapart.held reference (hgiven.resolve_left habove) (Nat.lt_of_not_le habove)
  refine issuer_of_stale fun frame hframe hsame => ?_
  obtain ⟨old, _, hold, hstamp⟩ := hapart.older _ frame hforeign hframe
  obtain ⟨new, hnew, hlast, hissued⟩ := hnew
  have hstarted := hapart.started
  have hserial : old = new :=
    Stamp.ofSerial_inj (by omega) (by omega) (hstamp.symm.trans (hsame.trans hissued))
  omega

/-- The program gets hold of no reference to a frame apart. -/
theorem handed (hapart : display.Apart home base own count held) {reference : Reference}
    {frame : Frame} (hdepth : reference.depth ≤ display.level)
    (hframe : display.frame? reference.depth = some frame)
    (hstamp : frame.stamp = reference.stamp) (habove : home < reference.depth) :
    reference.stamp.Between base count :=
  hstamp ▸ hapart.newer _ frame (hapart.scopes _ hdepth) habove hframe

/-- An edit of a level that is the program's own is seen nowhere apart. -/
theorem editAt (hapart : display.Apart home base own count held) {level : Nat} (hown : own level)
    (edit : Edit) :
    (display.editAt level edit).Apart home base own count held ∧
      display.SameApart own (display.editAt level edit) := by
  have hsame : display.SameApart own (display.editAt level edit) := by
    intro other hother
    have hne : other ≠ level := fun heq => hother (heq ▸ hown)
    rw [frame?_editAt, if_neg hne]
  refine ⟨?_, hsame⟩
  exact
    { started := hapart.started
      next := by rw [nextStamp_editAt, hapart.next]
      inner := hapart.inner
      scopes := by
        rw [level_editAt]
        exact hapart.scopes
      older := fun other frame hother hframe =>
        hapart.older other frame hother (hsame other hother ▸ hframe)
      newer := by
        intro other frame hother habove hframe
        rw [frame?_editAt] at hframe
        split at hframe
        · rename_i heq
          obtain ⟨old, hold, rfl⟩ := Option.map_eq_some_iff.mp hframe
          exact hapart.newer level old hown (heq ▸ habove) hold
        · exact hapart.newer other frame hother habove hframe
      held := hapart.held }

/-- Installing an activation, at most one level deeper than the current one, makes its level the
    program's own. -/
theorem install (hapart : display.Apart home base own count held) {activation : Activation}
    (hlevel : activation.level ≤ display.level + 1) :
    (display.install activation).Apart home base (fun level => own level ∨ level = activation.level)
      (count + 1) held where
  started := Nat.le_succ_of_le hapart.started
  next := (congrArg Stamp.next hapart.next).trans (Stamp.next_ofSerial count)
  inner level hle := .inl (hapart.inner level hle)
  scopes level hle := by
    have hbound : level ≤ activation.level := hle
    obtain heq | hbelow : level = activation.level ∨ level ≤ display.level := by omega
    · exact .inr heq
    · exact .inl (hapart.scopes level hbelow)
  older level frame hforeign hframe := by
    rw [frame?_install, if_neg fun heq => hforeign (.inr heq)] at hframe
    exact hapart.older level frame (fun hown => hforeign (.inl hown)) hframe
  newer level frame hown habove hframe := by
    rw [frame?_install] at hframe
    split at hframe
    · obtain rfl := Option.some.inj hframe
      exact ⟨count, hapart.started, Nat.lt_succ_self count, hapart.next⟩
    · rename_i hne
      exact (hapart.newer level frame (hown.resolve_right hne) habove hframe).mono
        (Nat.le_succ count)
  held reference hmem habove := (hapart.held reference hmem habove).mono (Nat.le_succ count)

end Apart

end Display

namespace Operation

variable {home base count : Nat} {fields : Prop} {own : Nat → Prop} {held : List Reference}

/-- A confined operation edits nothing apart from the program's own levels. -/
theorem own_of_edit {operation : Operation α} {display : Display}
    (hapart : display.Apart home base own count held) (hcount : count ≤ UInt64.size)
    (hconfined : operation.Confined home fields held display.level) {level : Nat} {edit : Edit}
    (hedit : operation.edit? display = some (level, edit)) : own level := by
  have hcurrent : own display.level := hapart.scopes _ (Nat.le_refl _)
  -- Only storing goes elsewhere, and then through a reference that is good.
  have hissuer {reference : Reference} {frame : Frame}
      (hgiven : reference.depth ≤ home ∨ reference ∈ held)
      (hissuer : display.issuer reference = .ok frame) : own reference.depth := by
    apply Classical.byContradiction
    intro hforeign
    rw [hapart.stale hcount hgiven hforeign] at hissuer
    cases hissuer
  cases operation with
  | define name => cases hedit; exact hcurrent
  | remove name => cases hedit; exact hcurrent
  | store reference value =>
    simp only [edit?] at hedit
    split at hedit <;> cases hedit
    exact hissuer hconfined ‹_›
  | assign reference value =>
    simp only [edit?] at hedit
    split at hedit
    · split at hedit <;> cases hedit
      exact hissuer hconfined ‹_›
    · cases hedit
  | declare decl => cases hedit; exact hcurrent
  | declareInner name parameters =>
    simp only [edit?] at hedit
    split at hedit <;> cases hedit
    exact hcurrent
  | undeclare name => cases hedit; exact hcurrent
  | _ => cases hedit

/-- A confined operation changes no frame apart, and what it hands out leads to none. -/
theorem apart_after {operation : Operation α} {machine : Machine σ}
    (hapart : machine.display.Apart home base own count held) (hcount : count ≤ UInt64.size)
    (hconfined : operation.Confined home fields held machine.display.level) :
    (operation.run.after machine).display.Apart home base own count
        (held ++ operation.handed (operation.run.answer machine)) ∧
      machine.display.SameApart own (operation.run.after machine).display := by
  have hkept : (operation.run.after machine).display.Apart home base own count held ∧
      machine.display.SameApart own (operation.run.after machine).display := by
    cases hedit : operation.edit? machine.display with
    | none =>
      obtain ⟨classes, interfaces, hafter⟩ := display_of_no_edit hedit
      rw [hafter]
      obtain ⟨hstarted, hnext, hinner, hscopes, holder, hnewer, hheld⟩ := hapart
      exact ⟨⟨hstarted, hnext, hinner, hscopes, holder, hnewer, hheld⟩, fun _ _ => rfl⟩
    | some made =>
      rw [display_of_edit hedit]
      exact hapart.editAt (own_of_edit hapart hcount hconfined hedit) made.2
  obtain ⟨hafter, hsame⟩ := hkept
  refine ⟨{ hafter with held := ?_ }, hsame⟩
  intro reference hmem habove
  obtain hold | hhanded := List.mem_append.mp hmem
  · exact hapart.held reference hold habove
  · obtain ⟨hdepth, frame, hframe, hstamp⟩ := installed_of_handed hhanded
    exact hapart.handed hdepth hframe hstamp habove

end Operation

namespace Machine

variable {home base count last : Nat} {own : Nat → Prop} {held holds : List Reference}
  {machine ended : Machine σ} {activation : Activation}

/-- After a call the frames apart are what they were before it, those at the level of the call
    included, provided that its body has changed none. -/
theorem left_sameApart
    (hbody : (machine.entered activation).display.SameApart
      (fun level => own level ∨ level = activation.level) ended.display) :
    machine.display.SameApart own (machine.left activation ended).display := by
  intro level hforeign
  rw [left, Display.frame?_restore]
  split
  · rename_i heq
    rw [heq]
  · rename_i hne
    rw [hbody level fun hown => hown.elim hforeign hne, entered, Display.frame?_install, if_neg hne]

theorem left_apart (hapart : machine.display.Apart home base own count held)
    (hcount : count ≤ last)
    (hended : ended.display.Apart home base (fun level => own level ∨ level = activation.level) last
      holds) :
    (machine.left activation ended).display.Apart home base own last holds where
  started := hended.started
  next := hended.next
  inner := hapart.inner
  scopes := hapart.scopes
  older level frame hforeign hframe := by
    rw [left, Display.frame?_restore] at hframe
    split at hframe
    · rename_i heq
      exact hapart.older level frame hforeign (heq ▸ hframe)
    · rename_i hne
      exact hended.older level frame (fun hown => hown.elim hforeign hne) hframe
  newer level frame hown habove hframe := by
    rw [left, Display.frame?_restore] at hframe
    split at hframe
    · rename_i heq
      exact (hapart.newer level frame hown habove (heq ▸ hframe)).mono hcount
    · exact hended.newer level frame (.inl hown) habove hframe
  held := hended.held

end Machine

end InterpreterCore

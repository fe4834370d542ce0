import InterpreterCore.Proofs.Activation.Edit

namespace InterpreterCore

namespace Activation

/-- Every entry of the table leads to a slot made for its name, the latest of them, and the entries
    stand in the order of their slots. -/
structure Tabled (activation : Activation) : Prop where
  named : ∀ entry ∈ activation.visible, activation.nameOf? entry.2 = some entry.1
  latest : ∀ entry ∈ activation.visible, ∀ slot,
    activation.nameOf? slot = some entry.1 → slot ≤ entry.2
  ascending : activation.visible.Pairwise fun first second => first.2 < second.2

theorem nameOf?_withContent (activation : Activation) (slot other : Nat)
    (content : Option Value) :
    (activation.withContent slot content).nameOf? other = activation.nameOf? other := by
  rw [nameOf?, getElem?_withContent, nameOf?]
  split
  · cases activation.slots[other]? <;> rfl
  · rfl

theorem nameOf?_withVariable (activation : Activation) (name : String) (slot : Nat) :
    (activation.withVariable name).nameOf? slot =
      if slot = activation.slots.size then some name else activation.nameOf? slot := by
  rw [nameOf?, withVariable, Array.getElem?_push, nameOf?]
  split <;> rfl

theorem lt_size_of_nameOf? {activation : Activation} {slot : Nat} {name : String}
    (hname : activation.nameOf? slot = some name) : slot < activation.slots.size := by
  obtain ⟨stored, hstored, _⟩ := Option.map_eq_some_iff.mp hname
  exact (Array.getElem?_eq_some_iff.mp hstored).1

/-- Only the slots' names and the table matter. -/
theorem Tabled.of_same {activation other : Activation} (htabled : activation.Tabled)
    (hvisible : other.visible.Sublist activation.visible)
    (hnames : ∀ slot, other.nameOf? slot = activation.nameOf? slot) : other.Tabled where
  named entry hentry := (hnames _).trans (htabled.named entry (hvisible.subset hentry))
  latest entry hentry slot hslot :=
    htabled.latest entry (hvisible.subset hentry) slot ((hnames slot).symm.trans hslot)
  ascending := htabled.ascending.sublist hvisible

theorem Tabled.withVariable {activation : Activation} (htabled : activation.Tabled)
    (name : String) : (activation.withVariable name).Tabled where
  named entry hentry := by
    rw [nameOf?_withVariable]
    obtain hold | hnew := List.mem_append.mp hentry
    · have hnamed := htabled.named entry (List.mem_filter.mp hold).1
      rw [if_neg (Nat.ne_of_lt (lt_size_of_nameOf? hnamed)), hnamed]
    · rw [List.mem_singleton.mp hnew, if_pos rfl]
  latest entry hentry slot hslot := by
    rw [nameOf?_withVariable] at hslot
    obtain hold | hnew := List.mem_append.mp hentry
    · obtain ⟨hmem, hother⟩ := List.mem_filter.mp hold
      split at hslot
      · exact absurd (Option.some.inj hslot).symm (by simpa using hother)
      · exact htabled.latest entry hmem slot hslot
    · rw [List.mem_singleton.mp hnew]
      split at hslot
      · omega
      · exact Nat.le_of_lt (lt_size_of_nameOf? hslot)
  ascending := by
    refine List.pairwise_append.mpr
      ⟨htabled.ascending.sublist List.filter_sublist, List.pairwise_singleton .., ?_⟩
    intro entry hentry new hnew
    rw [List.mem_singleton.mp hnew]
    exact lt_size_of_nameOf? (htabled.named entry (List.mem_filter.mp hentry).1)

theorem Tabled.apply {activation : Activation} (htabled : activation.Tabled) (edit : Edit) :
    (edit.apply activation).Tabled := by
  obtain ⟨_, happly⟩ | ⟨_, _, happly⟩ | ⟨name, happly⟩ | ⟨_, _, _, happly⟩ :=
    apply_cases edit activation
  · rw [happly]
    exact htabled.of_same (List.Sublist.refl _) fun _ => rfl
  · rw [happly]
    exact htabled.of_same (List.Sublist.refl _) fun other => nameOf?_withContent ..
  · rw [happly]
    exact htabled.withVariable name
  · rw [happly]
    exact htabled.of_same List.filter_sublist fun other => nameOf?_withContent ..

/-- No name is among those before it exactly if no name comes twice. -/
theorem firstRepeated?_eq_none_iff (before names : List String) :
    firstRepeated? before names = none ↔ names.Nodup ∧ ∀ name ∈ names, name ∉ before := by
  induction names generalizing before with
  | nil => simp [firstRepeated?]
  | cons name rest ih =>
    rw [firstRepeated?]
    by_cases hname : name ∈ before
    · simp [hname]
    · rw [if_neg hname, ih]
      simp only [List.nodup_cons, List.mem_cons, not_or]
      grind

theorem nodup_parameters {function : FunctionDecl} {first : Activation}
    (hfresh : fresh function = .ok first) : function.parameters.Nodup := by
  unfold fresh at hfresh
  split at hfresh
  · cases hfresh
  · rename_i hnone
    exact ((firstRepeated?_eq_none_iff [] _).mp hnone).1

/-- The name of a parameter's slot. -/
theorem nameOf?_ofFunction (function : FunctionDecl) (slot : Nat) :
    (ofFunction function).nameOf? slot = function.parameters[slot]? := by
  simp [nameOf?, ofFunction, Function.comp_def]

theorem tabled_ofFunction {function : FunctionDecl} (hnodup : function.parameters.Nodup) :
    (ofFunction function).Tabled where
  named entry hentry := by
    rw [nameOf?_ofFunction]
    exact List.mem_zipIdx_iff_getElem?.mp hentry
  latest entry hentry slot hslot := by
    rw [nameOf?_ofFunction] at hslot
    have hentry : function.parameters[entry.2]? = some entry.1 :=
      List.mem_zipIdx_iff_getElem?.mp hentry
    obtain ⟨hbound, _⟩ := List.getElem?_eq_some_iff.mp hslot
    exact Nat.le_of_eq ((List.getElem?_inj hbound hnodup).mp (hslot.trans hentry.symm))
  ascending := by
    have hslots : (function.parameters.zipIdx.map Prod.snd).Pairwise (· < ·) := by
      rw [List.zipIdx_map_snd]
      exact List.pairwise_lt_range'
    exact List.pairwise_map.mp hslots

theorem Tabled.edited {first : Activation} (htabled : first.Tabled) (edits : List Edit) :
    (edits.foldr Edit.apply first).Tabled := by
  induction edits with
  | nil => exact htabled
  | cons edit earlier ih => exact ih.apply edit

theorem Built.tabled {activation : Activation} {past : List Edit}
    (hbuilt : activation.Built past) : activation.Tabled := by
  obtain ⟨first, hfirst, _⟩ := id hbuilt
  rw [hbuilt.eq_edited]
  exact (tabled_ofFunction (nodup_parameters hfirst)).edited past

theorem function_edited (first : Activation) (edits : List Edit) :
    (edits.foldr Edit.apply first).function = first.function := by
  induction edits with
  | nil => rfl
  | cons edit earlier ih => exact (function_apply ..).trans ih

/-- Whatever is done to a fresh activation makes one that exists. -/
theorem built_of_fresh {function : FunctionDecl} {first : Activation}
    (hfresh : fresh function = .ok first) (edits : List Edit) :
    (edits.foldr Edit.apply first).Built edits := by
  have hfunction : first.function = function := by
    rw [fresh_eq_ok hfresh]
    rfl
  exact ⟨first, by rw [function_edited, hfunction, hfresh], rfl⟩

section Lookups

variable {activation : Activation} (htabled : activation.Tabled)
include htabled

/-- No name has two entries. -/
theorem Tabled.names_nodup : activation.visibleNames.Nodup := by
  refine List.pairwise_map.mpr (htabled.ascending.imp_of_mem ?_)
  intro first second hfirst hsecond hlt hname
  have hle := htabled.latest first hfirst second.2 (hname ▸ htabled.named second hsecond)
  omega

/-- A name stands for the slot to which its entry leads. -/
theorem Tabled.slotOf?_eq_some_iff {name : String} {slot : Nat} :
    activation.slotOf? name = some slot ↔ (name, slot) ∈ activation.visible := by
  rw [slotOf?, List.lookup_eq_some_iff]
  constructor
  · rintro ⟨before, rest, hsplit, _⟩
    simp [hsplit]
  · intro hentry
    obtain ⟨before, rest, hsplit⟩ := List.append_of_mem hentry
    refine ⟨before, rest, hsplit, fun entry hbefore => ?_⟩
    have hnodup := htabled.names_nodup
    rw [visibleNames, hsplit, List.map_append, List.nodup_append] at hnodup
    have hother := hnodup.2.2 _ (List.mem_map_of_mem hbefore) name (by simp)
    exact bne_iff_ne.mpr (Ne.symm hother)

/-- The visible names stand for slots in ascending order. -/
theorem Tabled.map_slotOf? :
    activation.visibleNames.map activation.slotOf? = activation.visible.map (some ∘ Prod.snd) := by
  rw [visibleNames, List.map_map]
  refine List.map_congr_left fun entry hentry => ?_
  exact htabled.slotOf?_eq_some_iff.mpr hentry

theorem Tabled.nameOf?_of_slotOf? {name : String} {slot : Nat}
    (hslot : activation.slotOf? name = some slot) : activation.nameOf? slot = some name :=
  htabled.named _ (htabled.slotOf?_eq_some_iff.mp hslot)

/-- In whatever order the entries of the table are enumerated, putting them in the order of their
    slots gives the visible names. -/
theorem Tabled.map_fst_of_sorted {entries sorted : List (String × Nat)} (hnodup : entries.Nodup)
    (hentries : ∀ name slot, (name, slot) ∈ entries ↔ activation.slotOf? name = some slot)
    (hperm : sorted.Perm entries)
    (hsorted : sorted.Pairwise fun first second => first.2 ≤ second.2) :
    sorted.map Prod.fst = activation.visibleNames := by
  have hvisible : activation.visible.Nodup :=
    htabled.ascending.imp fun hlt hsame => Nat.ne_of_lt hlt (congrArg Prod.snd hsame)
  have hmem : ∀ entry, entry ∈ entries ↔ entry ∈ activation.visible := fun entry =>
    (hentries entry.1 entry.2).trans htabled.slotOf?_eq_some_iff
  have hall : sorted.Perm activation.visible :=
    hperm.trans ((List.perm_ext_iff_of_nodup hnodup hvisible).mpr hmem)
  have hsame : sorted = activation.visible := by
    refine hall.eq_of_pairwise ?_ hsorted (htabled.ascending.imp Nat.le_of_lt)
    -- Two entries with one slot bear the name of that slot.
    intro first second hfirst hsecond hle hge
    have hslot : first.2 = second.2 := Nat.le_antisymm hle hge
    have hname := htabled.named first (hall.subset hfirst)
    rw [hslot, htabled.named second hsecond] at hname
    exact Prod.ext (Option.some.inj hname).symm hslot
  rw [hsame, visibleNames]

end Lookups

/-- What the names of an activation say of its slots. -/
structure NamesFaithfully (activation : Activation) : Prop where
  /-- The slot of a visible name exists and was made for it. -/
  named : ∀ name slot, activation.slotOf? name = some slot → activation.nameOf? slot = some name
  /-- No later slot was made for the name. -/
  latest : ∀ name slot, activation.slotOf? name = some slot →
    ∀ other, activation.nameOf? other = some name → other ≤ slot
  /-- No two names stand for one slot. -/
  distinct : ∀ name other slot, activation.slotOf? name = some slot →
    activation.slotOf? other = some slot → name = other
  listed : ∀ name, name ∈ activation.visibleNames ↔ (activation.slotOf? name).isSome
  once : activation.visibleNames.Nodup
  ascending : ∃ slots : List Nat,
    activation.visibleNames.map activation.slotOf? = slots.map some ∧
    slots.Pairwise (· < ·)
  /-- The list does not depend on the order in which the entries of the table are come by. -/
  sorted : ∀ entries sorted : List (String × Nat), entries.Nodup →
    (∀ name slot, (name, slot) ∈ entries ↔ activation.slotOf? name = some slot) →
    sorted.Perm entries → (sorted.Pairwise fun first second => first.2 ≤ second.2) →
    sorted.map Prod.fst = activation.visibleNames

theorem Tabled.namesFaithfully {activation : Activation} (htabled : activation.Tabled) :
    activation.NamesFaithfully where
  named _ _ hslot := htabled.nameOf?_of_slotOf? hslot
  latest _ _ hslot := htabled.latest _ (htabled.slotOf?_eq_some_iff.mp hslot)
  distinct _ _ _ hfirst hsecond := by
    have hname := htabled.nameOf?_of_slotOf? hfirst
    rw [htabled.nameOf?_of_slotOf? hsecond] at hname
    exact (Option.some.inj hname).symm
  listed name := by
    simp only [visibleNames, List.mem_map, Option.isSome_iff_exists, htabled.slotOf?_eq_some_iff]
    exact ⟨fun ⟨entry, hentry, hname⟩ => ⟨entry.2, hname ▸ hentry⟩,
      fun ⟨slot, hentry⟩ => ⟨_, hentry, rfl⟩⟩
  once := htabled.names_nodup
  ascending := ⟨activation.visible.map Prod.snd, by rw [htabled.map_slotOf?, List.map_map],
    List.pairwise_map.mpr htabled.ascending⟩
  sorted _ _ := htabled.map_fst_of_sorted

/-- What a later state of an activation keeps: its slots with their names, and that a slot which no
    name stands for is out of reach of all names. -/
structure KeepsSlots (earlier later : Activation) : Prop where
  size_le : earlier.slots.size ≤ later.slots.size
  names : ∀ slot name, earlier.nameOf? slot = some name → later.nameOf? slot = some name
  hidden : ∀ slot, slot < earlier.slots.size → (∀ name, earlier.slotOf? name ≠ some slot) →
    ∀ name, later.slotOf? name ≠ some slot

namespace KeepsSlots

theorem refl (activation : Activation) : activation.KeepsSlots activation :=
  ⟨Nat.le_refl _, fun _ _ hname => hname, fun _ _ hhidden => hhidden⟩

theorem trans {earlier between later : Activation} (hfirst : earlier.KeepsSlots between)
    (hsecond : between.KeepsSlots later) : earlier.KeepsSlots later where
  size_le := Nat.le_trans hfirst.size_le hsecond.size_le
  names slot name hname := hsecond.names slot name (hfirst.names slot name hname)
  hidden slot hslot hhidden :=
    hsecond.hidden slot (Nat.lt_of_lt_of_le hslot hfirst.size_le) (hfirst.hidden slot hslot hhidden)

/-- Every edit keeps the slots. A new slot is the only one for which a name can come to stand. -/
theorem apply (edit : Edit) (activation : Activation) :
    activation.KeepsSlots (edit.apply activation) := by
  refine ⟨size_le_size_apply edit activation, ?_, ?_⟩
  · intro slot name hname
    obtain ⟨_, happly⟩ | ⟨_, _, happly⟩ | ⟨_, happly⟩ | ⟨_, _, _, happly⟩ :=
      apply_cases edit activation
    · rw [happly]
      exact hname
    · rw [happly, nameOf?_withContent, hname]
    · rw [happly, nameOf?_withVariable, if_neg (Nat.ne_of_lt (lt_size_of_nameOf? hname)), hname]
    · rw [happly]
      exact (nameOf?_withContent ..).trans hname
  · intro slot hslot hhidden name
    obtain ⟨_, happly⟩ | ⟨_, _, happly⟩ | ⟨new, happly⟩ | ⟨old, _, _, happly⟩ :=
      apply_cases edit activation
    · rw [happly]
      exact hhidden name
    · rw [happly]
      exact hhidden name
    · rw [happly, slotOf?_withVariable]
      split
      · exact fun hsize => Nat.ne_of_gt hslot (Option.some.inj hsize)
      · exact hhidden name
    · rw [happly, slotOf?, otherNames, lookup_filter_ne]
      split
      · exact (Option.some_ne_none slot).symm
      · exact hhidden name

/-- So does every sequence of edits. -/
theorem edited (edits : List Edit) (activation : Activation) :
    activation.KeepsSlots (edits.foldr Edit.apply activation) := by
  induction edits with
  | nil => exact .refl _
  | cons edit earlier ih => exact ih.trans (.apply edit _)

end KeepsSlots

/-- The number that an edit hands out, if it makes a slot. -/
def handedOut? (activation : Activation) : Edit → Option Nat
  | .define policy name => ((Activation.define policy name).answer activation).toOption
  | _ => none

/-- The slot numbers handed out in the past of an activation, one after the other: those of the
    parameters, and then one for each further variable. -/
def handedOut (function : FunctionDecl) : List Edit → List Nat
  | [] => function.parameters.filterMap (ofFunction function).slotOf?
  | edit :: earlier =>
    handedOut function earlier ++
      ((earlier.foldr Edit.apply (ofFunction function)).handedOut? edit).toList

/-- A slot is added exactly where a number is handed out, and that number is the next one. -/
theorem range_size_apply (edit : Edit) (activation : Activation) :
    List.range (edit.apply activation).slots.size =
      List.range activation.slots.size ++ (activation.handedOut? edit).toList := by
  cases edit with
  | store slot value => simp [Edit.apply, after_store, handedOut?]
  | bind index value =>
    rw [Edit.apply, after_bindParameter]
    split <;> simp [handedOut?]
  | define policy name =>
    rw [Edit.apply, after_define, handedOut?, answer_define]
    split
    · simp [Except.toOption]
    · simp [withVariable, List.range_succ, Except.toOption]
  | remove name =>
    rw [Edit.apply, after_remove]
    split <;> simp [handedOut?]
  | declare policy decl =>
    rw [Edit.apply, after_declare]
    split <;> simp [handedOut?]
  | undeclare name => simp [Edit.apply, after_undeclare, handedOut?]

theorem handedOut_parameters {function : FunctionDecl} (hnodup : function.parameters.Nodup) :
    function.parameters.filterMap (ofFunction function).slotOf? =
      List.range function.parameters.length := by
  have hnames : (ofFunction function).visibleNames = function.parameters := List.zipIdx_map_fst ..
  have hslots := (tabled_ofFunction hnodup).map_slotOf?
  rw [hnames] at hslots
  calc function.parameters.filterMap (ofFunction function).slotOf?
      = (function.parameters.map (ofFunction function).slotOf?).filterMap id := by
        rw [List.filterMap_map, Function.id_comp]
    _ = function.parameters.zipIdx.map Prod.snd := by
        rw [hslots, List.filterMap_map, Function.id_comp, List.filterMap_eq_map]
        rfl
    _ = List.range function.parameters.length := by
        rw [List.zipIdx_map_snd, List.range_eq_range']

theorem handedOut_eq_range {function : FunctionDecl} (hnodup : function.parameters.Nodup)
    (past : List Edit) :
    handedOut function past =
      List.range (past.foldr Edit.apply (ofFunction function)).slots.size := by
  induction past with
  | nil =>
    rw [handedOut, handedOut_parameters hnodup]
    simp [ofFunction]
  | cons edit earlier ih => rw [handedOut, ih, ← range_size_apply, List.foldr_cons]

theorem Built.handedOut_eq_range {activation : Activation} {past : List Edit}
    (hbuilt : activation.Built past) :
    handedOut activation.function past = List.range activation.slots.size := by
  obtain ⟨first, hfirst, _⟩ := id hbuilt
  rw [Activation.handedOut_eq_range (nodup_parameters hfirst), ← hbuilt.eq_edited]

/-- Every parameter has its slot. -/
theorem Built.arity_le {activation : Activation} {past : List Edit}
    (hbuilt : activation.Built past) : activation.function.arity ≤ activation.slots.size := by
  have hkeeps := (KeepsSlots.edited past (ofFunction activation.function)).size_le
  rw [← hbuilt.eq_edited] at hkeeps
  simpa [ofFunction, FunctionDecl.arity] using hkeeps

/-- Reading a slot that exists depends on that slot alone. -/
theorem value_of_getElem? {activation : Activation} {slot : Nat} {stored : Slot}
    (hstored : activation.slots[slot]? = some stored) :
    activation.value slot =
      match stored.content with
      | some value => .ok value
      | none => .error (.uninitializedVariable stored.name) := by
  obtain ⟨name, content⟩ := stored
  cases content <;> simp only [Activation.value, hstored]

/-- What one edit does to the names and the slots of an activation: to those that it is about, and
    to the others. -/
structure EditsLocally (activation : Activation) : Prop where
  /-- A slot in which something is stored holds it. -/
  stored : ∀ slot value, slot < activation.slots.size →
    (store slot value).answer activation = .ok () ∧
    ((Edit.store slot value).apply activation).value slot = .ok value
  /-- A parameter is bound in the slot of its position. -/
  bound : ∀ index value, index < activation.function.arity →
    (bindParameter index value).answer activation = .ok () ∧
    ((Edit.bind index value).apply activation).value index = .ok value
  /-- No other slot is bound in this way. -/
  unbound : ∀ index value, activation.function.arity ≤ index →
    (bindParameter index value).answer activation =
      .error (.argumentOutOfRange activation.function.name index activation.function.arity) ∧
    (Edit.bind index value).apply activation = activation
  /-- A new variable has the next slot, an empty one for which its name now stands. -/
  defined : ∀ policy name slot, (define policy name).answer activation = .ok slot →
    slot = activation.slots.size ∧
    ((Edit.define policy name).apply activation).slotOf? name = some slot ∧
    ((Edit.define policy name).apply activation).value slot = .error (.uninitializedVariable name)
  /-- A removed variable has neither a name nor a value. -/
  removed : ∀ name slot, activation.slotOf? name = some slot →
    (remove name).answer activation = .ok true ∧
    ((Edit.remove name).apply activation).slotOf? name = none ∧
    ((Edit.remove name).apply activation).value slot = .error (.uninitializedVariable name)
  otherNames : ∀ (edit : Edit) name, (∀ policy, edit ≠ .define policy name) →
    edit ≠ .remove name → (edit.apply activation).slotOf? name = activation.slotOf? name
  otherSlots : ∀ (edit : Edit) slot, slot < activation.slots.size →
    edit.Spares activation slot → (edit.apply activation).value slot = activation.value slot

/-- A name keeps its slot unless it is itself defined or removed. -/
theorem slotOf?_apply_of_ne {activation : Activation} {edit : Edit} {name : String}
    (hdefine : ∀ policy, edit ≠ .define policy name) (hremove : edit ≠ .remove name) :
    (edit.apply activation).slotOf? name = activation.slotOf? name := by
  cases edit with
  | store slot value =>
    rw [Edit.apply, after_store]
    rfl
  | bind index value =>
    rw [Edit.apply, after_bindParameter]
    split <;> rfl
  | define policy other =>
    have hother : name ≠ other := fun hsame => hdefine policy (hsame ▸ rfl)
    rw [Edit.apply, after_define]
    split
    · rfl
    · rw [slotOf?_withVariable, if_neg hother]
  | remove other =>
    have hother : name ≠ other := fun hsame => hremove (hsame ▸ rfl)
    rw [Edit.apply, after_remove]
    split
    · rfl
    · rw [slotOf?, otherNames, lookup_filter_ne, if_neg hother, slotOf?]
  | declare policy decl =>
    rw [Edit.apply, after_declare]
    split <;> rfl
  | undeclare other => rfl

/-- Every edit is local where each name has its slot and each parameter has one. -/
theorem Tabled.editsLocally {activation : Activation} (htabled : activation.Tabled)
    (harity : activation.function.arity ≤ activation.slots.size) : activation.EditsLocally where
  stored slot value hslot := by
    rw [answer_store, if_pos hslot, Edit.apply, after_store, value_withContent _ _ _ hslot]
    exact ⟨rfl, rfl⟩
  bound index value hindex := by
    have hslot : index < activation.slots.size := Nat.lt_of_lt_of_le hindex harity
    have hstore : bindParameter index value activation = store index value activation :=
      if_pos hindex
    rw [Update.answer, hstore, ← Update.answer, answer_store, if_pos hslot, Edit.apply,
      after_bindParameter, if_pos hindex, value_withContent _ _ _ hslot]
    exact ⟨rfl, rfl⟩
  unbound index value hindex := by
    have hrefused : bindParameter index value activation = .error _ activation :=
      if_neg (Nat.not_lt.mpr hindex)
    rw [Update.answer, Edit.apply, Update.after, hrefused]
    exact ⟨rfl, rfl⟩
  defined policy name slot hslot := by
    rw [answer_define] at hslot
    split at hslot
    · cases hslot
    · rename_i haccepted
      cases hslot
      have hnew : (activation.withVariable name).slots[activation.slots.size]? = some { name } := by
        rw [Activation.withVariable, Array.getElem?_push, if_pos rfl]
      rw [Edit.apply, after_define, if_neg haccepted, slotOf?_withVariable, if_pos rfl,
        value_of_getElem? hnew]
      exact ⟨rfl, rfl, rfl⟩
  removed name slot hslot := by
    obtain ⟨stored, hstored, rfl⟩ := Option.map_eq_some_iff.mp (htabled.nameOf?_of_slotOf? hslot)
    have hcleared : ((Edit.remove stored.name).apply activation).slots[slot]? =
        some ⟨stored.name, none⟩ := by
      rw [Edit.apply, after_remove, hslot]
      exact (getElem?_withContent ..).trans (by rw [if_pos rfl, hstored]; rfl)
    refine ⟨by rw [answer_remove, hslot]; rfl, ?_, value_of_getElem? hcleared⟩
    rw [Edit.apply, after_remove, hslot]
    exact (lookup_filter_ne ..).trans (if_pos rfl)
  otherNames _ _ := slotOf?_apply_of_ne
  otherSlots edit slot hslot hspares := by
    have hstored : activation.slots[slot]? = some activation.slots[slot] :=
      Array.getElem?_eq_getElem hslot
    rw [value_of_getElem? hstored, value_of_getElem? (getElem?_apply_of_spares hstored hspares)]

/-- The names and the slots of every activation that exists. Take any activation, whatever has been
    defined, removed, stored and bound in it, under whatever names and in whatever slots. Each
    visible name stands for the latest slot made for it, different names for different slots, and
    the list of them is in the order of their slots. The slot numbers handed out so far are
    `0, 1, 2, …`. Each edit does its work in its own slot and for its own name and leaves the other
    slots and names as they are; and whatever is done from here on, no slot is lost or gets another
    name, and no slot for which no name stands comes back under one. -/
theorem table_faithful {activation : Activation} {past : List Edit}
    (hbuilt : activation.Built past) :
    activation.NamesFaithfully ∧
    handedOut activation.function past = List.range activation.slots.size ∧
    activation.EditsLocally ∧
    ∀ edits : List Edit, activation.KeepsSlots (edits.foldr Edit.apply activation) :=
  ⟨hbuilt.tabled.namesFaithfully, hbuilt.handedOut_eq_range,
    hbuilt.tabled.editsLocally hbuilt.arity_le, fun edits => .edited edits activation⟩

/-- A parameter `x` is defined anew twice and then removed. Its three slots keep their numbers, and
    the middle one its value; no name stands for any of them, nor ever will. -/
theorem table_faithful_after_removal :
    let first : Activation := .ofFunction ⟨"f", 1, ["x"]⟩
    let past : List Edit :=
      [.remove "x", .define .shadow "x", .store 2 (.boolean true), .define .reject "x",
        .define .shadow "x", .bind 0 (.boolean false), .define .reject "y"]
    let activation := past.foldr Edit.apply first
    activation.Built past ∧
    handedOut activation.function past = [0, 1, 2, 3] ∧
    activation.visibleNames = ["y"] ∧
    (∀ (edits : List Edit) (name : String),
      (edits.foldr Edit.apply activation).slotOf? name ≠ some 2) ∧
    ∀ edit : Edit, edit.Spares activation 2 →
      (edit.apply activation).value 2 = .ok (.boolean true) := by
  intro first past activation
  have hfresh : fresh first.function = .ok first := rfl
  have hbuilt : activation.Built past := built_of_fresh hfresh past
  obtain ⟨hnames, hhanded, hlocal, hkeeps⟩ := table_faithful hbuilt
  have hhidden : ∀ name, activation.slotOf? name ≠ some 2 := fun name hslot => by
    have hname : activation.nameOf? 2 = some "x" := by decide
    have hgone : activation.slotOf? "x" = none := by decide
    rw [hnames.named name 2 hslot] at hname
    rw [Option.some.inj hname, hgone] at hslot
    cases hslot
  have hsize : activation.slots.size = 4 := by decide
  have hslot : 2 < activation.slots.size := by omega
  have hstored : activation.slots[2]? = some ⟨"x", some (.boolean true)⟩ := by decide
  have hrange : handedOut activation.function past = [0, 1, 2, 3] := by rw [hhanded, hsize]; rfl
  have hvisible : activation.visibleNames = ["y"] := by decide
  exact ⟨hbuilt, hrange, hvisible, fun edits => (hkeeps edits).hidden 2 hslot hhidden,
    fun edit hspares => (hlocal.otherSlots edit 2 hslot hspares).trans (value_of_getElem? hstored)⟩

end Activation

end InterpreterCore

import InterpreterCore.Display.Declarations
import InterpreterCore.Proofs.Declaration.Lineage
import Mathlib.Data.List.TakeWhile

namespace InterpreterCore

namespace ClassDecl

/-- A search among classes goes through the first of them before it comes to the others. -/
theorem findAmong?_append (name : String) (first second : List ClassDecl) :
    findAmong? name (first ++ second) = (findAmong? name first).or (findAmong? name second) := by
  induction first with
  | nil => rw [List.nil_append, findAmong?, Option.none_or]
  | cons decl rest ih =>
    rw [List.cons_append, findAmong?, findAmong?]
    split
    · rfl
    · split
      · rfl
      · exact ih

/-- Among classes of other names only the classes nested in them can be found. -/
theorem findAmong?_of_absent {name : String} {decls : List ClassDecl}
    (habsent : ∀ decl ∈ decls, decl.name ≠ name) :
    findAmong? name decls = decls.findSome? fun decl => decl.descendant? name := by
  induction decls with
  | nil => rw [findAmong?, List.findSome?_nil]
  | cons decl rest ih =>
    obtain ⟨hdecl, hrest⟩ := List.forall_mem_cons.mp habsent
    rw [findAmong?, if_neg hdecl, List.findSome?_cons, ih hrest, descendant?]
    cases findBelow? name decl <;> rfl

mutual

/-- What a search below a class finds bears the name. -/
theorem name_of_findBelow? {name : String} {decl found : ClassDecl}
    (hfound : findBelow? name decl = some found) : found.name = name := by
  obtain ⟨_, _, _, _, classes⟩ := decl
  rw [findBelow?] at hfound
  exact name_of_findAmong? hfound

theorem name_of_findAmong? {name : String} {decls : List ClassDecl} {found : ClassDecl}
    (hfound : findAmong? name decls = some found) : found.name = name := by
  cases decls with
  | nil =>
    rw [findAmong?] at hfound
    cases hfound
  | cons decl rest =>
    rw [findAmong?] at hfound
    split at hfound
    · rename_i hname
      cases hfound
      exact hname
    · split at hfound
      · rename_i hbelow
        cases hfound
        exact name_of_findBelow? hbelow
      · exact name_of_findAmong? hfound

end

end ClassDecl

namespace ClassTable

/-- The classes that stand before that of a name; all of them, if there is none of the name. -/
def before (table : ClassTable) (name : String) : List ClassDecl :=
  table.entries.takeWhile fun decl => decl.name != name

/-- The class that hides those of its name further on: the first one nested, at whatever depth, in
    the classes before that of the name. -/
def hiding? (table : ClassTable) (name : String) : Option ClassDecl :=
  (table.before name).findSome? fun decl => decl.descendant? name

/-- A class is what the program has under a name, wherever it is looked for: by the search through
    the whole program, as a class that is expected to exist, and as the first one to be asked for a
    method. -/
structure Stands (table : ClassTable) (name : String) (decl : ClassDecl) : Prop where
  anywhere : table.anywhere? name = some decl
  required : ∀ display : Display, display.classes = table → display.requireClass name = .ok decl
  methods : ∀ method own, decl.method? method = some own → table.methodOf? name method = some own

theorem anywhere?_eq (table : ClassTable) (name : String) :
    table.anywhere? name = ClassDecl.findAmong? name table.entries := by
  rw [anywhere?, ClassDecl.descendant?, root, ClassDecl.findBelow?]

/-- A class outside any other is found by the search through the whole program, unless one is hiding
    it. -/
theorem anywhere?_of_find? {table : ClassTable} {name : String} {decl : ClassDecl}
    (hdecl : table.find? name = some decl) :
    table.anywhere? name = some ((table.hiding? name).getD decl) := by
  obtain ⟨hname, earlier, rest, hentries, hothers⟩ := List.find?_eq_some_iff_append.mp hdecl
  have hname : decl.name = name := beq_iff_eq.mp hname
  have hothers : ∀ other ∈ earlier, other.name ≠ name := fun other hother => by
    simpa [Declared.name] using hothers other hother
  have hbefore : table.before name = earlier := by
    rw [before, hentries, List.takeWhile_append_of_pos fun other hother => by
      simpa using hothers other hother, List.takeWhile_cons_of_neg (by simp [hname]),
      List.append_nil]
  have hhere : ClassDecl.findAmong? name (decl :: rest) = some decl := by
    rw [ClassDecl.findAmong?, if_pos hname]
  rw [anywhere?_eq, hentries, ClassDecl.findAmong?_append, ClassDecl.findAmong?_of_absent hothers,
    hhere, hiding?, hbefore]
  cases earlier.findSome? fun other => other.descendant? name <;> rfl

/-- The class that is found under a name is the first one to be asked for a method. -/
theorem methodOf?_of_own {table : ClassTable} {name method : String} {decl : ClassDecl}
    {own : FunctionDecl} (hdecl : table.anywhere? name = some decl)
    (hown : decl.method? method = some own) : table.methodOf? name method = some own := by
  rw [methodOf?, ancestry, hdecl]
  dsimp only
  rw [lineageLimit, lineage, List.findSome?_cons, hown]

theorem stands_of_anywhere? {table : ClassTable} {name : String} {decl : ClassDecl}
    (hdecl : table.anywhere? name = some decl) : table.Stands name decl where
  anywhere := hdecl
  required display hclasses := by rw [Display.requireClass, hclasses, hdecl]
  methods _ _ hown := methodOf?_of_own hdecl hown

theorem name_of_hiding? {table : ClassTable} {name : String} {nested : ClassDecl}
    (hhiding : table.hiding? name = some nested) : nested.name = name := by
  obtain ⟨_, _, hfound⟩ := List.exists_of_findSome?_eq_some hhiding
  exact ClassDecl.name_of_findBelow? hfound

theorem ne_of_mem_before {table : ClassTable} {name : String} {decl : ClassDecl}
    (hdecl : decl ∈ table.before name) : decl.name ≠ name := by
  simpa using List.mem_takeWhile_imp hdecl

/-- Entering a class leaves the classes before it as they are. -/
theorem before_put (table : ClassTable) (decl : ClassDecl) :
    before (table.put decl) decl.name = table.before decl.name := by
  by_cases hpresent : table.declares (Declared.name decl) = true
  · have hkept : (fun entry : ClassDecl => entry.name != decl.name) ∘
        (fun entry => if Declared.name entry == Declared.name decl then decl else entry) =
        fun entry => entry.name != decl.name := by
      funext entry
      by_cases hname : entry.name = decl.name <;> simp [Declared.name, hname]
    have habsent : Declared.name decl ∉ (table.before decl.name).map Declared.name := by
      intro hmem
      obtain ⟨entry, hentry, hname⟩ := List.mem_map.mp hmem
      exact ne_of_mem_before hentry hname
    rw [before, DeclTable.put, if_pos hpresent, List.takeWhile_map, hkept]
    exact DeclTable.replace_of_absent _ decl habsent
  · have hothers : ∀ entry ∈ table.entries, (entry.name != decl.name) = true := by
      intro entry hentry
      rw [bne_iff_ne]
      intro hname
      exact hpresent (List.any_eq_true.mpr ⟨entry, hentry, beq_iff_eq.mpr hname⟩)
    rw [before, DeclTable.put, if_neg hpresent, List.takeWhile_append_of_pos hothers,
      List.takeWhile_cons_of_neg (by simp), List.append_nil, before,
      List.takeWhile_eq_self_iff.mpr hothers]

theorem hiding?_put (table : ClassTable) (decl : ClassDecl) :
    hiding? (table.put decl) decl.name = table.hiding? decl.name := by
  rw [hiding?, before_put, hiding?]

/-- A class that has just been declared, under either policy, is found by its name among the classes
    outside any other. In the whole program its name stands for it exactly as long as no class of the
    name is nested, at whatever depth, in the classes before it; otherwise it stands for the first of
    those. The same goes for all classes outside any other, so that the two ways of looking up agree
    on each of them that none is hiding. Nothing is assumed of how the classes nest. -/
theorem declared_class_stands {policy : Redefinition} {decl added : ClassDecl}
    {table after : ClassTable} (hadd : DeclTable.add policy decl table = .ok added after) :
    added = decl ∧ after.find? decl.name = some decl ∧
      (table.hiding? decl.name = none → after.Stands decl.name decl) ∧
      (∀ nested, table.hiding? decl.name = some nested →
        nested.name = decl.name ∧ after.Stands decl.name nested) ∧
      ∀ name other, after.find? name = some other →
        after.anywhere? name = some ((after.hiding? name).getD other) := by
  have hafter : added = decl ∧ after = table.put decl := by
    rw [DeclTable.add] at hadd
    split at hadd
    · cases hadd
    · cases hadd
      exact ⟨rfl, rfl⟩
  obtain ⟨rfl, rfl⟩ := hafter
  have hfound : (table.put added).find? added.name = some added :=
    (DeclTable.find?_put table added _).trans (if_pos rfl)
  have hanywhere := anywhere?_of_find? hfound
  rw [hiding?_put] at hanywhere
  refine ⟨rfl, hfound, fun hnone => ?_, fun nested hnested => ⟨name_of_hiding? hnested, ?_⟩,
    fun _ _ hother => anywhere?_of_find? hother⟩
  · rw [hnone] at hanywhere
    exact stands_of_anywhere? hanywhere
  · rw [hnested] at hanywhere
    exact stands_of_anywhere? hanywhere

/-- A class of the name that is nested further on does not hide the one that is declared again. -/
theorem stands_before_nested :
    let table := declaring [⟨"A", none, [], [], [⟨"I", none, [], [], []⟩]⟩, ⟨"B", none, [], [], []⟩,
      ⟨"C", none, [], [], [⟨"B", none, [], [], []⟩]⟩]
    let decl : ClassDecl := ⟨"B", some "A", [], [⟨"m", 1, []⟩], []⟩
    let after : ClassTable := table.put decl
    DeclTable.add .shadow decl table = .ok decl after ∧ table.hiding? "B" = none ∧
      after.find? "B" = some decl ∧ after.Stands "B" decl := by
  intro table decl after
  have hadd : DeclTable.add .shadow decl table = .ok decl after := rfl
  obtain ⟨_, hfound, hstands, _⟩ := declared_class_stands hadd
  exact ⟨hadd, rfl, hfound, hstands rfl⟩

/-- A class that is nested in an earlier one hides the class of its name that is declared after it:
    the search through the program finds the nested one, and the methods of the other are out of
    reach. -/
theorem hidden_by_earlier_nested :
    let nested : ClassDecl := ⟨"B", none, [], [], []⟩
    let table := declaring [⟨"A", none, [], [], [nested]⟩]
    let decl : ClassDecl := ⟨"B", none, [], [⟨"m", 1, []⟩], []⟩
    let after : ClassTable := table.put decl
    let display : Display := { Display.create {} with classes := after }
    DeclTable.add .reject decl table = .ok decl after ∧ after.find? "B" = some decl ∧
      decl.method? "m" = some ⟨"m", 1, []⟩ ∧ decl ≠ nested ∧
      after.anywhere? "B" = some nested ∧ display.requireClass "B" = .ok nested ∧
      after.methodOf? "B" "m" = none := by
  intro nested table decl after display
  refine ⟨rfl, rfl, rfl, fun hsame => ?_, rfl, rfl, rfl⟩
  cases congrArg ClassDecl.methods hsame

end ClassTable

end InterpreterCore

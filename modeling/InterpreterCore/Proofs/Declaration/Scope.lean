import InterpreterCore.Proofs.Declaration.History

namespace InterpreterCore

namespace ClassDecl

/-- The first class is the second, or the second is nested in it at some depth. -/
inductive Encloses : ClassDecl → ClassDecl → Prop where
  | self (decl : ClassDecl) : Encloses decl decl
  | nested {outer middle inner : ClassDecl} (hmiddle : middle ∈ outer.classes)
      (hinner : Encloses middle inner) : Encloses outer inner

/-- No two methods of a class, and no two classes immediately in it, have one name. -/
structure Unrepeated (decl : ClassDecl) : Prop where
  methods : (decl.methods.map FunctionDecl.name).Nodup
  classes : (decl.classes.map ClassDecl.name).Nodup

/-- A name that is declared in a class stands for its latest declaration there. -/
structure FindsLatest (decl : ClassDecl) : Prop where
  methods : ∀ name,
    decl.method? name = decl.methods.reverse.find? fun method => method.name == name
  classes : ∀ name,
    decl.nested? name = decl.classes.reverse.find? fun nested => nested.name == name

/-- A policy governs the body of a class: what it refuses is not there, and what it lets be declared
    again stands for its latest declaration. -/
def Governed : Redefinition → ClassDecl → Prop
  | .reject, decl => decl.Unrepeated
  | .shadow, decl => decl.FindsLatest

/-- Where names are distinct, it does not matter from which end they are looked up. -/
theorem find?_reverse_of_nodup {α : Type} (name : α → String) {list : List α}
    (hdistinct : (list.map name).Nodup) (wanted : String) :
    list.find? (fun entry => name entry == wanted) =
      list.reverse.find? fun entry => name entry == wanted := by
  induction list with
  | nil => rfl
  | cons entry rest ih =>
    obtain ⟨hentry, hrest⟩ := List.nodup_cons.mp hdistinct
    rw [List.reverse_cons, List.find?_append, ← ih hrest, List.find?_cons]
    by_cases hname : name entry = wanted
    · have habsent : rest.find? (fun entry => name entry == wanted) = none := by
        rw [List.find?_eq_none]
        intro other hother hsame
        have hsame : name other = name entry := (beq_iff_eq.mp hsame).trans hname.symm
        exact hentry (hsame ▸ List.mem_map_of_mem hother)
      rw [beq_iff_eq.mpr hname, habsent, Option.none_or, List.find?_cons, beq_iff_eq.mpr hname]
    · rw [beq_false_of_ne hname, List.find?_cons, beq_false_of_ne hname, List.find?_nil,
        Option.or_none]

/-- Either policy governs a body that repeats no name. -/
theorem Unrepeated.governed {decl : ClassDecl} (hunrepeated : decl.Unrepeated)
    (policy : Redefinition) : decl.Governed policy := by
  cases policy with
  | reject => exact hunrepeated
  | shadow =>
    exact ⟨find?_reverse_of_nodup _ hunrepeated.methods,
      find?_reverse_of_nodup _ hunrepeated.classes⟩

/-- A method is found under its name unless there is an earlier one of the name. -/
theorem method?_withMethod (decl : ClassDecl) (method : FunctionDecl) (name : String) :
    (decl.withMethod method).method? name =
      (decl.method? name).or (if method.name = name then some method else none) := by
  rw [method?, withMethod, List.find?_append, List.find?_singleton]
  simp only [beq_iff_eq]
  rfl

theorem nested?_withClass (decl nested : ClassDecl) (name : String) :
    (decl.withClass nested).nested? name =
      (decl.nested? name).or (if nested.name = name then some nested else none) := by
  rw [nested?, withClass, List.find?_append, List.find?_singleton]
  simp only [beq_iff_eq]
  rfl

end ClassDecl

namespace ClassTable

/-- The table after attempts to declare some classes under one policy, of which the latest is the
    first in the list. -/
def underPolicy (policy : Redefinition) (decls : List ClassDecl) : ClassTable :=
  DeclTable.ofHistory (decls.map fun decl => (policy, decl))

section Under

variable (policy : Redefinition) (decls : List ClassDecl)

/-- A class stands outside any other if it was declared and is what its name stands for. -/
theorem mem_entries_underPolicy (decl : ClassDecl) :
    decl ∈ (underPolicy policy decls).entries ↔
      decl ∈ decls ∧ (underPolicy policy decls).find? decl.name = some decl := by
  rw [underPolicy, DeclTable.mem_entries_iff]
  have hattempts : (decls.map fun decl => (policy, decl)).map Prod.snd = decls := by
    rw [List.map_map]
    exact List.map_id decls
  refine ⟨fun hfound => ⟨?_, hfound⟩, And.right⟩
  rw [DeclTable.find?_ofHistory] at hfound
  exact hattempts ▸ DeclTable.mem_of_mem_declared (List.mem_of_find?_eq_some hfound)

/-- Besides the root a program has the classes that were declared, with everything in them. -/
theorem encloses_root_iff (decl : ClassDecl) :
    (underPolicy policy decls).root.Encloses decl ↔
      decl = (underPolicy policy decls).root ∨
        ∃ given ∈ decls, (underPolicy policy decls).find? given.name = some given ∧
          given.Encloses decl := by
  constructor
  · intro hdecl
    cases hdecl with
    | self => exact .inl rfl
    | nested hgiven hinner =>
      obtain ⟨hmem, hfound⟩ := (mem_entries_underPolicy policy decls _).mp hgiven
      exact .inr ⟨_, hmem, hfound, hinner⟩
  · rintro (rfl | ⟨given, hmem, hfound, hinner⟩)
    · exact .self _
    · exact .nested ((mem_entries_underPolicy policy decls given).mpr ⟨hmem, hfound⟩) hinner

theorem root_unrepeated : (underPolicy policy decls).root.Unrepeated where
  methods := List.nodup_nil
  classes := DeclTable.names_nodup _

/-- Under the policy that lets a class take the place of another, each attempt is entered. -/
theorem declared_shadow :
    DeclTable.declared (decls.map fun decl => (Redefinition.shadow, decl)) = decls := by
  induction decls with
  | nil => rfl
  | cons decl earlier ih =>
    have haccepted (table : ClassTable) :
        (DeclTable.add .shadow decl).answer table = .ok decl := by
      rw [DeclTable.answer_add, if_neg fun hrefused => nomatch hrefused.1]
    rw [List.map_cons, DeclTable.declared, haccepted, ih]

/-- What a policy does for the classes of a program. Declaring a class asks for its name alone, and
    what is declared is in the program just as it was given. So the policy governs the scope of the
    program, and it governs all others just as far as it governs those in the classes that were given
    and are what their names stand for. It governs a body without repeated names; in a body with one
    the first of the name is found, whichever the policy. -/
structure Governs : Prop where
  asksName : ∀ decl, (DeclTable.add policy decl).answer (underPolicy policy decls) =
    if policy = .reject ∧ decl.name ∈ (underPolicy policy decls).names then
      .error (.duplicateDefinition "class" decl.name)
    else .ok decl
  asGiven : ∀ decl, (underPolicy policy decls).root.Encloses decl ↔
    decl = (underPolicy policy decls).root ∨
      ∃ given ∈ decls, (underPolicy policy decls).find? given.name = some given ∧
        given.Encloses decl
  program : (underPolicy policy decls).root.Governed policy
  latest : policy = .shadow → ∀ name,
    (underPolicy policy decls).find? name = decls.find? fun decl => decl.name == name
  bodies : (∀ decl, (underPolicy policy decls).root.Encloses decl → decl.Governed policy) ↔
    ∀ given ∈ decls, (underPolicy policy decls).find? given.name = some given →
      ∀ decl, given.Encloses decl → decl.Governed policy
  unrepeated : ∀ decl : ClassDecl, decl.Unrepeated → decl.Governed policy
  firstMethod : ∀ (decl : ClassDecl) method name, (decl.withMethod method).method? name =
    (decl.method? name).or (if method.name = name then some method else none)
  firstClass : ∀ (decl nested : ClassDecl) name, (decl.withClass nested).nested? name =
    (decl.nested? name).or (if nested.name = name then some nested else none)

/-- A policy governs the scope of the program and, of the bodies of classes, those that repeat no
    name. -/
theorem policy_governs_program : Governs policy decls where
  asksName decl := DeclTable.answer_add policy decl _
  asGiven := encloses_root_iff policy decls
  program := (root_unrepeated policy decls).governed policy
  latest hshadow name := by
    subst hshadow
    rw [underPolicy, DeclTable.find?_ofHistory, declared_shadow]
    rfl
  bodies := by
    constructor
    · intro hall given hmem hfound decl hdecl
      refine hall decl ((encloses_root_iff policy decls decl).mpr (.inr ?_))
      exact ⟨given, hmem, hfound, hdecl⟩
    · intro hgiven decl hdecl
      obtain rfl | ⟨given, hmem, hfound, hinner⟩ := (encloses_root_iff policy decls decl).mp hdecl
      · exact (root_unrepeated policy decls).governed policy
      · exact hgiven given hmem hfound decl hinner
  unrepeated _ hunrepeated := hunrepeated.governed policy
  firstMethod := ClassDecl.method?_withMethod
  firstClass := ClassDecl.nested?_withClass

end Under

/-- A body that repeats names is neither refused nor told by its latest declarations: two methods and
    two nested classes of one name are accepted under either policy, and those that come first are
    found. -/
theorem repeated_in_body :
    let first : ClassDecl := ⟨"I", none, [], [], []⟩
    let second : ClassDecl := first.withMethod ⟨"n", 1, []⟩
    let decl := (((⟨"A", none, [], [], []⟩ : ClassDecl).withClass first).withClass second
      |>.withMethod ⟨"m", 1, []⟩).withMethod ⟨"m", 1, ["x"]⟩
    decl.method? "m" = some ⟨"m", 1, []⟩ ∧ decl.nested? "I" = some first ∧ first ≠ second ∧
      ¬ decl.Unrepeated ∧ ∀ policy, (DeclTable.add policy decl).answer {} = .ok decl ∧
        (underPolicy policy [decl]).root.Encloses decl ∧ ¬ decl.Governed policy := by
  intro first second decl
  have hrepeated : ¬ decl.Unrepeated := fun hunrepeated => absurd hunrepeated.methods (by decide)
  have hfirst : ¬ decl.FindsLatest := fun hfinds => absurd (hfinds.methods "m") (by decide)
  refine ⟨rfl, rfl, fun hsame => ?_, hrepeated, fun policy => ⟨?_, ?_, ?_⟩⟩
  · cases congrArg ClassDecl.methods hsame
  · rw [DeclTable.answer_add, if_neg fun hrefused => nomatch hrefused.2]
  · exact (encloses_root_iff policy [decl] decl).mpr
      (.inr ⟨decl, List.mem_singleton.mpr rfl, by cases policy <;> rfl, .self decl⟩)
  · cases policy with
    | reject => exact hrepeated
    | shadow => exact hfirst

end ClassTable

end InterpreterCore

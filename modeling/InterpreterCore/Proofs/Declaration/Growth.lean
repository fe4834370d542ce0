import InterpreterCore.Proofs.Declaration.Hiding
import InterpreterCore.Proofs.Declaration.History

namespace InterpreterCore.ClassTable

/-- The table after further classes have been declared in turn, those that are present refused. -/
def declaringMore (table : ClassTable) (decls : List ClassDecl) : ClassTable :=
  decls.foldl (fun table decl => (DeclTable.add .reject decl).after table) table

/-- What one attempt leaves begins with what was there. -/
theorem entries_prefix_add (table : ClassTable) (decl : ClassDecl) :
    table.entries <+: ((DeclTable.add .reject decl).after table).entries := by
  by_cases hpresent : Declared.name decl ∈ table.names
  · rw [DeclTable.after_add, if_pos ⟨rfl, hpresent⟩]
  · rw [DeclTable.after_add_of_new .reject hpresent]
    exact List.prefix_append _ _

theorem entries_prefix_declaringMore (table : ClassTable) (decls : List ClassDecl) :
    table.entries <+: (table.declaringMore decls).entries := by
  induction decls generalizing table with
  | nil => exact List.prefix_refl _
  | cons decl rest ih =>
    exact (entries_prefix_add table decl).trans (ih ((DeclTable.add .reject decl).after table))

/-- A walk ends before its limit, at a class with a superclass that is unknown. -/
def EndsOpen (table : ClassTable) (limit : Nat) (walk : List ClassDecl) : Prop :=
  ∃ last superclass, walk.getLast? = some last ∧ last.superclass = some superclass ∧
    table.anywhere? superclass = none ∧ walk.length < limit

/-- A class is unknown, or the walk from it ends at an unknown superclass. Only then can classes that
    are declared later be on it. -/
def Open (table : ClassTable) (name : String) : Prop :=
  table.anywhere? name = none ∨ table.EndsOpen lineageLimit (table.ancestry name)

/-- What is known in a table is known alike in a later one: the class of a name at any depth, the
    walk along superclasses, the method of a class, its own or inherited, and the interfaces that it
    implements. Where the later table knows more, the earlier one had no answer and its walk was
    open. -/
structure AnswersKept (table later : ClassTable) : Prop where
  classes : ∀ name decl, table.anywhere? name = some decl → later.anywhere? name = some decl
  walks : ∀ name, table.ancestry name <+: later.ancestry name
  methods : ∀ name method decl,
    table.methodOf? name method = some decl → later.methodOf? name method = some decl
  interfaces : ∀ name interface,
    table.implements name interface = true → later.implements name interface = true
  newMethods : ∀ name method, later.methodOf? name method ≠ table.methodOf? name method →
    table.methodOf? name method = none ∧ table.Open name
  newInterfaces : ∀ name interface,
    later.implements name interface ≠ table.implements name interface →
      table.implements name interface = false ∧ table.Open name

section Later

variable {table later : ClassTable} (hlater : table.entries <+: later.entries)

include hlater

theorem anywhere?_later {name : String} {decl : ClassDecl}
    (hdecl : table.anywhere? name = some decl) : later.anywhere? name = some decl := by
  obtain ⟨more, hmore⟩ := hlater
  rw [anywhere?_eq] at hdecl
  rw [anywhere?_eq, ← hmore, ClassDecl.findAmong?_append, hdecl, Option.some_or]

theorem parent?_later {decl parent : ClassDecl} (hparent : table.parent? decl = some parent) :
    later.parent? decl = some parent := by
  obtain ⟨superclass, hsuperclass, hfound⟩ := Option.bind_eq_some_iff.mp hparent
  exact Option.bind_eq_some_iff.mpr ⟨superclass, hsuperclass, anywhere?_later hlater hfound⟩

/-- A walk goes on from where it ended, if anywhere. -/
theorem lineage_prefix_later (count : Nat) (decl : ClassDecl) :
    table.lineage count decl <+: later.lineage count decl := by
  induction count generalizing decl with
  | zero => exact List.prefix_refl _
  | succ count ih =>
    rw [lineage, lineage, List.prefix_cons_inj]
    cases hparent : table.parent? decl with
    | none => exact List.nil_prefix
    | some parent =>
      rw [parent?_later hlater hparent]
      exact ih parent

/-- A walk that ends at its limit, or at a class without a superclass, is the same later on. -/
theorem lineage_later (count : Nat) (decl : ClassDecl) :
    later.lineage count decl = table.lineage count decl ∨
      table.EndsOpen count (table.lineage count decl) := by
  induction count generalizing decl with
  | zero => exact .inl rfl
  | succ count ih =>
    rw [lineage, lineage]
    cases hparent : table.parent? decl with
    | some parent =>
      rw [parent?_later hlater hparent]
      obtain hsame | ⟨last, superclass, hlast, hsuperclass, hunknown, hlength⟩ := ih parent
      · exact .inl (congrArg (decl :: ·) hsame)
      · refine .inr ⟨last, superclass, ?_, hsuperclass, hunknown, Nat.succ_lt_succ hlength⟩
        rw [List.getLast?_cons, hlast, Option.getD_some]
    | none =>
      -- The last class that the limit allows has nothing after it, whatever is declared.
      cases count with
      | zero =>
        cases later.parent? decl <;> exact .inl rfl
      | succ count =>
        cases hsuperclass : decl.superclass with
        | none =>
          have hnone : later.parent? decl = none := by rw [parent?, hsuperclass, Option.bind_none]
          rw [hnone]
          exact .inl rfl
        | some superclass =>
          have hunknown : table.anywhere? superclass = none := by
            rwa [parent?, hsuperclass, Option.bind_some] at hparent
          exact .inr ⟨decl, superclass, rfl, hsuperclass, hunknown,
            Nat.succ_lt_succ count.succ_pos⟩

theorem ancestry_prefix_later (name : String) : table.ancestry name <+: later.ancestry name := by
  rw [ancestry]
  cases hdecl : table.anywhere? name with
  | none => exact List.nil_prefix
  | some decl =>
    rw [ancestry, anywhere?_later hlater hdecl]
    exact lineage_prefix_later hlater lineageLimit decl

theorem ancestry_later (name : String) :
    later.ancestry name = table.ancestry name ∨ table.Open name := by
  cases hdecl : table.anywhere? name with
  | none => exact .inr (.inl hdecl)
  | some decl =>
    have hwalk : table.ancestry name = table.lineage lineageLimit decl := by rw [ancestry, hdecl]
    have hlaterWalk : later.ancestry name = later.lineage lineageLimit decl := by
      rw [ancestry, anywhere?_later hlater hdecl]
    rw [hlaterWalk, Open, hwalk]
    exact (lineage_later hlater lineageLimit decl).imp_right .inr

theorem methodOf?_later {name method : String} {decl : FunctionDecl}
    (hdecl : table.methodOf? name method = some decl) : later.methodOf? name method = some decl :=
  (ancestry_prefix_later hlater name).findSome?_eq_some hdecl

theorem implements_later {name interface : String}
    (himplements : table.implements name interface = true) :
    later.implements name interface = true := by
  obtain ⟨ancestor, hvisited, hlists⟩ := List.any_eq_true.mp himplements
  exact List.any_eq_true.mpr
    ⟨ancestor, (ancestry_prefix_later hlater name).subset hvisited, hlists⟩

/-- An answer that comes from the walk of a class can only change where the walk was open. -/
theorem open_of_later {name : String} {β : Type} (answer : List ClassDecl → β)
    (hchanged : answer (later.ancestry name) ≠ answer (table.ancestry name)) : table.Open name :=
  (ancestry_later hlater name).resolve_left fun hsame => hchanged (congrArg answer hsame)

theorem answersKept : table.AnswersKept later where
  classes _ _ := anywhere?_later hlater
  walks := ancestry_prefix_later hlater
  methods _ _ _ := methodOf?_later hlater
  interfaces _ _ := implements_later hlater
  newMethods name method hchanged := by
    refine ⟨?_, open_of_later hlater (List.findSome? fun decl => decl.method? method) hchanged⟩
    cases hdecl : table.methodOf? name method with
    | none => rfl
    | some decl => exact absurd ((methodOf?_later hlater hdecl).trans hdecl.symm) hchanged
  newInterfaces name interface hchanged := by
    refine ⟨Bool.eq_false_iff.mpr fun himplements => ?_,
      open_of_later hlater (List.any · fun decl => decl.lists interface) hchanged⟩
    exact hchanged ((implements_later hlater himplements).trans himplements.symm)

end Later

/-- Answers about classes are stable under declarations that replace nothing. Nothing is assumed of
    the table or of what is declared: the attempts may fail, and what they bring may nest classes of
    any names at any depth. -/
theorem answers_stable (table : ClassTable) (decls : List ClassDecl) :
    table.AnswersKept (table.declaringMore decls) :=
  answersKept (entries_prefix_declaringMore table decls)

end InterpreterCore.ClassTable

import InterpreterCore.Declaration.Inheritance
import InterpreterCore.Declaration.Table.Lookup

namespace InterpreterCore

namespace ClassTable

/-- The whole superclass chain of a class: the class itself, its superclass, and so on up to a class
    that has none in the program. A class whose superclasses come back to it has no such chain. -/
inductive Chain (table : ClassTable) : ClassDecl → List ClassDecl → Prop where
  | last {decl : ClassDecl} (hlast : table.parent? decl = none) : Chain table decl [decl]
  | next {decl parent : ClassDecl} {rest : List ClassDecl}
      (hparent : table.parent? decl = some parent) (hrest : Chain table parent rest) :
      Chain table decl (decl :: rest)

/-- A walk visits a chain from its beginning. -/
theorem Chain.lineage_eq_take {table : ClassTable} {decl : ClassDecl} {chain : List ClassDecl}
    (hchain : table.Chain decl chain) (count : Nat) :
    table.lineage count decl = chain.take count := by
  induction hchain generalizing count with
  | last hlast =>
    cases count with
    | zero => rfl
    | succ count => rw [lineage, hlast, List.take_succ_cons, List.take_nil]
  | next hparent _ ih =>
    cases count with
    | zero => rfl
    | succ count => rw [lineage, hparent, List.take_succ_cons, ← ih count]

theorem Chain.ancestry_eq_take {table : ClassTable} {name : String} {decl : ClassDecl}
    {chain : List ClassDecl} (hdecl : table.anywhere? name = some decl)
    (hchain : table.Chain decl chain) : table.ancestry name = chain.take lineageLimit := by
  rw [ancestry, hdecl, ← hchain.lineage_eq_take]

/-- The beginning of a list gives the answer of the whole list unless only the rest has one. -/
theorem findSome?_take_eq_iff {α β : Type} (f : α → Option β) (list : List α) (count : Nat) :
    (list.take count).findSome? f = list.findSome? f ↔
      ((list.findSome? f).isSome → ((list.take count).findSome? f).isSome) := by
  have hsplit : list.findSome? f =
      ((list.take count).findSome? f).or ((list.drop count).findSome? f) := by
    rw [← List.findSome?_append, List.take_append_drop]
  rw [hsplit]
  cases (list.take count).findSome? f with
  | none => cases (list.drop count).findSome? f <;> simp
  | some found => simp

/-- A class has the first method of a name along its chain, and implements the interfaces that are
    listed along it, as far as the walk goes. So the law of inheritance holds of a method or an
    interface exactly when, if any class of the chain provides it, one of the first does; that the
    chain has an end is not enough. Nothing is assumed of the table or of how classes nest. -/
theorem inherits_within_limit {table : ClassTable} {name : String} {decl : ClassDecl}
    {chain : List ClassDecl} (hdecl : table.anywhere? name = some decl)
    (hchain : table.Chain decl chain) :
    (∀ method,
      table.methodOf? name method =
        (chain.take lineageLimit).findSome? (fun ancestor => ancestor.method? method) ∧
      (table.methodOf? name method = chain.findSome? (fun ancestor => ancestor.method? method) ↔
        ((∃ ancestor ∈ chain, (ancestor.method? method).isSome) →
          ∃ ancestor ∈ chain.take lineageLimit, (ancestor.method? method).isSome))) ∧
    ∀ interface,
      (table.implements name interface = true ↔
        ∃ ancestor ∈ chain.take lineageLimit, ancestor.lists interface = true) ∧
      ((table.implements name interface = true ↔
          ∃ ancestor ∈ chain, ancestor.lists interface = true) ↔
        ((∃ ancestor ∈ chain, ancestor.lists interface = true) →
          ∃ ancestor ∈ chain.take lineageLimit, ancestor.lists interface = true)) := by
  have hvisited := hchain.ancestry_eq_take hdecl
  refine ⟨fun method => ?_, fun interface => ?_⟩
  · have hmethod : table.methodOf? name method =
        (chain.take lineageLimit).findSome? fun ancestor => ancestor.method? method := by
      rw [methodOf?, hvisited]
    refine ⟨hmethod, ?_⟩
    rw [hmethod, findSome?_take_eq_iff, List.isSome_findSome?, List.isSome_findSome?]
    simp only [List.any_eq_true]
  · have himplements : table.implements name interface = true ↔
        ∃ ancestor ∈ chain.take lineageLimit, ancestor.lists interface = true := by
      rw [implements, hvisited, List.any_eq_true]
    have hwhole : (∃ ancestor ∈ chain.take lineageLimit, ancestor.lists interface = true) →
        ∃ ancestor ∈ chain, ancestor.lists interface = true :=
      fun ⟨ancestor, hmem, hlists⟩ => ⟨ancestor, List.mem_of_mem_take hmem, hlists⟩
    rw [himplements]
    exact ⟨Iff.rfl, Iff.mpr, fun honly => ⟨hwhole, honly⟩⟩

/-- The table after some classes have been declared in turn. -/
def declaring (decls : List ClassDecl) : ClassTable :=
  decls.foldl (fun table decl => (DeclTable.add .reject decl).after table) {}

theorem entries_foldl_add {decls : List ClassDecl} {table : ClassTable}
    (hnames : (table.names ++ decls.map ClassDecl.name).Nodup) :
    (decls.foldl (fun table decl => (DeclTable.add .reject decl).after table) table).entries =
      table.entries ++ decls := by
  induction decls generalizing table with
  | nil => rw [List.foldl_nil, List.append_nil]
  | cons decl rest ih =>
    have habsent : decl.name ∉ table.names := fun hmem =>
      (List.nodup_append.mp hnames).2.2 _ hmem _ List.mem_cons_self rfl
    rw [List.foldl_cons, DeclTable.after_add_of_new .reject habsent, ih]
    · rw [List.append_assoc, List.singleton_append]
    · rw [DeclTable.names, List.map_append, List.append_assoc]
      exact hnames

/-- Classes of distinct names are entered in the order of their declarations. -/
theorem entries_declaring {decls : List ClassDecl}
    (hnames : (decls.map ClassDecl.name).Nodup) : (declaring decls).entries = decls :=
  entries_foldl_add hnames

/-- Among classes of distinct names with no classes in them, each is found under its name. -/
theorem findAmong?_of_flat {decls : List ClassDecl} (hflat : ∀ decl ∈ decls, decl.classes = [])
    (hnames : (decls.map ClassDecl.name).Nodup) {decl : ClassDecl} (hmem : decl ∈ decls) :
    ClassDecl.findAmong? decl.name decls = some decl := by
  induction decls with
  | nil => cases hmem
  | cons first rest ih =>
    obtain ⟨hfirst, hrest⟩ := List.nodup_cons.mp hnames
    have hbelow : ClassDecl.findBelow? decl.name first = none := by
      obtain ⟨_, _, _, _, classes⟩ := first
      obtain rfl : classes = [] := hflat _ List.mem_cons_self
      rw [ClassDecl.findBelow?, ClassDecl.findAmong?]
    rw [ClassDecl.findAmong?]
    obtain rfl | hlater := List.mem_cons.mp hmem
    · rw [if_pos rfl]
    · have hother : first.name ≠ decl.name :=
        fun hsame => hfirst (hsame ▸ List.mem_map_of_mem hlater)
      rw [if_neg hother, hbelow]
      exact ih (fun decl hdecl => hflat decl (List.mem_cons_of_mem _ hdecl)) hrest hlater

/-- The name of a class by its number. -/
def rungName (i : Nat) : String := String.ofList (List.replicate (i + 1) 'c')

theorem rungName_inj {i j : Nat} (hsame : rungName i = rungName j) : i = j := by
  have hlength := congrArg (fun name => name.toList.length) hsame
  simpa [rungName] using hlength

/-- A class in a ladder: each one inherits from the next, and the highest one provides a method and
    an interface. -/
def rung (top i : Nat) : ClassDecl where
  name := rungName i
  superclass := if i < top then some (rungName (i + 1)) else none
  methods := if i < top then [] else [⟨"m", 1, []⟩]
  interfaces := if i < top then [] else ["I"]

/-- The classes of a ladder from one of them up to the highest. -/
def rungs (top first : Nat) : List ClassDecl :=
  (List.range' first (top + 1 - first)).map (rung top)

/-- The program that declares the classes of a ladder, from the lowest to the highest. -/
def ladder (top : Nat) : ClassTable := declaring (rungs top 0)

theorem anywhere?_ladder {top i : Nat} (hi : i ≤ top) :
    (ladder top).anywhere? (rungName i) = some (rung top i) := by
  have hnames : ((rungs top 0).map ClassDecl.name).Nodup := by
    rw [rungs, List.map_map]
    exact List.pairwise_map.mpr
      ((List.pairwise_lt_range' ..).imp fun hlt hsame => Nat.ne_of_lt hlt (rungName_inj hsame))
  have hflat : ∀ decl ∈ rungs top 0, decl.classes = [] := by
    intro decl hdecl
    obtain ⟨_, _, rfl⟩ := List.mem_map.mp hdecl
    rfl
  have hmem : rung top i ∈ rungs top 0 :=
    List.mem_map_of_mem (List.mem_range'_1.mpr (by omega))
  rw [anywhere?, ClassDecl.descendant?, root, ClassDecl.findBelow?, ladder,
    entries_declaring hnames]
  exact findAmong?_of_flat hflat hnames hmem

theorem rungs_of_lt {top i : Nat} (hi : i < top) :
    rungs top i = rung top i :: rungs top (i + 1) := by
  have hcount : top + 1 - i = top + 1 - (i + 1) + 1 := by omega
  rw [rungs, hcount, List.range'_succ, List.map_cons, rungs]

theorem rungs_self (top : Nat) : rungs top top = [rung top top] := by
  rw [rungs, Nat.add_sub_cancel_left, List.range'_one, List.map_singleton]

/-- The chain of a class of a ladder consists of the classes from it up to the highest. -/
theorem chain_ladder {top i : Nat} (hi : i ≤ top) :
    (ladder top).Chain (rung top i) (rungs top i) := by
  by_cases hbelow : i < top
  · have hparent : (ladder top).parent? (rung top i) = some (rung top (i + 1)) := by
      rw [parent?, rung, if_pos hbelow, Option.bind_some]
      exact anywhere?_ladder hbelow
    rw [rungs_of_lt hbelow]
    exact .next hparent (chain_ladder hbelow)
  · obtain rfl : i = top := by omega
    have hlast : (ladder i).parent? (rung i i) = none := by
      rw [parent?, rung, if_neg hbelow, Option.bind_none]
    rw [rungs_self]
    exact .last hlast
termination_by top - i

/-- Where a chain is as long as the limit, what its last class provides is still inherited. -/
theorem inherits_at_limit :
    let table := ladder 255
    table.Chain (rung 255 0) (rungs 255 0) ∧ (rungs 255 0).length = lineageLimit ∧
      table.methodOf? (rungName 0) "m" = some ⟨"m", 1, []⟩ ∧
      table.implements (rungName 0) "I" = true := by
  intro table
  have hdecl : table.anywhere? (rungName 0) = some (rung 255 0) :=
    anywhere?_ladder (Nat.zero_le 255)
  have hchain : table.Chain (rung 255 0) (rungs 255 0) := chain_ladder (Nat.zero_le _)
  obtain ⟨hmethods, hinterfaces⟩ := inherits_within_limit hdecl hchain
  have hlength : (rungs 255 0).length = lineageLimit := by
    rw [rungs, List.length_map, List.length_range', lineageLimit]
  refine ⟨hchain, hlength, (hmethods "m").1.trans (by decide +kernel),
    (hinterfaces "I").1.mpr (List.any_eq_true.mp (by decide +kernel))⟩

/-- Where a chain is longer than the limit, what its last class alone provides is not inherited,
    although the chain ends there and loops nowhere. -/
theorem not_inherited_past_limit :
    let table := ladder 256
    table.anywhere? (rungName 0) = some (rung 256 0) ∧ table.Chain (rung 256 0) (rungs 256 0) ∧
      table.methodOf? (rungName 0) "m" = none ∧
      (rungs 256 0).findSome? (fun ancestor => ancestor.method? "m") = some ⟨"m", 1, []⟩ ∧
      table.implements (rungName 0) "I" = false ∧
      (rungs 256 0).any (fun ancestor => ancestor.lists "I") = true := by
  intro table
  have hdecl : table.anywhere? (rungName 0) = some (rung 256 0) :=
    anywhere?_ladder (Nat.zero_le 256)
  have hchain : table.Chain (rung 256 0) (rungs 256 0) := chain_ladder (Nat.zero_le _)
  have hvisited := hchain.ancestry_eq_take hdecl
  refine ⟨hdecl, hchain, ?_, by decide +kernel, ?_, by decide +kernel⟩
  · rw [methodOf?, hvisited]
    decide +kernel
  · rw [implements, hvisited]
    decide +kernel

end ClassTable

end InterpreterCore

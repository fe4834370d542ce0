import InterpreterCore.Declaration.Inheritance
import InterpreterCore.Declaration.Interface
import InterpreterCore.Declaration.Table.Lookup
import Mathlib.Data.Finset.Card

namespace InterpreterCore.DeclTable

variable {α : Type} [Declared α]

/-- Where names are distinct, entering a declaration under one of them changes one place. -/
theorem replace_eq_set {entries : List α} (hdistinct : (entries.map Declared.name).Nodup)
    {place : Nat} {entry decl : α} (hentry : entries[place]? = some entry)
    (hname : Declared.name entry = Declared.name decl) :
    (entries.map fun other =>
      if Declared.name other == Declared.name decl then decl else other) =
        entries.set place decl := by
  obtain ⟨hplace, rfl⟩ := List.getElem?_eq_some_iff.mp hentry
  apply List.ext_getElem (by simp)
  intro i hi hset
  rw [List.length_map] at hi
  rw [List.getElem_map, List.getElem_set]
  by_cases hsame : place = i
  · subst hsame
    rw [if_pos rfl, if_pos (beq_iff_eq.mpr hname)]
  · have hother : Declared.name entries[i] ≠ Declared.name decl := by
      intro heq
      have hnames : (entries.map Declared.name)[place]? = (entries.map Declared.name)[i]? := by
        rw [List.getElem?_map, List.getElem?_map, List.getElem?_eq_getElem hplace,
          List.getElem?_eq_getElem hi, Option.map_some, Option.map_some, hname, heq]
      exact hsame ((List.getElem?_inj (by rwa [List.length_map]) hdistinct).mp hnames)
    rw [if_neg hsame, if_neg fun heq => hother (beq_iff_eq.mp heq)]

/-- The table after a history of attempts, of which the latest is the first in the list. -/
def ofHistory : List (Redefinition × α) → DeclTable α
  | [] => {}
  | (policy, decl) :: earlier => (add policy decl).after (ofHistory earlier)

/-- What has been declared in a history, the attempts that failed left out, the latest first. -/
def declared : List (Redefinition × α) → List α
  | [] => []
  | (policy, decl) :: earlier =>
    match (add policy decl).answer (ofHistory earlier) with
    | .ok added => added :: declared earlier
    | .error _ => declared earlier

/-- An attempt fails and changes nothing, or it is entered. -/
theorem ofHistory_cases (policy : Redefinition) (decl : α) (earlier : List (Redefinition × α)) :
    (ofHistory ((policy, decl) :: earlier) = ofHistory earlier ∧
        declared ((policy, decl) :: earlier) = declared earlier) ∨
      (ofHistory ((policy, decl) :: earlier) = (ofHistory earlier).put decl ∧
        declared ((policy, decl) :: earlier) = decl :: declared earlier) := by
  rw [ofHistory, declared, after_add, answer_add]
  split
  · exact .inl ⟨rfl, rfl⟩
  · exact .inr ⟨rfl, rfl⟩

theorem names_nodup (history : List (Redefinition × α)) : (ofHistory history).names.Nodup := by
  induction history with
  | nil => exact List.nodup_nil
  | cons attempt earlier ih =>
    obtain ⟨htable, _⟩ | ⟨htable, _⟩ := ofHistory_cases attempt.1 attempt.2 earlier
    · rw [htable]
      exact ih
    · rw [htable, names_put]
      split
      · exact ih
      · rename_i hnew
        exact List.nodup_append.mpr ⟨ih, List.nodup_singleton _, fun name hname other hother heq =>
          hnew (List.mem_singleton.mp hother ▸ heq ▸ hname)⟩

/-- One more name at the end of a list is a first occurrence or none. -/
theorem eraseDups_concat (names : List String) (name : String) :
    (names ++ [name]).eraseDups =
      if name ∈ names then names.eraseDups else names.eraseDups ++ [name] := by
  rw [List.eraseDups_append, List.removeAll]
  by_cases hname : name ∈ names
  · rw [if_pos hname, List.filter_cons_of_neg (by simpa using hname), List.filter_nil,
      List.eraseDups_nil, List.append_nil]
  · rw [if_neg hname, List.filter_cons_of_pos (by simpa using hname), List.filter_nil,
      List.eraseDups_cons, List.filter_nil, List.eraseDups_nil]

/-- Names stand in the order in which they were first declared. -/
theorem names_eq_eraseDups (history : List (Redefinition × α)) :
    (ofHistory history).names = ((declared history).reverse.map Declared.name).eraseDups := by
  induction history with
  | nil => rfl
  | cons attempt earlier ih =>
    obtain ⟨htable, hdeclared⟩ | ⟨htable, hdeclared⟩ := ofHistory_cases attempt.1 attempt.2 earlier
    · rw [htable, hdeclared, ih]
    · rw [htable, hdeclared, names_put, List.reverse_cons, List.map_append, List.map_singleton,
        eraseDups_concat, ih]
      simp only [List.mem_eraseDups]

/-- A name stands for what was last declared under it. -/
theorem find?_ofHistory (history : List (Redefinition × α)) (name : String) :
    (ofHistory history).find? name =
      (declared history).find? fun decl => Declared.name decl == name := by
  induction history with
  | nil => rfl
  | cons attempt earlier ih =>
    obtain ⟨htable, hdeclared⟩ | ⟨htable, hdeclared⟩ := ofHistory_cases attempt.1 attempt.2 earlier
    · rw [htable, hdeclared, ih]
    · rw [htable, hdeclared, find?_put, List.find?_cons, ih]
      by_cases hname : Declared.name attempt.2 = name
      · rw [if_pos hname, beq_iff_eq.mpr hname]
      · rw [if_neg hname, beq_false_of_ne hname]

/-- What stands in a table is what is found under its name. -/
theorem mem_entries_iff (history : List (Redefinition × α)) (decl : α) :
    decl ∈ (ofHistory history).entries ↔
      (ofHistory history).find? (Declared.name decl) = some decl := by
  refine ⟨fun hmem => ?_, List.mem_of_find?_eq_some⟩
  cases hfound : (ofHistory history).find? (Declared.name decl) with
  | none => exact absurd (beq_iff_eq.mpr rfl) (List.find?_eq_none.mp hfound decl hmem)
  | some found =>
    have hname := List.find?_some hfound
    rw [List.inj_on_of_nodup_map (names_nodup history) (List.mem_of_find?_eq_some hfound) hmem
      (beq_iff_eq.mp hname)]

theorem mem_of_mem_declared {history : List (Redefinition × α)} {decl : α}
    (hdecl : decl ∈ declared history) : decl ∈ history.map Prod.snd := by
  induction history with
  | nil => cases hdecl
  | cons attempt earlier ih =>
    rw [List.map_cons, List.mem_cons]
    obtain ⟨_, hdeclared⟩ | ⟨_, hdeclared⟩ := ofHistory_cases attempt.1 attempt.2 earlier
    · rw [hdeclared] at hdecl
      exact .inr (ih hdecl)
    · rw [hdeclared] at hdecl
      exact (List.mem_cons.mp hdecl).imp_right ih

/-- A table keeps what a history has declared as an ordered map does. Its names are distinct and stand
    in the order of their first declarations, each for what was last declared under it. A further
    attempt fails exactly when a present name is to be refused, under the word for what is declared,
    and then changes nothing; otherwise it puts its declaration at the end or, without touching
    another place, where the one of its name has been. -/
structure TellsHistory (noun : String) (history : List (Redefinition × α)) : Prop where
  distinct : (ofHistory history).names.Nodup
  order : (ofHistory history).names = ((declared history).reverse.map Declared.name).eraseDups
  latest : ∀ name, (ofHistory history).find? name =
    (declared history).find? fun decl => Declared.name decl == name
  size : (ofHistory history).entries.length =
    ((declared history).map Declared.name).toFinset.card
  answer : ∀ policy decl, (add policy decl).answer (ofHistory history) =
    if policy = .reject ∧ Declared.name decl ∈ (ofHistory history).names then
      .error (.duplicateDefinition noun (Declared.name decl))
    else .ok decl
  refused : ∀ decl, Declared.name decl ∈ (ofHistory history).names →
    (add .reject decl).after (ofHistory history) = ofHistory history
  appended : ∀ policy decl, Declared.name decl ∉ (ofHistory history).names →
    ((add policy decl).after (ofHistory history)).entries = (ofHistory history).entries ++ [decl]
  replaced : ∀ decl, Declared.name decl ∈ (ofHistory history).names →
    ∃ place entry, (ofHistory history).entries[place]? = some entry ∧
      Declared.name entry = Declared.name decl ∧
      ((add .shadow decl).after (ofHistory history)).entries =
        (ofHistory history).entries.set place decl

theorem length_entries (history : List (Redefinition × α)) :
    (ofHistory history).entries.length =
      ((declared history).map Declared.name).toFinset.card := by
  have hsame : ((declared history).map Declared.name).toFinset =
      (ofHistory history).names.toFinset := by
    ext name
    rw [names_eq_eraseDups]
    simp
  rw [hsame, List.toFinset_card_of_nodup (names_nodup history), names, List.length_map]

theorem entries_after_add_shadow {history : List (Redefinition × α)} {decl : α}
    (hpresent : Declared.name decl ∈ (ofHistory history).names) :
    ∃ place entry, (ofHistory history).entries[place]? = some entry ∧
      Declared.name entry = Declared.name decl ∧
      ((add .shadow decl).after (ofHistory history)).entries =
        (ofHistory history).entries.set place decl := by
  obtain ⟨entry, hentry, hname⟩ := List.mem_map.mp hpresent
  obtain ⟨place, hplace⟩ := List.mem_iff_getElem?.mp hentry
  refine ⟨place, entry, hplace, hname, ?_⟩
  have haccepted : ¬(Redefinition.shadow = .reject ∧
      Declared.name decl ∈ (ofHistory history).names) := fun hrefused => nomatch hrefused.1
  rw [after_add, if_neg haccepted, put, if_pos (declares_iff.mpr hpresent)]
  exact replace_eq_set (names_nodup history) hplace hname

theorem tellsHistory (history : List (Redefinition × α)) :
    TellsHistory (Declared.noun α) history where
  distinct := names_nodup history
  order := names_eq_eraseDups history
  latest := find?_ofHistory history
  size := length_entries history
  answer policy decl := answer_add policy decl _
  refused decl hpresent := by rw [after_add, if_pos ⟨rfl, hpresent⟩]
  appended policy decl hnew := by rw [after_add_of_new policy hnew]
  replaced decl hpresent := entries_after_add_shadow hpresent

/-- The classes and the interfaces of a program are ordered maps under the policies of their
    declarations, whatever the history: any declarations, repeated or not, under policies that may
    change from one attempt to the next. -/
theorem declarations_ordered :
    (∀ history : List (Redefinition × ClassDecl), TellsHistory "class" history) ∧
      ∀ history : List (Redefinition × InterfaceDecl), TellsHistory "interface" history :=
  ⟨tellsHistory, tellsHistory⟩

-- The last declaration is refused, the one before it replaces the first at its place.
example : (ofHistory [(.reject, (⟨"B", []⟩ : InterfaceDecl)), (.shadow, ⟨"A", ["run"]⟩),
    (.shadow, ⟨"B", ["stop"]⟩), (.reject, ⟨"A", []⟩)]).entries =
    [⟨"A", ["run"]⟩, ⟨"B", ["stop"]⟩] := by decide

end InterpreterCore.DeclTable

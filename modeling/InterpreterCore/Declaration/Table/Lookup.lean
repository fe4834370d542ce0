import InterpreterCore.Declaration.Table

namespace InterpreterCore.DeclTable

variable {α : Type} [Declared α]

theorem declares_iff {table : DeclTable α} {name : String} :
    table.declares name = true ↔ name ∈ table.names := by
  simp only [declares, names, List.any_eq_true, List.mem_map, beq_iff_eq]

/-- A name that is present keeps its place, and a new one goes to the end. -/
theorem names_put (table : DeclTable α) (decl : α) :
    (table.put decl).names =
      if Declared.name decl ∈ table.names then table.names
      else table.names ++ [Declared.name decl] := by
  by_cases hpresent : Declared.name decl ∈ table.names
  · rw [put, if_pos (declares_iff.mpr hpresent), if_pos hpresent]
    simp only [names, List.map_map]
    apply List.map_congr_left
    intro entry _
    simp only [Function.comp]
    split
    · rename_i heq
      exact (beq_iff_eq.mp heq).symm
    · rfl
  · rw [put, if_neg (fun h => hpresent (declares_iff.mp h)), if_neg hpresent]
    simp [names]

theorem replace_of_absent (entries : List α) (decl : α)
    (habsent : Declared.name decl ∉ entries.map Declared.name) :
    (entries.map fun entry =>
      if Declared.name entry == Declared.name decl then decl else entry) = entries := by
  have hsame : ∀ entry ∈ entries,
      (if Declared.name entry == Declared.name decl then decl else entry) = id entry := by
    intro entry hentry
    have hne : Declared.name entry ≠ Declared.name decl := fun heq =>
      habsent (heq ▸ List.mem_map_of_mem hentry)
    rw [beq_false_of_ne hne]
    rfl
  rw [List.map_congr_left hsame, List.map_id]

theorem find?_replace (entries : List α) (decl : α) (name : String)
    (hpresent : Declared.name decl ∈ entries.map Declared.name) :
    (entries.map fun entry =>
        if Declared.name entry == Declared.name decl then decl else entry).find?
      (fun entry => Declared.name entry == name) =
      if Declared.name decl = name then some decl
      else entries.find? fun entry => Declared.name entry == name := by
  induction entries with
  | nil => cases hpresent
  | cons entry rest ih =>
    by_cases hentry : Declared.name entry = Declared.name decl
    · by_cases hname : Declared.name decl = name
      · simp [hentry, hname]
      · by_cases hrest : Declared.name decl ∈ rest.map Declared.name
        · simpa [hentry, hname] using ih hrest
        · rw [List.map_cons, replace_of_absent rest decl hrest]
          simp [hentry, hname]
    · have hrest : Declared.name decl ∈ rest.map Declared.name := by
        simpa [Ne.symm hentry] using hpresent
      simp only [List.map_cons, beq_iff_eq, if_neg hentry, List.find?_cons]
      by_cases hname : Declared.name entry = name
      · have hdecl : ¬ Declared.name decl = name := fun heq => hentry (hname.trans heq.symm)
        simp [hname, hdecl]
      · simpa [beq_false_of_ne hname] using ih hrest

/-- What is entered is found under its name, and every other name is found as before. -/
theorem find?_put (table : DeclTable α) (decl : α) (name : String) :
    (table.put decl).find? name =
      if Declared.name decl = name then some decl else table.find? name := by
  by_cases hpresent : table.declares (Declared.name decl) = true
  · rw [put, if_pos hpresent]
    exact find?_replace table.entries decl name (declares_iff.mp hpresent)
  · have habsent : table.find? (Declared.name decl) = none := by
      rw [find?, List.find?_eq_none]
      intro entry hentry heq
      exact hpresent (declares_iff.mpr (beq_iff_eq.mp heq ▸ List.mem_map_of_mem hentry))
    rw [put, if_neg hpresent]
    simp only [find?, List.find?_append] at habsent ⊢
    by_cases hname : Declared.name decl = name
    · subst hname
      simp [habsent]
    · simp [hname, beq_false_of_ne hname]

theorem answer_add (policy : Redefinition) (decl : α) (table : DeclTable α) :
    (add policy decl).answer table =
      if policy = .reject ∧ Declared.name decl ∈ table.names then
        .error (Declared.twice α (Declared.name decl))
      else .ok decl := by
  by_cases hrefused : policy = .reject ∧ Declared.name decl ∈ table.names
  · simp only [Update.answer, add, declares_iff, if_pos hrefused]
  · simp only [Update.answer, add, declares_iff, if_neg hrefused]

theorem after_add (policy : Redefinition) (decl : α) (table : DeclTable α) :
    (add policy decl).after table =
      if policy = .reject ∧ Declared.name decl ∈ table.names then table else table.put decl := by
  by_cases hrefused : policy = .reject ∧ Declared.name decl ∈ table.names
  · simp only [Update.after, add, declares_iff, if_pos hrefused]
  · simp only [Update.after, add, declares_iff, if_neg hrefused]

/-- A name that is not declared is entered at the end under any policy. -/
theorem after_add_of_new (policy : Redefinition) {decl : α} {table : DeclTable α}
    (hnew : Declared.name decl ∉ table.names) :
    (add policy decl).after table = ⟨table.entries ++ [decl]⟩ := by
  rw [after_add, if_neg fun hrefused => hnew hrefused.2, put,
    if_neg fun hdeclared => hnew (declares_iff.mp hdeclared)]

end InterpreterCore.DeclTable

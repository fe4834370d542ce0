import InterpreterCore.Proofs.Activation.Edit
import Mathlib.Data.List.Nodup

namespace InterpreterCore

/-- One thing that happened to the functions of an activation. -/
inductive FunctionEvent where
  | declared (decl : FunctionDecl)
  | removed (name : String)
deriving DecidableEq

namespace FunctionEvent

/-- The declarations that nothing later is about, the latest first. A name is hidden from what comes
    before as soon as it has occurred. -/
def survivors (hidden : List String) : List FunctionEvent → List FunctionDecl
  | [] => []
  | .declared decl :: earlier =>
    if decl.name ∈ hidden then survivors hidden earlier
    else decl :: survivors (decl.name :: hidden) earlier
  | .removed name :: earlier => survivors (name :: hidden) earlier

/-- The functions that a log leaves, in the order of their latest declarations. -/
def listing (log : List FunctionEvent) : List FunctionDecl := (survivors [] log).reverse

/-- The latest definition of a name that a log leaves, if it has not been removed since. -/
def latest? (name : String) : List FunctionEvent → Option FunctionDecl
  | [] => none
  | .declared decl :: earlier => if decl.name = name then some decl else latest? name earlier
  | .removed other :: earlier => if other = name then none else latest? name earlier

/-- To hide one more name is to take its declarations out. -/
theorem survivors_cons (name : String) (hidden : List String) (log : List FunctionEvent) :
    survivors (name :: hidden) log =
      (survivors hidden log).filter fun decl => decl.name != name := by
  -- The two names that are hidden one after the other may come in either order.
  induction log generalizing hidden name with
  | nil => rfl
  | cons event earlier ih =>
    cases event with
    | declared decl =>
      simp only [survivors, List.mem_cons]
      by_cases hname : decl.name = name
      · rw [if_pos (.inl hname), ih]
        split
        · rfl
        · rw [List.filter_cons_of_neg (by simpa using hname), ih decl.name, hname,
            List.filter_filter]
          simp only [Bool.and_self]
      · by_cases hhidden : decl.name ∈ hidden
        · rw [if_pos (.inr hhidden), if_pos hhidden, ih]
        · rw [if_neg (not_or.mpr ⟨hname, hhidden⟩), if_neg hhidden,
            List.filter_cons_of_pos (by simpa using hname), ih decl.name, ih name, ih decl.name,
            List.filter_comm]
    | removed other =>
      simp only [survivors]
      rw [ih other, ih name, ih other, List.filter_comm]

theorem listing_removed (name : String) (log : List FunctionEvent) :
    listing (.removed name :: log) = (listing log).filter fun decl => decl.name != name := by
  rw [listing, survivors, survivors_cons, listing, List.filter_reverse]

/-- A declaration comes to the end, and what has been declared under its name is gone. -/
theorem listing_declared (decl : FunctionDecl) (log : List FunctionEvent) :
    listing (.declared decl :: log) =
      ((listing log).filter fun other => other.name != decl.name) ++ [decl] := by
  rw [← listing_removed, listing, survivors, if_neg List.not_mem_nil, List.reverse_cons, listing,
    survivors]

/-- Each name is left once. -/
theorem nodup_listing (log : List FunctionEvent) :
    ((listing log).map FunctionDecl.name).Nodup := by
  have hfilter : ∀ name {decls : List FunctionDecl}, (decls.map FunctionDecl.name).Nodup →
      ((decls.filter fun decl => decl.name != name).map FunctionDecl.name).Nodup :=
    fun _ _ hdecls => hdecls.sublist (List.filter_sublist.map _)
  induction log with
  | nil => exact List.nodup_nil
  | cons event earlier ih =>
    cases event with
    | declared decl =>
      rw [listing_declared, List.map_append, List.map_singleton, List.nodup_append]
      refine ⟨hfilter _ ih, List.nodup_singleton _, fun name hname other hother => ?_⟩
      obtain ⟨kept, hkept, rfl⟩ := List.mem_map.mp hname
      rw [List.mem_singleton.mp hother]
      simpa using (List.mem_filter.mp hkept).2
    | removed name =>
      rw [listing_removed]
      exact hfilter name ih

theorem find?_filter_name_ne (decls : List FunctionDecl) (name other : String) :
    (decls.filter fun decl => decl.name != name).find? (fun decl => decl.name == other) =
      if name = other then none else decls.find? fun decl => decl.name == other := by
  rw [List.find?_filter]
  split
  · rename_i hname
    simp [hname]
  · rename_i hname
    refine congrArg (List.find? · decls) (funext fun decl => ?_)
    by_cases hdecl : decl.name = other
    · simp [hdecl, Ne.symm hname]
    · simp [hdecl]

/-- What is found under a name is its latest definition. -/
theorem find?_listing (name : String) (log : List FunctionEvent) :
    (listing log).find? (fun decl => decl.name == name) = latest? name log := by
  induction log with
  | nil => rfl
  | cons event earlier ih =>
    cases event with
    | declared decl =>
      rw [listing_declared, List.find?_append, find?_filter_name_ne, latest?]
      by_cases hname : decl.name = name
      · simp [hname]
      · simp [hname, ih]
    | removed other => rw [listing_removed, find?_filter_name_ne, latest?, ih]

/-- Where each name comes once, the first declaration of a name is the only one. -/
theorem filter_name_ne_eq_eraseP {decls : List FunctionDecl}
    (hnames : (decls.map FunctionDecl.name).Nodup) (name : String) :
    (decls.filter fun decl => decl.name != name) = decls.eraseP fun decl => decl.name == name := by
  induction decls with
  | nil => rfl
  | cons decl rest ih =>
    rw [List.map_cons, List.nodup_cons] at hnames
    by_cases hname : decl.name = name
    · rw [List.filter_cons_of_neg (by simpa using hname),
        List.eraseP_cons_of_pos (by simpa using hname), List.filter_eq_self]
      intro other hother
      have hdistinct : other.name ≠ name := fun hsame =>
        hnames.1 (List.mem_map.mpr ⟨other, hother, hsame.trans hname.symm⟩)
      simpa using hdistinct
    · rw [List.filter_cons_of_pos (by simpa using hname),
        List.eraseP_cons_of_neg (by simpa using hname), ih hnames.2]

end FunctionEvent

open FunctionEvent

/-- What an edit does to the functions of an activation, as events. A declaration counts if it is
    accepted. -/
def Edit.functionEvents (activation : Activation) : Edit → List FunctionEvent
  | .declare policy decl =>
    match (Activation.declare policy decl).answer activation with
    | .ok () => [.declared decl]
    | .error _ => []
  | .undeclare name => [.removed name]
  | _ => []

/-- What has happened to the functions of an activation before its call, as events. -/
def Edit.functionLog (function : FunctionDecl) : List Edit → List FunctionEvent
  | [] => []
  | edit :: earlier =>
    edit.functionEvents (earlier.foldr apply (.ofFunction function)) ++
      functionLog function earlier

/-- An activation that has the functions of a log has, after an edit, those of the log in which the
    events of the edit are entered. -/
theorem Edit.functions_apply {activation : Activation} {log : List FunctionEvent}
    (hfunctions : activation.functions = listing log) (edit : Edit) :
    (edit.apply activation).functions = listing (edit.functionEvents activation ++ log) := by
  cases edit with
  | store slot value =>
    rw [apply, Activation.after_store]
    exact hfunctions
  | bind index value =>
    rw [apply, Activation.after_bindParameter]
    split <;> exact hfunctions
  | define policy name =>
    rw [apply, Activation.after_define]
    split <;> exact hfunctions
  | remove name =>
    rw [apply, Activation.after_remove]
    split <;> exact hfunctions
  | declare policy decl =>
    rw [apply, Activation.after_declare, functionEvents, Activation.answer_declare]
    split
    · exact hfunctions
    · rw [List.singleton_append, listing_declared, ← hfunctions, Activation.otherFunctions]
  | undeclare name =>
    rw [apply, Activation.after_undeclare, functionEvents]
    rw [List.singleton_append, listing_removed, ← hfunctions, Activation.otherFunctions]

namespace Activation

/-- An activation that has the functions of a log finds their latest definitions. -/
theorem function?_eq_latest? {activation : Activation} {log : List FunctionEvent}
    (hfunctions : activation.functions = listing log) (name : String) :
    activation.function? name = latest? name log := by
  rw [function?, hfunctions, find?_listing]

/-- A function that is taken away is gone, and all others stay. -/
theorem function?_apply_undeclare (activation : Activation) (name other : String) :
    ((Edit.undeclare name).apply activation).function? other =
      if name = other then none else activation.function? other :=
  find?_filter_name_ne activation.functions name other

/-- An activation that exists has the functions that its past leaves. -/
theorem Built.functions_eq {activation : Activation} {past : List Edit}
    (hbuilt : activation.Built past) :
    activation.functions = listing (Edit.functionLog activation.function past) := by
  have hpast : (past.foldr Edit.apply (ofFunction activation.function)).functions =
      listing (Edit.functionLog activation.function past) := by
    generalize activation.function = function
    clear hbuilt
    induction past with
    | nil => rfl
    | cons edit earlier ih => exact Edit.functions_apply ih edit
  rwa [← hbuilt.eq_edited] at hpast

end Activation

end InterpreterCore

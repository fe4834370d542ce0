import InterpreterCore.Proofs.Execution.Resolution

namespace InterpreterCore

variable {σ : Type}

namespace Activation

/-- The first of some names that repeats an earlier one. -/
def FirstRepeat (names : List String) (name : String) : Prop :=
  ∃ front rest, names = front ++ name :: rest ∧ front.Nodup ∧ name ∈ front

/-- The search for a repeated name stops at the first one. The names that it has passed are kept in
    front of those before. -/
theorem firstRepeated?_eq_some_iff {before names : List String} {name : String} :
    firstRepeated? before names = some name ↔
      ∃ front rest, names = front ++ name :: rest ∧ front.Nodup ∧
        (∀ earlier ∈ front, earlier ∉ before) ∧ (name ∈ before ∨ name ∈ front) := by
  constructor
  · intro hrepeated
    induction names generalizing before with
    | nil => simp [firstRepeated?] at hrepeated
    | cons first rest ih =>
      rw [firstRepeated?] at hrepeated
      split at hrepeated
      · rename_i hbefore
        obtain rfl := Option.some.inj hrepeated
        exact ⟨[], rest, rfl, List.nodup_nil, by simp, .inl hbefore⟩
      · rename_i hnew
        obtain ⟨front, tail, rfl, hnodup, hapart, hname⟩ := ih hrepeated
        refine ⟨first :: front, tail, rfl, ?_, ?_, ?_⟩
        · exact List.nodup_cons.mpr ⟨fun hfirst => hapart first hfirst List.mem_cons_self, hnodup⟩
        · simp only [List.mem_cons, not_or] at hapart
          simpa [hnew] using fun earlier hearlier => (hapart earlier hearlier).2
        · simpa [or_comm, or_left_comm, or_assoc] using hname
  · rintro ⟨front, rest, rfl, hnodup, hapart, hname⟩
    induction front generalizing before with
    | nil =>
      have hbefore : name ∈ before := by simpa using hname
      simp [firstRepeated?, hbefore]
    | cons first front ih =>
      obtain ⟨hfirst, hnodup⟩ := List.nodup_cons.mp hnodup
      obtain ⟨hnew, hapart⟩ := List.forall_mem_cons.mp hapart
      rw [List.cons_append, firstRepeated?, if_neg hnew]
      refine ih hnodup (fun earlier hearlier => ?_) ?_
      · rw [List.mem_cons, not_or]
        exact ⟨fun hsame => hfirst (hsame ▸ hearlier), hapart earlier hearlier⟩
      · simpa [or_comm, or_left_comm, or_assoc] using hname

/-- A function has activations exactly if its parameters have distinct names. -/
theorem fresh_eq_ok_iff (function : FunctionDecl) (first : Activation) :
    fresh function = .ok first ↔ function.parameters.Nodup ∧ first = ofFunction function := by
  refine ⟨fun hfresh => ⟨nodup_parameters hfresh, fresh_eq_ok hfresh⟩, ?_⟩
  rintro ⟨hnodup, rfl⟩
  have hnone := (firstRepeated?_eq_none_iff [] _).mpr ⟨hnodup, by simp⟩
  rw [fresh, hnone]

/-- Otherwise the parameter that repeats an earlier one first is named. -/
theorem fresh_eq_error_iff (function : FunctionDecl) (fault : Fault) :
    fresh function = .error fault ↔
      ∃ name, FirstRepeat function.parameters name ∧
        fault = .duplicateDefinition "parameter" name := by
  have hfirst : ∀ name, FirstRepeat function.parameters name ↔
      firstRepeated? [] function.parameters = some name := by
    simp [firstRepeated?_eq_some_iff, FirstRepeat]
  simp only [hfirst, fresh]
  cases firstRepeated? [] function.parameters <;> simp [eq_comm]

/-- An activation after its parameters have been bound by position, the latest binding first in the
    list. A binding that is refused does nothing. -/
def withArguments (first : Activation) (arguments : List (Nat × Value)) : Activation :=
  arguments.foldr (fun argument => (bindParameter argument.1 argument.2).after) first

theorem withArguments_cons (first : Activation) (index : Nat) (value : Value)
    (earlier : List (Nat × Value)) :
    first.withArguments ((index, value) :: earlier) =
      if index < (first.withArguments earlier).function.arity then
        (first.withArguments earlier).withContent index (some value)
      else first.withArguments earlier :=
  after_bindParameter ..

@[simp]
theorem function_withArguments (first : Activation) (arguments : List (Nat × Value)) :
    (first.withArguments arguments).function = first.function := by
  induction arguments with
  | nil => rfl
  | cons argument earlier ih =>
    rw [withArguments_cons]
    split <;> simp [withContent, ih]

@[simp]
theorem visible_withArguments (first : Activation) (arguments : List (Nat × Value)) :
    (first.withArguments arguments).visible = first.visible := by
  induction arguments with
  | nil => rfl
  | cons argument earlier ih =>
    rw [withArguments_cons]
    split <;> simp [withContent, ih]

@[simp]
theorem size_withArguments (first : Activation) (arguments : List (Nat × Value)) :
    (first.withArguments arguments).slots.size = first.slots.size := by
  induction arguments with
  | nil => rfl
  | cons argument earlier ih =>
    rw [withArguments_cons]
    split <;> simp [ih]

/-- The slot of a parameter holds what was last bound to its position. -/
theorem slots_withArguments (function : FunctionDecl) (arguments : List (Nat × Value))
    (index : Nat) :
    ((ofFunction function).withArguments arguments).slots[index]? =
      function.parameters[index]?.map fun name => ⟨name, arguments.lookup index⟩ := by
  induction arguments with
  | nil => simp [withArguments, ofFunction]
  | cons argument earlier ih =>
    obtain ⟨place, value⟩ := argument
    have harity : ((ofFunction function).withArguments earlier).function.arity =
        function.parameters.length := by simp [ofFunction, FunctionDecl.arity]
    rw [withArguments_cons, harity, List.lookup_cons]
    by_cases hplace : place = index
    · subst hplace
      split
      · rw [getElem?_withContent, if_pos rfl, ih, Option.map_map, beq_self_eq_true]
        rfl
      · rename_i hpast
        rw [ih, List.getElem?_eq_none (by omega)]
        rfl
    · rw [beq_false_of_ne (Ne.symm hplace)]
      split
      · rw [getElem?_withContent, if_neg hplace, ih]
      · exact ih

/-- A parameter can be bound exactly if there is one at the position. -/
theorem answer_bindParameter (function : FunctionDecl) (arguments : List (Nat × Value))
    (index : Nat) (value : Value) :
    (bindParameter index value).answer ((ofFunction function).withArguments arguments) =
      if index < function.arity then .ok ()
      else .error (.argumentOutOfRange function.name index function.arity) := by
  have hfunction : ((ofFunction function).withArguments arguments).function = function := by
    simp [ofFunction]
  have hsize : ((ofFunction function).withArguments arguments).slots.size = function.arity := by
    simp [ofFunction, FunctionDecl.arity]
  by_cases hindex : index < function.arity
  · simp only [Update.answer, bindParameter, hfunction, if_pos hindex, store, hsize]
  · simp only [Update.answer, bindParameter, hfunction, if_neg hindex]

/-- The name of a parameter stands for the slot of its position. -/
theorem slotOf?_withArguments {function : FunctionDecl} (hnodup : function.parameters.Nodup)
    (arguments : List (Nat × Value)) {index : Nat} {name : String}
    (hname : function.parameters[index]? = some name) :
    ((ofFunction function).withArguments arguments).slotOf? name = some index := by
  have hslot : (ofFunction function).slotOf? name = some index :=
    (tabled_ofFunction hnodup).slotOf?_eq_some_iff.mpr (List.mem_zipIdx_iff_getElem?.mpr hname)
  rw [slotOf?, visible_withArguments, ← slotOf?, hslot]

end Activation

namespace Machine

open Activation

/-- What a body finds of its arguments before it has done anything: the parameters are the variables
    of its scope, each with the value last bound to its position, mark and all, or without one. -/
structure FindsArguments (machine : Machine σ) (parameters : List String)
    (arguments : List (Nat × Value)) : Prop where
  names : machine.display.variableNames = parameters
  values : ∀ index name, parameters[index]? = some name →
    machine.display.lookup name =
      match arguments.lookup index with
      | some value => .ok value
      | none => .error (.uninitializedVariable name)

/-- A parameter is found in the scope of the body, so that no other scope is asked for it. -/
theorem findsArguments_entered {function : FunctionDecl} (hnodup : function.parameters.Nodup)
    (arguments : List (Nat × Value)) (machine : Machine σ) :
    (machine.entered ((ofFunction function).withArguments arguments)).FindsArguments
      function.parameters arguments := by
  generalize hactivation : (ofFunction function).withArguments arguments = activation
  have hframe : (machine.entered activation).display.frame?
      (machine.entered activation).display.level = some ⟨machine.display.nextStamp, activation⟩ :=
    (Display.frame?_install ..).trans (if_pos rfl)
  constructor
  · rw [Display.variableNames_of_frame? hframe]
    simp [visibleNames, ← hactivation, ofFunction]
  · intro index name hname
    have hslot : activation.slotOf? name = some index :=
      hactivation ▸ slotOf?_withArguments hnodup arguments hname
    have hstored : activation.slots[index]? = some ⟨name, arguments.lookup index⟩ := by
      rw [← hactivation, slots_withArguments, hname, Option.map_some]
    exact Display.lookup_here hframe hslot hstored

end Machine

namespace Activation

/-- Arguments reach the body of the function for which they are meant. A function has activations
    exactly if its parameters have distinct names, and otherwise the first one that repeats an
    earlier one is named. However often and at whatever positions arguments have been bound, the
    next one is bound exactly if there is a parameter at its position. A call below the limit then
    runs the body where it finds them under the names of the parameters, and this holds on every
    machine: nothing is assumed of what the scopes around the body and the caller define. -/
theorem arguments_reach_body (function : FunctionDecl) :
    (∀ first, fresh function = .ok first ↔
      function.parameters.Nodup ∧ first = ofFunction function) ∧
    (∀ fault, fresh function = .error fault ↔
      ∃ name, FirstRepeat function.parameters name ∧
        fault = .duplicateDefinition "parameter" name) ∧
    ∀ first, fresh function = .ok first → ∀ arguments : List (Nat × Value),
      (∀ index value, (bindParameter index value).answer (first.withArguments arguments) =
        if index < function.arity then .ok ()
        else .error (.argumentOutOfRange function.name index function.arity)) ∧
      ∀ machine : Machine σ, function.level < machine.display.levelLimit →
        (∀ evaluate : Evaluator σ,
          (Machine.call (first.withArguments arguments) evaluate).answer machine =
            (evaluate function).answer (machine.entered (first.withArguments arguments))) ∧
        (machine.entered (first.withArguments arguments)).FindsArguments function.parameters
          arguments := by
  refine ⟨fresh_eq_ok_iff function, fresh_eq_error_iff function, fun first hfresh arguments => ?_⟩
  obtain ⟨hnodup, rfl⟩ := (fresh_eq_ok_iff function first).mp hfresh
  refine ⟨answer_bindParameter function arguments, fun machine hroom => ⟨fun evaluate => ?_, ?_⟩⟩
  · have hfunction : ((ofFunction function).withArguments arguments).function = function := by
      simp [ofFunction]
    have hlevel : ((ofFunction function).withArguments arguments).level = function.level := by
      rw [level, hfunction]
    rw [Machine.answer_call evaluate (hlevel ▸ hroom), hfunction]
  · exact machine.findsArguments_entered hnodup arguments

/-- A function calls itself with another first argument, bound twice, and none for its second
    parameter. The body finds the constant that was bound last, and does not find the value that the
    caller has for the second parameter. -/
theorem arguments_reach_recursive_body :
    let function : FunctionDecl := ⟨"f", 1, ["n", "m"]⟩
    let constant : Value := ⟨.boolean true, true⟩
    let caller := (ofFunction function).withArguments [(1, .boolean false), (0, .boolean false)]
    let machine := ({ display := .create {}, host := () } : Machine Unit).entered caller
    let body := machine.entered ((ofFunction function).withArguments
      [(0, constant), (2, .boolean false), (0, .boolean false)])
    machine.display.lookup "m" = .ok (.boolean false) ∧
      body.display.variableNames = ["n", "m"] ∧
      body.display.lookup "n" = .ok constant ∧
      body.display.lookup "m" = .error (.uninitializedVariable "m") := by
  intro function constant caller machine body
  have hfresh : fresh function = .ok (ofFunction function) := rfl
  obtain ⟨-, -, hbind⟩ := arguments_reach_body (σ := Unit) function
  obtain ⟨-, hcaller⟩ := hbind _ hfresh [(1, .boolean false), (0, .boolean false)]
  obtain ⟨-, hcalled⟩ :=
    hbind _ hfresh [(0, constant), (2, .boolean false), (0, .boolean false)]
  have houter := (hcaller { display := .create {}, host := () } (by decide)).2
  have hinner := (hcalled machine (by decide)).2
  exact ⟨houter.values 1 "m" rfl, hinner.names, hinner.values 0 "n" rfl, hinner.values 1 "m" rfl⟩

end Activation

end InterpreterCore

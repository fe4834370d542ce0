import InterpreterCore.Proofs.Text.Utf8
import InterpreterCore.Proofs.Value.Contract

namespace InterpreterCore

/-- Two steps in one direction, either of which may be level, make one: level where both are, and
    else in their direction. -/
def Chains (x y z : Ordering) : Prop :=
  x.isLE = true ∧ y.isLE = true ∨ x.isGE = true ∧ y.isGE = true → z = x.then y

/-- Comparison in a total preorder chains. -/
theorem chains_compare {α : Type} [Ord α] [Std.TransOrd α] (a b c : α) :
    Chains (Ord.compare a b) (Ord.compare b c) (Ord.compare a c) := by
  intro hsteps
  cases hab : Ord.compare a b with
  | eq => exact Std.TransCmp.congr_left hab
  | lt =>
    rw [hab] at hsteps
    obtain ⟨_, hbc⟩ | ⟨hge, _⟩ := hsteps
    · exact Std.TransCmp.lt_of_lt_of_isLE hab hbc
    · cases hge
  | gt =>
    rw [hab] at hsteps
    obtain ⟨hle, _⟩ | ⟨_, hbc⟩ := hsteps
    · cases hle
    · exact Std.TransCmp.gt_of_gt_of_isGE hab hbc

/-- The answers of the six relations about two values that compare in the given way. -/
structure Verdicts (order : Ordering) (answer : Relation → Bool) : Prop where
  lt : answer .lt = true ↔ order = .lt
  eq : answer .eq = true ↔ order = .eq
  gt : answer .gt = true ↔ order = .gt
  le : answer .le = !answer .gt
  ge : answer .ge = !answer .lt
  ne : answer .ne = !answer .eq
  /-- Exactly one of the three strict answers is affirmative. -/
  one : (answer .lt).toNat + (answer .eq).toNat + (answer .gt).toNat = 1

/-- How each relation reads an ordering gives such answers. -/
theorem verdicts_holds (order : Ordering) : Verdicts order fun op => op.holds order := by
  cases order <;> constructor <;> simp [Relation.holds]

namespace Binary

variable {format : Format}

/-- Numeric order does not depend on which number comes first. -/
theorem compare?_swap (x y : Binary format) : y.compare? x = (x.compare? y).map Ordering.swap := by
  unfold compare?
  rw [Bool.or_comm]
  split
  · rfl
  · exact congrArg some Std.OrientedOrd.eq_swap

end Binary

theorem Numeric.compare?_promote_swap (a b : Numeric) :
    (b.promote a).compare? = (a.promote b).compare?.map Ordering.swap := by
  cases a <;> cases b <;> first
    | exact Binary.compare?_swap ..
    | exact congrArg some Std.OrientedOrd.eq_swap

namespace Value

theorem toText_of_boolean {v : Value} {b : Bool} (hdatum : v.datum = .boolean b) :
    v.toText = .ok (if b then "true" else "false") := by
  rw [toText, hdatum]
  cases b <;> simp only [text, hdatum] <;> rfl

theorem toText_of_string {v : Value} {s : String} (hdatum : v.datum = .string s) :
    v.toText = .ok s := by
  rw [toText, hdatum]
  simp only [text, hdatum]

theorem compare_booleans {l r : Value} {a b : Bool} (hleft : l.datum = .boolean a)
    (hright : r.datum = .boolean b) : l.compare r = .ok (Ord.compare a b) := by
  rw [compare, hleft, toBoolean, hright]
  rfl

theorem compare_strings {l r : Value} {s t : String} (hleft : l.datum = .string s)
    (hright : r.datum = .string t) : l.compare r = .ok (Ord.compare s t) := by
  rw [compare, hleft, toText_of_string hright]
  rfl

section Opposite

variable {l r : Value} {x y : Ordering}

theorem opposite_numbers {a b : Numeric} (hleft : l.datum.numeric? = some a)
    (hright : r.datum.numeric? = some b) (hx : l.compare r = .ok x) (hy : r.compare l = .ok y) :
    y = x.swap := by
  rw [compare_number hleft hright] at hx
  rw [compare_number hright hleft, Numeric.compare?_promote_swap a b] at hy
  cases horder : (a.promote b).compare? with
  | none =>
    rw [horder] at hx
    cases hx
  | some order =>
    rw [horder] at hx hy
    cases hx
    cases hy
    rfl

/-- The texts of the truth values have the order of the truth values. -/
theorem compare_spelled (a b : Bool) :
    Ord.compare (if b then "true" else "false") (if a then "true" else "false") =
      (Ord.compare a b).swap := by
  cases a <;> cases b <;> decide

/-- A truth value and a string that spells one compare alike as truth values and as strings. -/
theorem opposite_spelled {a : Bool} {s : String} (hleft : l.datum = .boolean a)
    (hright : r.datum = .string s) (hx : l.compare r = .ok x) (hy : r.compare l = .ok y) :
    y = x.swap := by
  rw [compare, hleft] at hx
  rw [compare, hright, toText_of_boolean hleft] at hy
  cases hspelled : r.toBoolean with
  | error fault =>
    rw [hspelled] at hx
    cases hx
  | ok b =>
    rw [hspelled] at hx
    obtain hboolean | hinteger | hstring := (toBoolean_eq_ok_iff r b).mp hspelled
    · cases hright.symm.trans hboolean
    · cases hright.symm.trans hinteger
    · obtain rfl : s = if b then "true" else "false" :=
        Datum.string.inj (hright.symm.trans hstring)
      cases hx
      cases hy
      exact compare_spelled a b

/-- Values that are no numbers compare in opposite ways where they compare both ways. -/
theorem opposite_others (hleft : l.datum.numeric? = none) (hright : r.datum.numeric? = none)
    (hx : l.compare r = .ok x) (hy : r.compare l = .ok y) : y = x.swap := by
  cases hl : l.datum with
  | integer | float | double =>
    rw [hl] at hleft
    cases hleft
  | object =>
    rw [compare, hl] at hx
    cases hx
  | boolean a =>
    cases hr : r.datum with
    | integer | float | double =>
      rw [hr] at hright
      cases hright
    | object =>
      rw [compare, hr] at hy
      cases hy
    | string s => exact opposite_spelled hl hr hx hy
    | boolean b =>
      rw [compare_booleans hl hr] at hx
      rw [compare_booleans hr hl] at hy
      cases hx
      cases hy
      exact Std.OrientedOrd.eq_swap
  | string s =>
    cases hr : r.datum with
    | integer | float | double =>
      rw [hr] at hright
      cases hright
    | object =>
      rw [compare, hr] at hy
      cases hy
    | boolean b => rw [opposite_spelled hr hl hy hx, Ordering.swap_swap]
    | string t =>
      rw [compare_strings hl hr] at hx
      rw [compare_strings hr hl] at hy
      cases hx
      cases hy
      exact Std.OrientedOrd.eq_swap

/-- Two values that compare both ways compare in opposite ways. -/
theorem compare_opposite (hx : l.compare r = .ok x) (hy : r.compare l = .ok y) : y = x.swap := by
  cases hleft : l.datum.numeric? with
  | some a =>
    cases hright : r.datum.numeric? with
    | some b => exact opposite_numbers hleft hright hx hy
    | none =>
      rw [compare_other hleft hright] at hx
      cases hx
  | none =>
    cases hright : r.datum.numeric? with
    | some b =>
      rw [compare_other hright hleft] at hy
      cases hy
    | none => exact opposite_others hleft hright hx hy

end Opposite

/-- The values that have a place in the order of their kind. -/
structure HasPlace (v : Value) : Prop where
  kind_ne : v.kind ≠ .object
  number : v.isNaN = false

/-- The place of a value that is no string in the order of its kind. -/
def rank (v : Value) : Int :=
  match v.datum with
  | .boolean b => if b then 1 else 0
  | .integer n => n.toInt
  | .float x => x.signed
  | .double x => x.signed
  | .string _ | .object _ => 0

/-- Values of one kind, but for strings, compare as their places in it. -/
theorem compare_eq_rank {l r : Value} (hkind : l.kind = r.kind) (hother : l.kind ≠ .string)
    (hleft : l.HasPlace) (hright : r.HasPlace) :
    l.compare r = .ok (Ord.compare l.rank r.rank) := by
  obtain ⟨left, _⟩ := l
  obtain ⟨right, _⟩ := r
  cases left with
  | string => exact absurd rfl hother
  | object => exact absurd rfl hleft.kind_ne
  | boolean x =>
    cases right <;> cases hkind
    rename_i y
    cases x <;> cases y <;> rfl
  | integer x =>
    cases right <;> cases hkind
    rfl
  | float x =>
    cases right <;> cases hkind
    rename_i y
    have horder : ((Numeric.float x).promote (.float y)).compare? = some _ :=
      Binary.compare?_of_number hleft.number hright.number
    rw [compare_number rfl rfl, horder]
    rfl
  | double x =>
    cases right <;> cases hkind
    rename_i y
    have horder : ((Numeric.double x).promote (.double y)).compare? = some _ :=
      Binary.compare?_of_number hleft.number hright.number
    rw [compare_number rfl rfl, horder]
    rfl

/-- Values of one kind always compare, and two steps in one direction make one. -/
theorem compare_chains {a b c : Value} (hab : a.kind = b.kind) (hbc : b.kind = c.kind)
    (ha : a.HasPlace) (hb : b.HasPlace) (hc : c.HasPlace) :
    ∃ x y z, a.compare b = .ok x ∧ b.compare c = .ok y ∧ a.compare c = .ok z ∧ Chains x y z := by
  by_cases hstring : a.kind = .string
  · obtain ⟨s, hs⟩ := datum_of_string hstring
    obtain ⟨t, ht⟩ := datum_of_string (hab.symm.trans hstring)
    obtain ⟨u, hu⟩ := datum_of_string (hbc.symm.trans (hab.symm.trans hstring))
    exact ⟨_, _, _, compare_strings hs ht, compare_strings ht hu, compare_strings hs hu,
      chains_compare _ _ _⟩
  · have hb' : b.kind ≠ .string := hab ▸ hstring
    exact ⟨_, _, _, compare_eq_rank hab hstring ha hb, compare_eq_rank hbc hb' hb hc,
      compare_eq_rank (hab.trans hbc) hstring ha hc, chains_compare _ _ _⟩

/-- A value with a place in the order of its kind compares as equal to itself. -/
theorem compare_self {v : Value} (hv : v.HasPlace) : v.compare v = .ok .eq := by
  obtain ⟨x, _, _, hx, _⟩ := compare_chains rfl rfl hv hv hv
  have hopposite := compare_opposite hx hx
  cases x with
  | eq => exact hx
  | lt | gt => cases hopposite

/-- What the relations between two values have to do with how they compare. -/
structure RelationsAgree (l r : Value) : Prop where
  /-- Without an object, either all six relations fail as comparison does, or they are the six
      predicates of one ordering. -/
  ordered : l.kind ≠ .object → r.kind ≠ .object →
    (∃ fault, l.compare r = .error fault ∧ ∀ op, binary (.relation op) l r = .error fault) ∨
    ∃ order answer, l.compare r = .ok order ∧ Verdicts order answer ∧
      ∀ op, binary (.relation op) l r = .ok (boolean (answer op))
  identified : l.kind = .object ∨ r.kind = .object →
    ∃ same, binary (.relation .eq) l r = .ok (boolean same) ∧
      binary (.relation .ne) l r = .ok (boolean !same)
  unordered : l.kind = .object ∨ r.kind = .object →
    ∃ fault, l.compare r = .error fault ∧
      ∀ op, op ≠ .eq → op ≠ .ne → binary (.relation op) l r = .error fault

theorem compare_object {l r : Value} (hobject : l.kind = .object ∨ r.kind = .object) :
    ∃ fault, l.compare r = .error fault := by
  obtain ⟨left, _⟩ := l
  obtain ⟨right, _⟩ := r
  cases left with
  | object => exact ⟨_, rfl⟩
  | boolean | integer | float | double | string =>
    cases right with
    | object => exact ⟨_, rfl⟩
    | boolean | integer | float | double | string => exact absurd hobject (by nofun)

theorem relationsAgree (l r : Value) : RelationsAgree l r where
  ordered hleft hright := by
    have hrelation (op : Relation) := relate_eq_compare
      (show (op = .eq ∨ op = .ne) → ¬ (l.kind = .object ∨ r.kind = .object) from
        fun _ hobject => hobject.elim hleft hright)
    cases horder : l.compare r with
    | error fault => exact .inl ⟨fault, rfl, fun op => by rw [hrelation, horder]; rfl⟩
    | ok order =>
      exact .inr ⟨order, _, rfl, verdicts_holds order, fun op => by rw [hrelation, horder]; rfl⟩
  identified hobject := ⟨_, (relationLaws .eq l r).identifies hobject⟩
  unordered hobject := by
    obtain ⟨fault, hfault⟩ := compare_object hobject
    refine ⟨fault, hfault, fun op heq hne => ?_⟩
    rw [relate_eq_compare fun hop => absurd hop (by simp [heq, hne]), hfault]
    rfl

/-- There is one order behind all relations between values. They are its predicates; the two ways of
    asking how two values compare never contradict each other, whatever their kinds; and of the
    values with a place in the order of one kind, any two compare, each is equal to itself, and
    comparison is transitive. Strings have the order of their bytes in UTF-8. -/
theorem relations_coherent :
    (∀ l r : Value, RelationsAgree l r) ∧
    (∀ (l r : Value) (x y : Ordering), l.compare r = .ok x → r.compare l = .ok y → y = x.swap) ∧
    (∀ v : Value, v.HasPlace → v.compare v = .ok .eq) ∧
    (∀ a b c : Value, a.kind = b.kind → b.kind = c.kind → a.HasPlace → b.HasPlace → c.HasPlace →
      ∃ x y z, a.compare b = .ok x ∧ b.compare c = .ok y ∧ a.compare c = .ok z ∧ Chains x y z) ∧
    ∀ (l r : Value) (s t : String), l.datum = .string s → r.datum = .string t →
      l.compare r = .ok (compareOfLessAndEq (Text.utf8 s) (Text.utf8 t)) := by
  refine ⟨relationsAgree, fun _ _ _ _ => compare_opposite, fun _ => compare_self,
    fun _ _ _ => compare_chains, fun l r s t hs ht => ?_⟩
  rw [compare_strings hs ht, Text.compare_eq_utf8]

-- One way of asking may succeed and the other fail.
example : (boolean true).compare (integer 1) = .ok .eq ∧
    (integer 1).compare (boolean true) = .error (.notComparable "integer" "boolean") := ⟨rfl, rfl⟩

end Value

end InterpreterCore

import InterpreterCore.Proofs.Value.Order
import InterpreterCore.Proofs.Value.SameData

namespace InterpreterCore

/-- Two numbers of one kind that are one number. -/
inductive NumericPair.Same : NumericPair → Prop where
  | integers (n : Int64) : Same (.integers n n)
  | floats {x y : Single} (hnumber : x.SameNumber y) : Same (.floats x y)
  | doubles {x y : Double} (hnumber : x.SameNumber y) : Same (.doubles x y)

theorem NumericPair.compare?_eq_iff (pair : NumericPair) :
    pair.compare? = some .eq ↔ pair.Same := by
  constructor
  · intro horder
    cases pair with
    | integers x y =>
      obtain rfl := Int64.toInt_inj.mp (Int.compare_eq_eq.mp (Option.some.inj horder))
      exact .integers _
    | floats x y => exact .floats (Binary.compare?_eq_iff.mp horder)
    | doubles x y => exact .doubles (Binary.compare?_eq_iff.mp horder)
  · intro hsame
    cases hsame with
    | integers n => exact congrArg some (Int.compare_eq_eq.mpr rfl)
    | floats hnumber | doubles hnumber => exact Binary.compare?_eq_iff.mpr hnumber

/-- Promotion keeps zeros, and all zeros of a kind are one number. -/
theorem Numeric.same_promote_of_isZero {a b : Numeric} (ha : a.isZero = true)
    (hb : b.isZero = true) : (a.promote b).Same := by
  obtain ⟨x, y, rfl, rfl, hpair⟩ | hpair | ⟨hsingle, hsingle', hpair⟩ := promote_cases a b
  · obtain rfl : x = 0 := beq_iff_eq.mp ha
    obtain rfl : y = 0 := beq_iff_eq.mp hb
    rw [hpair]
    exact .integers 0
  · rw [hpair]
    exact .doubles (.zeros ((isZero_toDouble a).trans ha) ((isZero_toDouble b).trans hb))
  · rw [hpair]
    exact .floats (.zeros ((isZero_toSingle hsingle).trans ha) ((isZero_toSingle hsingle').trans hb))

/-- Whether to the operator some value of the left kind equals one of the right kind, which is
    another. -/
def Kind.mayEqual (left right : Kind) : Bool :=
  match left with
  | .boolean => right == .integer || right == .string
  | .string => right != .object
  | .object => false
  | .integer | .float | .double => right.isNumeric

namespace Value

/-- The right value counts as what the left one is: as its truth value, as its text, or, where both
    are numbers, as its number in the wider of their kinds. -/
inductive EqualByCoercion (l r : Value) : Prop where
  | boolean {b : Bool} (hleft : l.datum = .boolean b) (hright : r.CountsAs b)
  | string {s : String} (hleft : l.datum = .string s) (hright : r.toText = .ok s)
  | number {pair : NumericPair} (hleft : l.isNumeric = true) (hright : r.isNumeric = true)
      (hpair : Converted l r pair) (hsame : pair.Same)

/-- The operator says of two values that they are equal exactly when their data are. Otherwise it
    says that they are not, unless one of them is a floating value that is not a number; it then
    fails. -/
structure AgreesWithData (l r : Value) : Prop where
  equal : binary (.relation .eq) l r = .ok (boolean true) ↔ l.sameData r = true
  unequal : binary (.relation .eq) l r = .ok (boolean false) ↔
    l.sameData r = false ∧ l.isNaN = false ∧ r.isNaN = false
  refused : ∀ fault, binary (.relation .eq) l r = .error fault ↔
    (l.isNaN = true ∨ r.isNaN = true) ∧ fault = .notComparable l.kind.name r.kind.name

/-- How the operator of equality and equality of data go together, for any two values. -/
structure EqualityLaws (l r : Value) : Prop where
  data : l.sameData r = true ↔ l.datum.Same r.datum
  withinKind : l.kind = r.kind → AgreesWithData l r
  objects : ∀ x y, l.datum = .object x → r.datum = .object y →
    (binary (.relation .eq) l r = .ok (boolean true) ↔ x.id = y.id) ∧
      (x.id = y.id ↔ x.SharesFields y)
  acrossKinds : l.kind ≠ r.kind → l.sameData r = false ∧
    (binary (.relation .eq) l r = .ok (boolean true) ↔ EqualByCoercion l r)
  marks : ∀ l' r' : Value, l'.datum = l.datum → r'.datum = r.datum →
    binary (.relation .eq) l' r' = binary (.relation .eq) l r ∧ l'.sameData r' = l.sameData r

section

variable {l r : Value}

/-- Floating values that are not numbers equal nothing. -/
theorem isNaN_of_sameData (hsame : l.sameData r = true) : l.isNaN = false ∧ r.isNaN = false := by
  obtain ⟨left, _⟩ := l
  obtain ⟨right, _⟩ := r
  cases sameData_iff.mp hsame with
  | boolean | integer | string | object => exact ⟨rfl, rfl⟩
  | float hnumber | double hnumber => exact ⟨hnumber.isNaN_left, hnumber.symm.isNaN_left⟩

theorem binary_eq_ok_iff {b : Bool} :
    binary (.relation .eq) l r = .ok (boolean b) ↔ l.isEqualTo r = .ok b := by
  rw [binary, relate]
  cases l.isEqualTo r <;> simp [Except.map, boolean]

theorem binary_eq_error_iff {fault : Fault} :
    binary (.relation .eq) l r = .error fault ↔ l.isEqualTo r = .error fault := by
  rw [binary, relate]
  cases l.isEqualTo r <;> simp [Except.map]

theorem compare_numbers_iff {a b : Numeric} (hleft : l.datum.numeric? = some a)
    (hright : r.datum.numeric? = some b) : l.compare r = .ok .eq ↔ (a.promote b).Same := by
  rw [compare_number_eq_ok_iff hleft hright, NumericPair.compare?_eq_iff]

/-- Within a kind comparison finds values level exactly when their data are equal. -/
theorem compare_iff_sameData (hkind : l.kind = r.kind) (hother : l.kind ≠ .object) :
    l.compare r = .ok .eq ↔ l.sameData r = true := by
  rw [sameData_iff]
  obtain ⟨left, _⟩ := l
  obtain ⟨right, _⟩ := r
  cases left with
  | object => exact absurd rfl hother
  | boolean a =>
    cases right <;> cases hkind
    rw [compare_booleans rfl rfl, Except.ok.injEq, Std.LawfulEqOrd.compare_eq_iff_eq]
    constructor
    · rintro rfl
      exact .boolean _
    · rintro ⟨⟩
      rfl
  | string s =>
    cases right <;> cases hkind
    rw [compare_strings rfl rfl, Except.ok.injEq, Std.LawfulEqOrd.compare_eq_iff_eq, ← Text.utf8_inj]
    constructor
    · exact .string
    · rintro ⟨⟩
      assumption
  | integer x =>
    cases right <;> cases hkind
    rw [compare_numbers_iff rfl rfl]
    constructor
    · rintro ⟨⟩
      exact .integer _
    · rintro ⟨⟩
      exact .integers _
  | float x =>
    cases right <;> cases hkind
    rw [compare_numbers_iff rfl rfl]
    constructor
    · intro hsame
      cases hsame with
      | floats hnumber => exact .float hnumber
    · intro hsame
      cases hsame with
      | float hnumber => exact .floats hnumber
  | double x =>
    cases right <;> cases hkind
    rw [compare_numbers_iff rfl rfl]
    constructor
    · intro hsame
      cases hsame with
      | doubles hnumber => exact .double hnumber
    · intro hsame
      cases hsame with
      | double hnumber => exact .doubles hnumber

theorem isNumeric_of_isNaN {v : Value} (hnan : v.isNaN = true) : v.isNumeric = true := by
  obtain ⟨_, hnumber, _⟩ := (Option.any_eq_true _ _).mp hnan
  exact isNumeric_of_numeric? hnumber

/-- Within a kind the operator has the answer of the data, unless a floating value is not a
    number. -/
theorem isEqualTo_of_number (hkind : l.kind = r.kind) (hleft : l.isNaN = false)
    (hright : r.isNaN = false) : l.isEqualTo r = .ok (l.sameData r) := by
  by_cases hobject : l.kind = .object
  · obtain ⟨left, _⟩ := l
    obtain ⟨right, _⟩ := r
    cases left <;> cases hobject
    cases right <;> cases hkind
    rfl
  · have hlevel := compare_iff_sameData hkind hobject
    obtain ⟨order, _, _, horder, _⟩ :=
      compare_chains hkind rfl ⟨hobject, hleft⟩ ⟨hkind ▸ hobject, hright⟩ ⟨hkind ▸ hobject, hright⟩
    rw [isEqualTo_other (not_or.mpr ⟨hobject, hkind ▸ hobject⟩), horder]
    rw [horder, Except.ok.injEq] at hlevel
    refine congrArg Except.ok (Bool.eq_iff_iff.mpr ?_)
    rw [← hlevel]
    exact Ordering.isEq_iff_eq_eq

theorem isEqualTo_of_isNaN (hkind : l.kind = r.kind) (hnan : l.isNaN = true ∨ r.isNaN = true) :
    l.isEqualTo r = .error (.notComparable l.kind.name r.kind.name) := by
  have hleft : l.isNumeric = true := by
    obtain hleft | hright := hnan
    · exact isNumeric_of_isNaN hleft
    · rw [isNumeric, hkind]
      exact isNumeric_of_isNaN hright
  have hobject := kind_ne_object_of_isNumeric hleft
  rw [isEqualTo_other (not_or.mpr ⟨hobject, hkind ▸ hobject⟩),
    (orderLaws l r).refuses hleft (.inr hnan)]
  rfl

theorem agreesWithData (hkind : l.kind = r.kind) : AgreesWithData l r := by
  by_cases hnan : l.isNaN = true ∨ r.isNaN = true
  · have hrefused := isEqualTo_of_isNaN hkind hnan
    constructor
    · rw [binary_eq_ok_iff, hrefused]
      refine ⟨nofun, fun hsame => ?_⟩
      obtain ⟨hleft, hright⟩ := isNaN_of_sameData hsame
      rw [hleft, hright] at hnan
      simp at hnan
    · rw [binary_eq_ok_iff, hrefused]
      refine ⟨nofun, fun ⟨_, hleft, hright⟩ => ?_⟩
      rw [hleft, hright] at hnan
      simp at hnan
    · intro fault
      rw [binary_eq_error_iff, hrefused, Except.error.injEq, eq_comm]
      exact (and_iff_right hnan).symm
  · obtain ⟨hleft, hright⟩ := not_or.mp hnan
    rw [Bool.not_eq_true] at hleft hright
    have hanswer := isEqualTo_of_number hkind hleft hright
    constructor
    · rw [binary_eq_ok_iff, hanswer, Except.ok.injEq]
    · rw [binary_eq_ok_iff, hanswer, Except.ok.injEq]
      exact (and_iff_left ⟨hleft, hright⟩).symm
    · intro fault
      rw [binary_eq_error_iff, hanswer]
      exact ⟨nofun, fun hrefused => absurd hrefused.1 hnan⟩

theorem kind_of_countsAs {v : Value} {b : Bool} (hcounts : v.CountsAs b) :
    v.kind = .boolean ∨ v.kind = .integer ∨ v.kind = .string := by
  obtain ⟨datum, _⟩ := v
  obtain ⟨⟨⟩⟩ | ⟨⟨⟩⟩ | ⟨⟨⟩⟩ := hcounts
  · exact .inl rfl
  · exact .inr (.inl rfl)
  · exact .inr (.inr rfl)

theorem kind_ne_object_of_toText {v : Value} {s : String} (htext : v.toText = .ok s) :
    v.kind ≠ .object := by
  intro hobject
  rw [toText_of_object hobject] at htext
  cases htext

/-- Comparison finds two values level exactly when the right one counts as what the left one is. -/
theorem compare_iff_equalByCoercion : l.compare r = .ok .eq ↔ EqualByCoercion l r := by
  constructor
  · intro hlevel
    cases hleft : l.datum with
    | boolean a =>
      rw [compare, hleft] at hlevel
      cases hright : r.toBoolean with
      | error fault =>
        rw [hright] at hlevel
        cases hlevel
      | ok b =>
        rw [hright] at hlevel
        obtain rfl := Std.LawfulEqOrd.eq_of_compare (Except.ok.inj hlevel)
        exact .boolean hleft ((toBoolean_eq_ok_iff r _).mp hright)
    | string s =>
      rw [compare, hleft] at hlevel
      cases hright : r.toText with
      | error fault =>
        rw [hright] at hlevel
        cases hlevel
      | ok t =>
        rw [hright] at hlevel
        obtain rfl := Std.LawfulEqOrd.eq_of_compare (Except.ok.inj hlevel)
        exact .string hleft hright
    | object x =>
      rw [compare, hleft] at hlevel
      cases hlevel
    | integer | float | double =>
      obtain ⟨a, ha⟩ : ∃ a, l.datum.numeric? = some a := by
        rw [hleft]
        exact ⟨_, rfl⟩
      cases hb : r.datum.numeric? with
      | none =>
        rw [compare_other ha hb] at hlevel
        cases hlevel
      | some b =>
        exact .number (isNumeric_of_numeric? ha) (isNumeric_of_numeric? hb) (converted_promote ha hb)
          ((compare_numbers_iff ha hb).mp hlevel)
  · rintro (⟨hleft, hright⟩ | ⟨hleft, hright⟩ | ⟨hleft, hright, hpair, hsame⟩)
    · rw [compare, hleft, (toBoolean_eq_ok_iff r _).mpr hright]
      exact congrArg Except.ok Std.ReflCmp.compare_self
    · rw [compare, hleft, hright]
      exact congrArg Except.ok Std.ReflCmp.compare_self
    · obtain ⟨a, ha⟩ := exists_numeric hleft
      obtain ⟨b, hb⟩ := exists_numeric hright
      rw [compare_numbers_iff ha hb, (converted_promote ha hb).unique hpair]
      exact hsame

/-- An object equals nothing of another kind, and nothing of another kind counts as one. -/
theorem isEqualTo_iff_equalByCoercion (hkind : l.kind ≠ r.kind) :
    l.isEqualTo r = .ok true ↔ EqualByCoercion l r := by
  by_cases hobject : l.kind = .object ∨ r.kind = .object
  · obtain ⟨fault, hfault⟩ := compare_object hobject
    have hdiffer : l.isSameObject r = false := by
      obtain ⟨left, _⟩ := l
      obtain ⟨right, _⟩ := r
      cases left <;> cases right <;> first | rfl | exact absurd rfl hkind
    rw [isEqualTo_object hobject, hdiffer, ← compare_iff_equalByCoercion, hfault]
    exact ⟨nofun, nofun⟩
  · rw [isEqualTo_iff_compare hobject, compare_iff_equalByCoercion]

/-- The mark of a constant enters neither equality. -/
theorem equality_of_datum {l' r' : Value} (hleft : l'.datum = l.datum) (hright : r'.datum = r.datum) :
    binary (.relation .eq) l' r' = binary (.relation .eq) l r ∧ l'.sameData r' = l.sameData r := by
  obtain ⟨left, _⟩ := l
  obtain ⟨left', _⟩ := l'
  obtain ⟨right, _⟩ := r
  obtain ⟨right', _⟩ := r'
  obtain rfl : left' = left := hleft
  obtain rfl : right' = right := hright
  cases left' <;> cases right' <;> exact ⟨rfl, rfl⟩

theorem equalityLaws (l r : Value) : EqualityLaws l r where
  data := sameData_iff
  withinKind hkind := agreesWithData hkind
  objects x y hleft hright := by
    refine ⟨?_, beq_iff_eq.symm.trans Instance.same_iff_sharesFields⟩
    rw [binary_eq_ok_iff, isEqualTo, hleft, hright, Except.ok.injEq]
    exact beq_iff_eq
  acrossKinds hkind :=
    ⟨Bool.eq_false_iff.mpr fun hsame => hkind (kind_of_sameData hsame),
      binary_eq_ok_iff.trans (isEqualTo_iff_equalByCoercion hkind)⟩
  marks _ _ hleft hright := equality_of_datum hleft hright

theorem mayEqual_of_equalByCoercion (hkind : l.kind ≠ r.kind) (hequal : EqualByCoercion l r) :
    l.kind.mayEqual r.kind = true := by
  cases hequal with
  | boolean hleft hright =>
    have hboolean : l.kind = .boolean := by rw [kind, hleft, Datum.kind]
    rw [hboolean] at hkind ⊢
    obtain hright | hright | hright := kind_of_countsAs hright
    · exact absurd hright.symm hkind
    · rw [hright]
      rfl
    · rw [hright]
      rfl
  | string hleft hright =>
    have hstring : l.kind = .string := by rw [kind, hleft, Datum.kind]
    rw [hstring]
    exact bne_iff_ne.mpr (kind_ne_object_of_toText hright)
  | number hleft hright =>
    rw [isNumeric] at hleft hright
    cases hnumeric : l.kind with
    | boolean | string | object =>
      rw [hnumeric] at hleft
      cases hleft
    | integer | float | double => exact hright

end

theorem exists_of_kind (kind : Kind) : ∃ v : Value, v.kind = kind := by
  cases kind with
  | boolean => exact ⟨boolean false, rfl⟩
  | integer => exact ⟨integer 0, rfl⟩
  | float => exact ⟨float (Binary.zero .single false), rfl⟩
  | double => exact ⟨double (Binary.zero .double false), rfl⟩
  | string => exact ⟨string "", rfl⟩
  | object => exact ⟨object ⟨0, ""⟩, rfl⟩

theorem exists_zero_of_kind {kind : Kind} (hnumeric : kind.isNumeric = true) :
    ∃ (v : Value) (number : Numeric), v.kind = kind ∧ v.datum.numeric? = some number ∧
      number.isZero = true := by
  cases kind with
  | integer => exact ⟨integer 0, _, rfl, rfl, rfl⟩
  | float => exact ⟨float (Binary.zero .single false), _, rfl, rfl, rfl⟩
  | double => exact ⟨double (Binary.zero .double false), _, rfl, rfl, rfl⟩
  | boolean | string | object => cases hnumeric

/-- Zeros of all numeric kinds are equal. -/
theorem exists_equal_numbers {left right : Kind} (hleft : left.isNumeric = true)
    (hright : right.isNumeric = true) :
    ∃ l r : Value, l.kind = left ∧ r.kind = right ∧ EqualByCoercion l r := by
  obtain ⟨l, a, hl, ha, hazero⟩ := exists_zero_of_kind hleft
  obtain ⟨r, b, hr, hb, hbzero⟩ := exists_zero_of_kind hright
  exact ⟨l, r, hl, hr, .number (isNumeric_of_numeric? ha) (isNumeric_of_numeric? hb)
    (converted_promote ha hb) (Numeric.same_promote_of_isZero hazero hbzero)⟩

theorem exists_equalByCoercion {left right : Kind} (hmay : left.mayEqual right = true) :
    ∃ l r : Value, l.kind = left ∧ r.kind = right ∧ EqualByCoercion l r := by
  cases left with
  | object => cases hmay
  | boolean =>
    cases right with
    | integer => exact ⟨boolean true, integer 1, rfl, rfl, .boolean rfl (.integer rfl)⟩
    | string => exact ⟨boolean true, string "true", rfl, rfl, .boolean rfl (.string rfl)⟩
    | boolean | float | double | object => cases hmay
  | string =>
    obtain ⟨r, rfl⟩ := exists_of_kind right
    exact ⟨string r.text, r, rfl, rfl, .string rfl (toText_eq (bne_iff_ne.mp hmay))⟩
  | integer | float | double => exact exists_equal_numbers rfl hmay

/-- The two equalities of values, for any two. Within a kind the operator's is that of the data, and
    it has no answer exactly where a floating value is not a number; objects are equal when they are
    one instance. Across kinds data are never equal, and to the operator two values are equal when
    the right one counts as what the left one is. The kinds of which some values do are told one by
    one. No constant mark enters. -/
theorem equality_agrees_within_kind :
    (∀ l r : Value, EqualityLaws l r) ∧
    ∀ left right : Kind, left ≠ right →
      ((∃ l r : Value, l.kind = left ∧ r.kind = right ∧
          binary (.relation .eq) l r = .ok (boolean true)) ↔ left.mayEqual right = true) := by
  refine ⟨equalityLaws, fun left right hkinds => ⟨?_, fun hmay => ?_⟩⟩
  · rintro ⟨l, r, rfl, rfl, hequal⟩
    exact mayEqual_of_equalByCoercion hkinds (((equalityLaws l r).acrossKinds hkinds).2.mp hequal)
  · obtain ⟨l, r, rfl, rfl, hequal⟩ := exists_equalByCoercion hmay
    exact ⟨l, r, rfl, rfl, ((equalityLaws l r).acrossKinds hkinds).2.mpr hequal⟩

-- A string may equal an integer that has no answer to the opposite question.
example : binary (.relation .eq) (string "1") (integer 1) = .ok (boolean true) ∧
    binary (.relation .eq) (integer 1) (string "1") = .error (.notComparable "integer" "string") :=
  ⟨rfl, rfl⟩

end Value

end InterpreterCore

import InterpreterCore.Proofs.Value.Arithmetic

namespace InterpreterCore

/-- The truth value that a connective makes of two. -/
def Connective.join : Connective → Bool → Bool → Bool
  | or => (· || ·)
  | and => (· && ·)

namespace Value

/-- Whether a value is a numeric zero. -/
def isZero (v : Value) : Bool := v.datum.numeric?.any Numeric.isZero

/-- Whether a value is a floating value that is not a number. -/
def isNaN (v : Value) : Bool := v.datum.numeric?.any Numeric.isNaN

/-- Whether two values are one instance. -/
def isSameObject (l r : Value) : Bool :=
  match l.datum, r.datum with
  | .object a, .object b => a.same b
  | _, _ => false

/-- The values that count as a truth value. -/
inductive CountsAs (v : Value) (b : Bool) : Prop where
  | boolean (hdatum : v.datum = .boolean b)
  | integer (hdatum : v.datum = .integer (if b then 1 else 0))
  | string (hdatum : v.datum = .string (if b then "true" else "false"))

/-- Both values converted to the wider of their kinds. -/
inductive Converted (l r : Value) : NumericPair → Prop where
  | integers {x y : Int64} (hkind : Kind.widest l.kind r.kind = .integer)
      (hleft : l.toInteger = .ok x) (hright : r.toInteger = .ok y) :
      Converted l r (.integers x y)
  | floats {x y : Single} (hkind : Kind.widest l.kind r.kind = .float)
      (hleft : l.toFloat = .ok x) (hright : r.toFloat = .ok y) : Converted l r (.floats x y)
  | doubles {x y : Double} (hkind : Kind.widest l.kind r.kind = .double)
      (hleft : l.toDouble = .ok x) (hright : r.toDouble = .ok y) : Converted l r (.doubles x y)

/-- A zero on the right of an operation that has no result for it. -/
def DividesByZero (op : Arithmetic) (r : Value) : Prop :=
  op.zeroFault?.isSome = true ∧ r.isZero = true

/-- Two integers whose exact result, or whose quotient for a remainder, is out of range. -/
def Overflows (op : Arithmetic) (l r : Value) : Prop :=
  ∃ x y, l.datum = .integer x ∧ r.datum = .integer y ∧
    ¬ Integer.InRange (op.checked x.toInt y.toInt)

/-- The contract of a connective. The right operand is coerced also where the left one decides. -/
structure ConnectiveLaws (op : Connective) (l r : Value) : Prop where
  joins : ∀ v, binary (.connective op) l r = .ok v ↔
    ∃ a b, l.datum = .boolean a ∧ r.toBoolean = .ok b ∧ v = boolean (op.join a b)
  coerces : l.kind = .boolean → ∀ fault, r.toBoolean = .error fault →
    binary (.connective op) l r = .error fault
  refuses : l.kind ≠ .boolean →
    binary (.connective op) l r = .error (.invalidBinaryOp l.kind.name (.connective op))

/-- The contract of addition to a string. -/
structure ConcatenationLaws (l r : Value) : Prop where
  appends : ∀ a, l.datum = .string a → r.kind ≠ .object →
    ∃ b, r.toText = .ok b ∧ binary (.arithmetic .add) l r = .ok (string (a ++ b))
  refuses_object : l.kind = .string → r.kind = .object →
    binary (.arithmetic .add) l r = .error (.invalidCoercion "object" "string")

/-- The contract of arithmetic, but for addition to a string. Floating results are rounded once. A
    right operand that is no number is refused before a zero divisor, and a zero divisor before an
    overflow. -/
structure ArithmeticLaws (op : Arithmetic) (l r : Value) : Prop where
  succeeds : l.isNumeric = true →
    ((∃ v, binary (.arithmetic op) l r = .ok v) ↔
      r.isNumeric = true ∧ ¬ DividesByZero op r ∧ ¬ Overflows op l r)
  computes : l.isNumeric = true → ∀ v, binary (.arithmetic op) l r = .ok v →
    v.kind = Kind.widest l.kind r.kind ∧ ∃ pair, Converted l r pair ∧ op.Gives pair v
  rounds_float : l.isNumeric = true → ∀ x y z, Converted l r (.floats x y) →
    binary (.arithmetic op) l r = .ok (float z) → op.RoundsOnce x y z
  rounds_double : l.isNumeric = true → ∀ x y z, Converted l r (.doubles x y) →
    binary (.arithmetic op) l r = .ok (double z) → op.RoundsOnce x y z
  mismatches : l.isNumeric = true → r.isNumeric = false →
    binary (.arithmetic op) l r =
      .error (.binaryTypeMismatch l.kind.name r.kind.name (.arithmetic op))
  refuses_zero : l.isNumeric = true → r.isZero = true → ∀ fault, op.zeroFault? = some fault →
    binary (.arithmetic op) l r = .error fault
  refuses_overflow : ¬ DividesByZero op r → Overflows op l r →
    binary (.arithmetic op) l r = .error (.integerOverflow op.noun)
  refuses : l.isNumeric = false → ¬ (op = .add ∧ l.kind = .string) →
    binary (.arithmetic op) l r = .error (.invalidBinaryOp l.kind.name (.arithmetic op))

/-- The contract of comparison. -/
structure OrderLaws (l r : Value) : Prop where
  booleans : ∀ a, l.datum = .boolean a →
    l.compare r = r.toBoolean.map fun b => Ord.compare a b
  strings : ∀ a, l.datum = .string a → r.kind ≠ .object →
    ∃ b, r.toText = .ok b ∧ l.compare r = .ok (Ord.compare a b)
  refuses_object : l.kind = .string → r.kind = .object →
    l.compare r = .error (.invalidCoercion "object" "string")
  numbers : l.isNumeric = true → r.isNumeric = true → l.isNaN = false → r.isNaN = false →
    ∃ pair order, Converted l r pair ∧ pair.compare? = some order ∧ l.compare r = .ok order
  refuses : l.isNumeric = true → (r.isNumeric = false ∨ l.isNaN = true ∨ r.isNaN = true) →
    l.compare r = .error (.notComparable l.kind.name r.kind.name)
  objects : l.kind = .object → l.compare r = .error (.notComparable l.kind.name r.kind.name)

/-- The contract of a relation. Only equality and its opposite have an answer about objects, by
    identity, and then always. -/
structure RelationLaws (op : Relation) (l r : Value) : Prop where
  succeeds : (∃ v, binary (.relation op) l r = .ok v) ↔
    ((op = .eq ∨ op = .ne) ∧ (l.kind = .object ∨ r.kind = .object)) ∨
      ∃ order, l.compare r = .ok order
  identifies : l.kind = .object ∨ r.kind = .object →
    binary (.relation .eq) l r = .ok (boolean (l.isSameObject r)) ∧
      binary (.relation .ne) l r = .ok (boolean !(l.isSameObject r))
  compares : ¬ ((op = .eq ∨ op = .ne) ∧ (l.kind = .object ∨ r.kind = .object)) →
    binary (.relation op) l r = (l.compare r).map fun order => boolean (op.holds order)

section Numbers

variable {l r : Value}

theorem exists_numeric {v : Value} (hnumeric : v.isNumeric = true) :
    ∃ number, v.datum.numeric? = some number := by
  obtain ⟨datum, _⟩ := v
  cases datum with
  | integer | float | double => exact ⟨_, rfl⟩
  | boolean | string | object => cases hnumeric

theorem isNumeric_of_numeric? {v : Value} {number : Numeric}
    (hnumber : v.datum.numeric? = some number) : v.isNumeric = true := by
  obtain ⟨datum, _⟩ := v
  cases datum with
  | integer | float | double => rfl
  | boolean | string | object => cases hnumber

theorem kind_ne_object_of_isNumeric {v : Value} (hnumeric : v.isNumeric = true) :
    v.kind ≠ .object := by
  intro hobject
  rw [isNumeric, hobject] at hnumeric
  cases hnumeric

theorem numeric?_eq_none {v : Value} (hother : v.isNumeric = false) : v.datum.numeric? = none := by
  obtain ⟨datum, _⟩ := v
  cases datum with
  | integer | float | double => cases hother
  | boolean | string | object => rfl

theorem isZero_eq {number : Numeric} (hnumber : r.datum.numeric? = some number) :
    r.isZero = number.isZero := by
  rw [isZero, hnumber, Option.any_some]

theorem isNaN_eq {number : Numeric} (hnumber : r.datum.numeric? = some number) :
    r.isNaN = number.isNaN := by
  rw [isNaN, hnumber, Option.any_some]

variable {a b : Numeric}

/-- Promotion converts each number to the wider kind by the coercion to that kind. -/
theorem converted_promote (hleft : l.datum.numeric? = some a) (hright : r.datum.numeric? = some b) :
    Converted l r (a.promote b) := by
  obtain ⟨left, _⟩ := l
  obtain ⟨right, _⟩ := r
  cases left <;> cases hleft <;> cases right <;> cases hright <;> constructor <;> rfl

/-- Two values are converted to the wider of their kinds in one way. -/
theorem Converted.unique {pair other : NumericPair} (hpair : Converted l r pair)
    (hother : Converted l r other) : pair = other := by
  cases hpair with
  | integers hkind hx hy =>
    cases hother with
    | integers _ hx' hy' => rw [Except.ok.inj (hx.symm.trans hx'), Except.ok.inj (hy.symm.trans hy')]
    | floats hkind' | doubles hkind' => cases hkind.symm.trans hkind'
  | floats hkind hx hy =>
    cases hother with
    | floats _ hx' hy' => rw [Except.ok.inj (hx.symm.trans hx'), Except.ok.inj (hy.symm.trans hy')]
    | integers hkind' | doubles hkind' => cases hkind.symm.trans hkind'
  | doubles hkind hx hy =>
    cases hother with
    | doubles _ hx' hy' => rw [Except.ok.inj (hx.symm.trans hx'), Except.ok.inj (hy.symm.trans hy')]
    | integers hkind' | floats hkind' => cases hkind.symm.trans hkind'

theorem overflows_iff (op : Arithmetic) (hleft : l.datum.numeric? = some a)
    (hright : r.datum.numeric? = some b) :
    Overflows op l r ↔
      (a.promote b).BothIntegers fun x y => ¬ Integer.InRange (op.checked x y) := by
  obtain ⟨left, _⟩ := l
  obtain ⟨right, _⟩ := r
  constructor
  · rintro ⟨x, y, rfl, rfl, hoverflow⟩
    cases hleft
    cases hright
    exact hoverflow
  · intro hoverflow
    cases left <;> cases hleft <;> cases right <;> cases hright <;> try cases hoverflow
    exact ⟨_, _, rfl, rfl, hoverflow⟩

variable {op : Arithmetic}

theorem calculate_promote (hleft : l.datum.numeric? = some a)
    (hright : r.datum.numeric? = some b) :
    calculate op l r = (op.onPair (a.promote b)).map Numeric.toValue := by
  rw [calculate, hleft, hright]

theorem not_dividesByZero_iff (hright : r.datum.numeric? = some b) (a : Numeric) :
    ¬ DividesByZero op r ↔
      op.zeroFault? = none ∨ (a.promote b).right.isZero = false := by
  rw [DividesByZero, Numeric.isZero_promote, isZero_eq hright]
  cases op.zeroFault? <;> simp

theorem calculate_ok (hleft : l.datum.numeric? = some a) (hright : r.datum.numeric? = some b)
    (hzero : ¬ DividesByZero op r) (hrange : ¬ Overflows op l r) :
    ∃ v, calculate op l r = .ok v ∧ op.Gives (a.promote b) v := by
  rw [not_dividesByZero_iff hright a] at hzero
  rw [overflows_iff op hleft hright] at hrange
  obtain ⟨number, hnumber, hgives⟩ := Arithmetic.onPair_ok hzero hrange
  rw [calculate_promote hleft hright, hnumber]
  exact ⟨_, rfl, hgives⟩

theorem calculate_of_zero (hleft : l.datum.numeric? = some a) (hright : r.datum.numeric? = some b)
    (hzero : r.isZero = true) {fault : Fault} (hfault : op.zeroFault? = some fault) :
    calculate op l r = .error fault := by
  rw [isZero_eq hright, ← Numeric.isZero_promote a b] at hzero
  rw [calculate_promote hleft hright, Arithmetic.onPair_of_zero hfault hzero]
  rfl

theorem calculate_of_overflow (hzero : ¬ DividesByZero op r) (hoverflow : Overflows op l r) :
    calculate op l r = .error (.integerOverflow op.noun) := by
  obtain ⟨x, y, hx, hy, _⟩ := id hoverflow
  have hleft : l.datum.numeric? = some (.integer x) := by rw [hx, Datum.numeric?]
  have hright : r.datum.numeric? = some (.integer y) := by rw [hy, Datum.numeric?]
  rw [not_dividesByZero_iff hright (.integer x)] at hzero
  rw [overflows_iff op hleft hright] at hoverflow
  rw [calculate_promote hleft hright, Arithmetic.onPair_of_overflow hzero hoverflow]
  rfl

theorem exists_right_of_calculate_ok (hleft : l.datum.numeric? = some a) {v : Value}
    (hok : calculate op l r = .ok v) : ∃ b, r.datum.numeric? = some b := by
  cases hright : r.datum.numeric? with
  | none =>
    rw [calculate, hleft, hright] at hok
    cases hok
  | some b => exact ⟨b, rfl⟩

/-- Where arithmetic succeeds, nothing stood against it, and the result is what the operation gives
    of the promoted numbers. -/
theorem of_calculate_ok (hleft : l.datum.numeric? = some a) (hright : r.datum.numeric? = some b)
    {v : Value} (hok : calculate op l r = .ok v) :
    ¬ DividesByZero op r ∧ ¬ Overflows op l r ∧ op.Gives (a.promote b) v := by
  have hzero : ¬ DividesByZero op r := by
    rintro ⟨hrefuses, hzero⟩
    obtain ⟨fault, hfault⟩ := Option.isSome_iff_exists.mp hrefuses
    rw [calculate_of_zero hleft hright hzero hfault] at hok
    cases hok
  have hrange : ¬ Overflows op l r := by
    intro hoverflow
    rw [calculate_of_overflow hzero hoverflow] at hok
    cases hok
  obtain ⟨result, hresult, hgives⟩ := calculate_ok hleft hright hzero hrange
  obtain rfl : result = v := Except.ok.inj (hresult.symm.trans hok)
  exact ⟨hzero, hrange, hgives⟩

theorem binary_arithmetic (hother : ¬ (op = .add ∧ l.kind = .string)) :
    binary (.arithmetic op) l r = calculate op l r := by
  obtain ⟨left, _⟩ := l
  cases op with
  | add =>
    cases left with
    | string => exact absurd ⟨rfl, rfl⟩ hother
    | boolean | integer | float | double | object => rfl
  | sub | mul | div | mod => rfl

theorem binary_of_numeric (hleft : l.datum.numeric? = some a) :
    binary (.arithmetic op) l r = calculate op l r := by
  refine binary_arithmetic ?_
  rintro ⟨_, hstring⟩
  have hnumeric := isNumeric_of_numeric? hleft
  rw [isNumeric, hstring] at hnumeric
  cases hnumeric

theorem kind_of_gives {pair : NumericPair} {v : Value} (hpair : Converted l r pair)
    (hgives : op.Gives pair v) : v.kind = Kind.widest l.kind r.kind := by
  cases hpair with
  | integers hkind | floats hkind | doubles hkind =>
    rw [hkind]
    cases hgives
    rfl

/-- A result is what the operation gives of the converted operands, of which the right one is no
    zero divisor. -/
theorem gives_of_converted (hnumeric : l.isNumeric = true) {pair : NumericPair}
    (hpair : Converted l r pair) {v : Value} (hok : binary (.arithmetic op) l r = .ok v) :
    op.Gives pair v ∧ (op.zeroFault? = none ∨ pair.right.isZero = false) := by
  obtain ⟨a, ha⟩ := exists_numeric hnumeric
  rw [binary_of_numeric ha] at hok
  obtain ⟨b, hb⟩ := exists_right_of_calculate_ok ha hok
  obtain ⟨hzero, _, hgives⟩ := of_calculate_ok ha hb hok
  obtain rfl := hpair.unique (converted_promote ha hb)
  exact ⟨hgives, (not_dividesByZero_iff hb a).mp hzero⟩

end Numbers

theorem arithmeticLaws (op : Arithmetic) (l r : Value) : ArithmeticLaws op l r where
  succeeds hnumeric := by
    obtain ⟨a, ha⟩ := exists_numeric hnumeric
    rw [binary_of_numeric ha]
    constructor
    · rintro ⟨v, hok⟩
      obtain ⟨b, hb⟩ := exists_right_of_calculate_ok ha hok
      obtain ⟨hzero, hrange, _⟩ := of_calculate_ok ha hb hok
      exact ⟨isNumeric_of_numeric? hb, hzero, hrange⟩
    · rintro ⟨hright, hzero, hrange⟩
      obtain ⟨b, hb⟩ := exists_numeric hright
      obtain ⟨v, hok, _⟩ := calculate_ok ha hb hzero hrange
      exact ⟨v, hok⟩
  computes hnumeric v hok := by
    obtain ⟨a, ha⟩ := exists_numeric hnumeric
    rw [binary_of_numeric ha] at hok
    obtain ⟨b, hb⟩ := exists_right_of_calculate_ok ha hok
    obtain ⟨_, _, hgives⟩ := of_calculate_ok ha hb hok
    have hpair := converted_promote ha hb
    exact ⟨kind_of_gives hpair hgives, a.promote b, hpair, hgives⟩
  rounds_float hnumeric x y z hpair hok := by
    obtain ⟨⟨⟩, hzero⟩ := gives_of_converted hnumeric hpair hok
    exact Arithmetic.roundsOnce_rounded Binary.Format.regular_single hzero
  rounds_double hnumeric x y z hpair hok := by
    obtain ⟨⟨⟩, hzero⟩ := gives_of_converted hnumeric hpair hok
    exact Arithmetic.roundsOnce_rounded Binary.Format.regular_double hzero
  mismatches hnumeric hright := by
    obtain ⟨a, ha⟩ := exists_numeric hnumeric
    rw [binary_of_numeric ha, calculate, ha, numeric?_eq_none hright]
  refuses_zero hnumeric hzero fault hfault := by
    obtain ⟨a, ha⟩ := exists_numeric hnumeric
    obtain ⟨b, hb, _⟩ := (Option.any_eq_true _ _).mp hzero
    rw [binary_of_numeric ha]
    exact calculate_of_zero ha hb hzero hfault
  refuses_overflow hzero hoverflow := by
    obtain ⟨x, _, hx, _⟩ := id hoverflow
    have ha : l.datum.numeric? = some (.integer x) := by rw [hx, Datum.numeric?]
    rw [binary_of_numeric ha]
    exact calculate_of_overflow hzero hoverflow
  refuses hnumeric hother := by
    rw [binary_arithmetic hother, calculate, numeric?_eq_none hnumeric]

theorem toBoolean_eq_ok_iff (v : Value) (b : Bool) : v.toBoolean = .ok b ↔ CountsAs v b := by
  obtain ⟨datum, _⟩ := v
  constructor
  · intro hok
    cases datum with
    | boolean => exact .boolean (congrArg Datum.boolean (Except.ok.inj hok))
    | integer n =>
      change (if n = 0 then .ok false else if n = 1 then .ok true else _) = Except.ok b at hok
      split at hok
      · rename_i hzero
        obtain rfl : false = b := Except.ok.inj hok
        exact .integer (congrArg Datum.integer hzero)
      · split at hok
        · rename_i hone
          obtain rfl : true = b := Except.ok.inj hok
          exact .integer (congrArg Datum.integer hone)
        · cases hok
    | string s =>
      change (if s = "true" then .ok true else if s = "false" then .ok false else _) =
        Except.ok b at hok
      split at hok
      · rename_i htrue
        obtain rfl : true = b := Except.ok.inj hok
        exact .string (congrArg Datum.string htrue)
      · split at hok
        · rename_i hfalse
          obtain rfl : false = b := Except.ok.inj hok
          exact .string (congrArg Datum.string hfalse)
        · cases hok
    | float | double | object => cases hok
  · rintro (⟨⟨⟩⟩ | ⟨⟨⟩⟩ | ⟨⟨⟩⟩)
    · rfl
    · cases b <;> rfl
    · cases b <;> rfl

theorem connectiveLaws (op : Connective) (l r : Value) : ConnectiveLaws op l r := by
  obtain ⟨left, _⟩ := l
  cases left with
  | boolean a =>
    refine ⟨fun v => ?_, fun _ fault hfault => ?_, fun hother => absurd rfl hother⟩
    · rw [binary, connect]
      cases hright : r.toBoolean with
      | error fault => exact ⟨nofun, fun ⟨_, _, _, hb, _⟩ => nomatch hb⟩
      | ok b =>
        constructor
        · rintro ⟨⟩
          cases op <;> exact ⟨a, b, rfl, rfl, rfl⟩
        · rintro ⟨_, _, ⟨⟩, ⟨⟩, rfl⟩
          cases op <;> rfl
    · rw [binary, connect, hfault]
      rfl
  | integer | float | double | string | object =>
    exact ⟨fun v => ⟨nofun, fun ⟨_, _, hleft, _⟩ => nomatch hleft⟩, nofun, fun _ => rfl⟩

theorem toText_eq {v : Value} (hkind : v.kind ≠ .object) : v.toText = .ok v.text := by
  obtain ⟨datum, _⟩ := v
  cases datum with
  | object => exact absurd rfl hkind
  | boolean | integer | float | double | string => rfl

theorem toText_of_object {v : Value} (hkind : v.kind = .object) :
    v.toText = .error (.invalidCoercion "object" "string") := by
  obtain ⟨datum, _⟩ := v
  cases datum with
  | object => rfl
  | boolean | integer | float | double | string => cases hkind

theorem datum_of_string {v : Value} (hkind : v.kind = .string) : ∃ a, v.datum = .string a := by
  obtain ⟨datum, _⟩ := v
  cases datum with
  | string a => exact ⟨a, rfl⟩
  | boolean | integer | float | double | object => cases hkind

theorem concatenationLaws (l r : Value) : ConcatenationLaws l r where
  appends a hleft hright := by
    rw [binary, add, hleft, toText_eq hright]
    exact ⟨_, rfl, rfl⟩
  refuses_object hleft hright := by
    obtain ⟨a, ha⟩ := datum_of_string hleft
    rw [binary, add, ha, toText_of_object hright]
    rfl

section Order

variable {l r : Value} {a : Numeric}

theorem compare_number (hleft : l.datum.numeric? = some a) {b : Numeric}
    (hright : r.datum.numeric? = some b) :
    l.compare r = match (a.promote b).compare? with
      | some order => .ok order
      | none => .error (.notComparable l.kind.name r.kind.name) := by
  obtain ⟨left, _⟩ := l
  cases left with
  | boolean | string | object => cases hleft
  | integer | float | double =>
    rw [compare, hleft, hright]
    rfl

theorem compare_number_eq_ok_iff (hleft : l.datum.numeric? = some a) {b : Numeric}
    (hright : r.datum.numeric? = some b) {order : Ordering} :
    l.compare r = .ok order ↔ (a.promote b).compare? = some order := by
  rw [compare_number hleft hright]
  cases (a.promote b).compare? <;> simp

theorem compare_other (hleft : l.datum.numeric? = some a) (hright : r.datum.numeric? = none) :
    l.compare r = .error (.notComparable l.kind.name r.kind.name) := by
  obtain ⟨left, _⟩ := l
  cases left with
  | boolean | string | object => cases hleft
  | integer | float | double =>
    rw [compare, hleft, hright]
    rfl

end Order

theorem orderLaws (l r : Value) : OrderLaws l r where
  booleans a hleft := by rw [compare, hleft]
  strings a hleft hright := by
    rw [compare, hleft, toText_eq hright]
    exact ⟨_, rfl, rfl⟩
  refuses_object hleft hright := by
    obtain ⟨a, ha⟩ := datum_of_string hleft
    rw [compare, ha, toText_of_object hright]
    rfl
  numbers hleft hright hl hr := by
    obtain ⟨a, ha⟩ := exists_numeric hleft
    obtain ⟨b, hb⟩ := exists_numeric hright
    have hsome : (a.promote b).compare?.isSome = true := by
      rw [Numeric.compare?_promote, ← isNaN_eq ha, ← isNaN_eq hb, hl, hr]
      rfl
    obtain ⟨order, horder⟩ := Option.isSome_iff_exists.mp hsome
    refine ⟨a.promote b, order, converted_promote ha hb, horder, ?_⟩
    rw [compare_number ha hb, horder]
  refuses hleft hrefused := by
    obtain ⟨a, ha⟩ := exists_numeric hleft
    cases hb : r.datum.numeric? with
    | none => exact compare_other ha hb
    | some b =>
      have hnone : (a.promote b).compare? = none := by
        have hnan : l.isNaN = true ∨ r.isNaN = true :=
          hrefused.resolve_left (by rw [isNumeric_of_numeric? hb]; nofun)
        rw [← Option.not_isSome_iff_eq_none, Numeric.compare?_promote, ← isNaN_eq ha, ← isNaN_eq hb]
        obtain hnan | hnan := hnan <;> rw [hnan] <;> simp
      rw [compare_number ha hb, hnone]
  objects hleft := by
    obtain ⟨left, _⟩ := l
    cases left with
    | object => rfl
    | boolean | integer | float | double | string => cases hleft

theorem isEqualTo_object {l r : Value} (hobject : l.kind = .object ∨ r.kind = .object) :
    l.isEqualTo r = .ok (l.isSameObject r) := by
  obtain ⟨left, _⟩ := l
  obtain ⟨right, _⟩ := r
  cases left with
  | object => cases right <;> rfl
  | boolean | integer | float | double | string =>
    have hright : right.kind = .object := hobject.resolve_left nofun
    cases right with
    | object => rfl
    | boolean | integer | float | double | string => cases hright

theorem isEqualTo_other {l r : Value} (hother : ¬ (l.kind = .object ∨ r.kind = .object)) :
    l.isEqualTo r = (l.compare r).map Ordering.isEq := by
  obtain ⟨left, _⟩ := l
  obtain ⟨right, _⟩ := r
  cases left with
  | object => exact absurd (.inl rfl) hother
  | boolean | integer | float | double | string =>
    cases right with
    | object => exact absurd (.inr rfl) hother
    | boolean | integer | float | double | string => rfl

/-- Where neither value is an object, equality asks whether comparison finds them level. -/
theorem isEqualTo_iff_compare {l r : Value} (hother : ¬ (l.kind = .object ∨ r.kind = .object)) :
    l.isEqualTo r = .ok true ↔ l.compare r = .ok .eq := by
  rw [isEqualTo_other hother]
  cases l.compare r with
  | error => exact ⟨nofun, nofun⟩
  | ok order =>
    cases order with
    | eq => exact ⟨fun _ => rfl, fun _ => rfl⟩
    | lt | gt => exact ⟨nofun, nofun⟩

/-- Where a relation does not ask about an object by identity, it asks how the values compare. -/
theorem relate_eq_compare {op : Relation} {l r : Value}
    (hother : (op = .eq ∨ op = .ne) → ¬ (l.kind = .object ∨ r.kind = .object)) :
    binary (.relation op) l r = (l.compare r).map fun order => boolean (op.holds order) := by
  cases op with
  | lt | le | gt | ge => rfl
  | eq =>
    rw [binary, relate, isEqualTo_other (hother (.inl rfl))]
    cases l.compare r <;> rfl
  | ne =>
    rw [binary, relate, isEqualTo_other (hother (.inr rfl))]
    cases l.compare r with
    | error => rfl
    | ok order => cases order <;> rfl

theorem relationLaws (op : Relation) (l r : Value) : RelationLaws op l r where
  succeeds := by
    by_cases hidentity : (op = .eq ∨ op = .ne) ∧ (l.kind = .object ∨ r.kind = .object)
    · refine ⟨fun _ => .inl hidentity, fun _ => ?_⟩
      obtain ⟨hop, hobject⟩ := hidentity
      obtain rfl | rfl := hop <;> rw [binary, relate, isEqualTo_object hobject] <;> exact ⟨_, rfl⟩
    · rw [relate_eq_compare fun hop hobject => hidentity ⟨hop, hobject⟩, or_iff_right hidentity]
      cases l.compare r with
      | error => exact ⟨nofun, nofun⟩
      | ok order => exact ⟨fun _ => ⟨order, rfl⟩, fun _ => ⟨_, rfl⟩⟩
  identifies hobject := by
    rw [binary, binary, relate, relate, isEqualTo_object hobject]
    exact ⟨rfl, rfl⟩
  compares hother := relate_eq_compare fun hop hobject => hother ⟨hop, hobject⟩

/-- The contract of every operator between two operands, for any two values. -/
theorem binary_lawful (l r : Value) :
    (∀ op, ConnectiveLaws op l r) ∧ ConcatenationLaws l r ∧ (∀ op, ArithmeticLaws op l r) ∧
      (∀ op, RelationLaws op l r) ∧ OrderLaws l r ∧ ∀ b, r.toBoolean = .ok b ↔ CountsAs r b :=
  ⟨fun op => connectiveLaws op l r, concatenationLaws l r, fun op => arithmeticLaws op l r,
    fun op => relationLaws op l r, orderLaws l r, fun b => toBoolean_eq_ok_iff r b⟩

-- The remainder of the least integer by minus one would be zero, but its quotient is out of range.
example : binary (.arithmetic .mod) (integer Int64.minValue) (integer (-1)) =
    .error (.integerOverflow "remainder") := rfl

end Value

end InterpreterCore

import InterpreterCore.Proofs.Binary.Quotient
import InterpreterCore.Proofs.Binary.Refinement
import InterpreterCore.Proofs.Value.Contract

namespace InterpreterCore

open Binary

/-- The faults of operands that an operator does not go with. -/
inductive Fault.OfOperands : Fault → Prop where
  | invalidCast (value target : String) : OfOperands (.invalidCast value target)
  | invalidCoercion (kind target : String) : OfOperands (.invalidCoercion kind target)
  | invalidBinaryOp (kind : String) (op : BinaryOp) : OfOperands (.invalidBinaryOp kind op)
  | binaryTypeMismatch (left right : String) (op : BinaryOp) :
      OfOperands (.binaryTypeMismatch left right op)
  | notComparable (left right : String) : OfOperands (.notComparable left right)

namespace Arithmetic

variable {op other : Arithmetic} {fault : Fault}

theorem not_ofOperands (hfault : op.zeroFault? = some fault) : ¬ fault.OfOperands := by
  rintro ⟨⟩ <;> cases op <;> cases hfault

theorem ne_integerOverflow (hfault : op.zeroFault? = some fault) (operation : String) :
    fault ≠ .integerOverflow operation := by
  rintro rfl
  cases op <;> cases hfault

/-- The two operations that refuse zero name it differently. -/
theorem zeroFault?_inj (hop : op.zeroFault? = some fault) (hother : other.zeroFault? = some fault) :
    op = other := by
  cases op <;> cases hop <;> cases other <;> cases hother <;> rfl

end Arithmetic

theorem Binary.isZero_iff {format : Format} {x : Binary format} :
    x.isZero = true ↔ ∃ negative, x = zero format negative := by
  constructor
  · intro hzero
    obtain ⟨negative, magnitude, hlt⟩ := x
    obtain rfl : magnitude = 0 := beq_iff_eq.mp hzero
    exact ⟨negative, by simp only [zero, saturating, Nat.zero_min]⟩
  · rintro ⟨negative, rfl⟩
    exact beq_iff_eq.mpr (Nat.zero_min _)

namespace Value

/-- The values that are zero in their own kind. A floating zero may have either sign. -/
inductive HoldsZero (v : Value) : Prop where
  | integer (hdatum : v.datum = .integer 0)
  | float (negative : Bool) (hdatum : v.datum = .float (zero .single negative))
  | double (negative : Bool) (hdatum : v.datum = .double (zero .double negative))

theorem isZero_iff {v : Value} : v.isZero = true ↔ v.HoldsZero := by
  obtain ⟨datum, _⟩ := v
  constructor
  · intro hzero
    cases datum with
    | integer n => exact .integer (congrArg Datum.integer (beq_iff_eq.mp hzero))
    | float x =>
      obtain ⟨negative, rfl⟩ := Binary.isZero_iff.mp hzero
      exact .float negative rfl
    | double x =>
      obtain ⟨negative, rfl⟩ := Binary.isZero_iff.mp hzero
      exact .double negative rfl
    | boolean | string | object => cases hzero
  · rintro (⟨⟨⟩⟩ | ⟨negative, ⟨⟩⟩ | ⟨negative, ⟨⟩⟩)
    · rfl
    · exact Binary.isZero_iff.mpr ⟨negative, rfl⟩
    · exact Binary.isZero_iff.mpr ⟨negative, rfl⟩

section Faults

variable {l r : Value} {fault : Fault}

theorem toBoolean_error {v : Value} (herror : v.toBoolean = .error fault) : fault.OfOperands := by
  obtain ⟨datum, _⟩ := v
  cases datum with
  | boolean => cases herror
  | integer n =>
    change (if n = 0 then .ok false else if n = 1 then .ok true else .error _) =
      Except.error fault at herror
    split at herror
    · cases herror
    · split at herror <;> cases herror
      constructor
  | string s =>
    change (if s = "true" then .ok true else if s = "false" then .ok false else .error _) =
      Except.error fault at herror
    split at herror
    · cases herror
    · split at herror <;> cases herror
      constructor
  | float | double | object =>
    cases herror
    constructor

theorem toText_error {v : Value} (herror : v.toText = .error fault) : fault.OfOperands := by
  obtain ⟨datum, _⟩ := v
  cases datum <;> cases herror
  constructor

theorem error_of_map {α β : Type} {f : α → β} {outcome : Outcome α}
    (herror : outcome.map f = .error fault) : outcome = .error fault := by
  cases outcome <;> cases herror
  rfl

theorem compare_error (herror : l.compare r = .error fault) : fault.OfOperands := by
  cases hleft : l.datum.numeric? with
  | some a =>
    cases hright : r.datum.numeric? with
    | none =>
      rw [compare_other hleft hright] at herror
      cases herror
      constructor
    | some b =>
      rw [compare_number hleft hright] at herror
      split at herror <;> cases herror
      constructor
  | none =>
    obtain ⟨left, _⟩ := l
    cases left with
    | boolean => exact toBoolean_error (error_of_map herror)
    | string => exact toText_error (error_of_map herror)
    | object =>
      cases herror
      constructor
    | integer | float | double => cases hleft

theorem connect_error {op : Connective} (herror : binary (.connective op) l r = .error fault) :
    fault.OfOperands := by
  obtain ⟨left, _⟩ := l
  cases left with
  | boolean => exact toBoolean_error (error_of_map herror)
  | integer | float | double | string | object =>
    cases herror
    constructor

theorem relate_error {op : Relation} (herror : binary (.relation op) l r = .error fault) :
    fault.OfOperands := by
  by_cases hidentity : (op = .eq ∨ op = .ne) ∧ (l.kind = .object ∨ r.kind = .object)
  · obtain ⟨v, hok⟩ := (relationLaws op l r).succeeds.mpr (.inl hidentity)
    rw [hok] at herror
    cases herror
  · rw [(relationLaws op l r).compares hidentity] at herror
    exact compare_error (error_of_map herror)

variable {op : Arithmetic}

/-- Arithmetic fails on its operands, on an overflow, or on a zero divisor. -/
theorem arithmetic_error (herror : binary (.arithmetic op) l r = .error fault) :
    fault.OfOperands ∨ fault = .integerOverflow op.noun ∨
      op.zeroFault? = some fault ∧ l.isNumeric = true ∧ r.isZero = true := by
  by_cases hstring : op = .add ∧ l.kind = .string
  · obtain ⟨rfl, hkind⟩ := hstring
    obtain ⟨s, hs⟩ := datum_of_string hkind
    rw [binary, add, hs] at herror
    exact .inl (toText_error (error_of_map herror))
  rw [binary_arithmetic hstring] at herror
  cases hleft : l.datum.numeric? with
  | none =>
    rw [calculate, hleft] at herror
    cases herror
    exact .inl (.invalidBinaryOp _ _)
  | some a =>
    cases hright : r.datum.numeric? with
    | none =>
      rw [calculate, hleft, hright] at herror
      cases herror
      exact .inl (.binaryTypeMismatch _ _ _)
    | some b =>
      by_cases hzero : DividesByZero op r
      · obtain ⟨zeroFault, hfault⟩ := Option.isSome_iff_exists.mp hzero.1
        rw [calculate_of_zero hleft hright hzero.2 hfault] at herror
        cases herror
        exact .inr (.inr ⟨hfault, isNumeric_of_numeric? hleft, hzero.2⟩)
      by_cases hoverflow : Overflows op l r
      · rw [calculate_of_overflow hzero hoverflow] at herror
        cases herror
        exact .inr (.inl rfl)
      · obtain ⟨v, hok, _⟩ := calculate_ok hleft hright hzero hoverflow
        rw [hok] at herror
        cases herror

/-- The fault of a zero divisor is given by its operation alone, and there exactly for a zero on the
    right of a number. -/
theorem binary_eq_zeroFault_iff (hfault : op.zeroFault? = some fault) (operator : BinaryOp) :
    binary operator l r = .error fault ↔
      operator = .arithmetic op ∧ l.isNumeric = true ∧ r.HoldsZero := by
  constructor
  · intro herror
    have hother := Arithmetic.not_ofOperands hfault
    cases operator with
    | connective => exact absurd (connect_error herror) hother
    | relation => exact absurd (relate_error herror) hother
    | arithmetic other =>
      obtain hoperands | hoverflow | ⟨hzeroFault, hnumeric, hzero⟩ := arithmetic_error herror
      · exact absurd hoperands hother
      · exact absurd hoverflow (Arithmetic.ne_integerOverflow hfault _)
      · rw [Arithmetic.zeroFault?_inj hzeroFault hfault]
        exact ⟨rfl, hnumeric, isZero_iff.mp hzero⟩
  · rintro ⟨rfl, hnumeric, hzero⟩
    exact (arithmeticLaws op l r).refuses_zero hnumeric (isZero_iff.mpr hzero) fault hfault

end Faults

/-- Exactly the zeros are refused as divisors: they are refused whatever number is divided by them
    and whatever kind the two are promoted to, nothing else is refused with their faults, and
    operands that are no numbers are refused before it matters whether one of them is zero. -/
theorem zero_divisors_refused (l r : Value) :
    (∀ op, binary op l r = .error .divisionByZero ↔
      op = .arithmetic .div ∧ l.isNumeric = true ∧ r.HoldsZero) ∧
    (∀ op, binary op l r = .error .moduloByZero ↔
      op = .arithmetic .mod ∧ l.isNumeric = true ∧ r.HoldsZero) ∧
    (∀ (a b : Numeric), r.datum.numeric? = some b →
      ((a.promote b).right.isZero = true ↔ r.HoldsZero)) ∧
    ∀ op, op = .div ∨ op = .mod →
      (l.isNumeric = false →
        binary (.arithmetic op) l r = .error (.invalidBinaryOp l.kind.name (.arithmetic op))) ∧
      (l.isNumeric = true → r.isNumeric = false →
        binary (.arithmetic op) l r =
          .error (.binaryTypeMismatch l.kind.name r.kind.name (.arithmetic op))) := by
  refine ⟨binary_eq_zeroFault_iff rfl, binary_eq_zeroFault_iff rfl, fun a b hright => ?_,
    fun op hop => ⟨fun hleft => ?_, (arithmeticLaws op l r).mismatches⟩⟩
  · rw [Numeric.isZero_promote, ← isZero_eq hright]
    exact isZero_iff
  · refine (arithmeticLaws op l r).refuses hleft ?_
    rintro ⟨rfl, _⟩
    cases hop <;> contradiction

end Value

namespace Numeric

/-- Whether a number is neither infinite nor without a numeric value. -/
def isFinite : Numeric → Bool
  | integer _ => true
  | float x => x.isFinite
  | double x => x.isFinite

end Numeric

namespace NumericPair

/-- Whether both numbers are finite. -/
def isFinite : NumericPair → Bool
  | integers _ _ => true
  | floats x y => x.isFinite && y.isFinite
  | doubles x y => x.isFinite && y.isFinite

/-- Whether the exact quotient of two finite numbers is too large for the kind that they share. That
    of two integers never becomes infinite. -/
def QuotientOverflows : NumericPair → Prop
  | integers _ _ => False
  | floats x y => Format.single.overflowBound ≤ |x.number / y.number|
  | doubles x y => Format.double.overflowBound ≤ |x.number / y.number|

end NumericPair

namespace Numeric

theorem isFinite_toSingle {a : Numeric} (hnarrow : ∀ x, a ≠ .double x) :
    a.toSingle.isFinite = a.isFinite := by
  cases a with
  | integer n => exact (ofInt_rounds Format.regular_single (by decide) n).1
  | float x => rfl
  | double x => exact absurd rfl (hnarrow x)

theorem isFinite_toDouble (a : Numeric) : a.toDouble.isFinite = a.isFinite := by
  cases a with
  | integer n => exact (ofInt_rounds Format.regular_double (by decide) n).1
  | float x => exact isFinite_convert_double x
  | double x => rfl

/-- Promotion makes no number infinite. -/
theorem isFinite_promote (a b : Numeric) :
    (a.promote b).isFinite = (a.isFinite && b.isFinite) := by
  obtain ⟨x, y, rfl, rfl, hpair⟩ | hpair | ⟨ha, hb, hpair⟩ := promote_cases a b
  · rw [hpair]
    rfl
  · rw [hpair, NumericPair.isFinite, isFinite_toDouble, isFinite_toDouble]
  · rw [hpair, NumericPair.isFinite, isFinite_toSingle ha, isFinite_toSingle hb]

end Numeric

namespace Value

/-- Whether a value is a finite number. -/
def isFinite (v : Value) : Bool := v.datum.numeric?.any Numeric.isFinite

section Finite

variable {pair : NumericPair} {v : Value} (hfinite : pair.isFinite = true)
  (hzero : pair.right.isZero = false)
include hfinite hzero

theorem quotient_of_gives (hgives : Arithmetic.div.Gives pair v) :
    v.isNumeric = true ∧ v.isNaN = false ∧ (v.isFinite = false ↔ pair.QuotientOverflows) := by
  cases hgives with
  | integer => exact ⟨rfl, rfl, nofun, nofun⟩
  | float =>
    obtain ⟨hx, hy⟩ := (Bool.and_eq_true _ _).mp hfinite
    exact ⟨rfl, isNaN_div hx hy hzero, isFinite_div_eq_false_iff hx hy hzero Format.regular_single⟩
  | double =>
    obtain ⟨hx, hy⟩ := (Bool.and_eq_true _ _).mp hfinite
    exact ⟨rfl, isNaN_div hx hy hzero, isFinite_div_eq_false_iff hx hy hzero Format.regular_double⟩

theorem remainder_of_gives (hgives : Arithmetic.mod.Gives pair v) : v.isFinite = true := by
  cases hgives with
  | integer => rfl
  | float =>
    obtain ⟨hx, hy⟩ := (Bool.and_eq_true _ _).mp hfinite
    exact isFinite_rem hx hy hzero Format.regular_single
  | double =>
    obtain ⟨hx, hy⟩ := (Bool.and_eq_true _ _).mp hfinite
    exact isFinite_rem hx hy hzero Format.regular_double

end Finite

/-- A remainder of finite numbers is finite. A quotient of finite numbers is a number, too, but it is
    infinite where the exact quotient overflows the wider of their kinds, and only there. -/
theorem quotient_finite_or_overflows {l r : Value} {a b : Numeric}
    (hleft : l.datum.numeric? = some a) (hright : r.datum.numeric? = some b)
    (ha : a.isFinite = true) (hb : b.isFinite = true) :
    (∀ v, binary (.arithmetic .div) l r = .ok v →
      v.isNumeric = true ∧ v.isNaN = false ∧
        (v.isFinite = false ↔ (a.promote b).QuotientOverflows)) ∧
    ∀ v, binary (.arithmetic .mod) l r = .ok v → v.isFinite = true := by
  have hfinite : (a.promote b).isFinite = true := by
    rw [Numeric.isFinite_promote, ha, hb]
    rfl
  have hnumeric := isNumeric_of_numeric? hleft
  have hpair := converted_promote hleft hright
  constructor
  · intro v hok
    obtain ⟨hgives, hzero⟩ := gives_of_converted hnumeric hpair hok
    exact quotient_of_gives hfinite (hzero.resolve_left nofun) hgives
  · intro v hok
    obtain ⟨hgives, hzero⟩ := gives_of_converted hnumeric hpair hok
    exact remainder_of_gives hfinite (hzero.resolve_left nofun) hgives

theorem quotient_of_one_by_least :
    (integer 1).datum.numeric? = some (.integer 1) ∧
      (double (ofBits .double 1)).datum.numeric? = some (.double (ofBits .double 1)) ∧
      binary (.arithmetic .div) (integer 1) (double (ofBits .double 1)) =
        .ok (double (infinite .double false)) ∧
      ((Numeric.integer 1).promote (.double (ofBits .double 1))).QuotientOverflows := by
  have hok : binary (.arithmetic .div) (integer 1) (double (ofBits .double 1)) =
      .ok (double (infinite .double false)) := by decide +kernel
  exact ⟨rfl, rfl, hok, ((quotient_finite_or_overflows rfl rfl rfl (by decide)).1 _ hok).2.2.mp
    (by decide)⟩

/-- A nonzero divisor does not keep a quotient finite: one by the least positive double is infinite,
    and one by the least positive float is. -/
theorem infinite_quotient_of_finite :
    (double (ofBits .double 0x3FF0000000000000)).isFinite = true ∧
      (double (ofBits .double 1)).isFinite = true ∧
      binary (.arithmetic .div) (double (ofBits .double 0x3FF0000000000000))
        (double (ofBits .double 1)) = .ok (double (infinite .double false)) ∧
      (double (infinite .double false)).isFinite = false ∧
      (integer 1).isFinite = true ∧ (float (ofBits .single 1)).isFinite = true ∧
      binary (.arithmetic .div) (integer 1) (float (ofBits .single 1)) =
        .ok (float (infinite .single false)) ∧
      (float (infinite .single false)).isFinite = false := by
  decide +kernel

end Value

end InterpreterCore

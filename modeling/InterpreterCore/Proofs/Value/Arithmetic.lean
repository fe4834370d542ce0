import InterpreterCore.Proofs.Binary.Operations
import InterpreterCore.Value.Operators

namespace InterpreterCore

/-- The place of a numeric kind from narrow to wide. -/
def Kind.width : Kind → Nat
  | double => 2
  | float => 1
  | integer | boolean | string | object => 0

/-- The wider of two kinds. -/
def Kind.widest (a b : Kind) : Kind := if a.width < b.width then b else a

theorem Kind.width_le_widest_left (a b : Kind) : a.width ≤ (a.widest b).width := by
  cases a <;> cases b <;> decide

theorem Kind.width_le_widest_right (a b : Kind) : b.width ≤ (a.widest b).width := by
  cases a <;> cases b <;> decide

/-- Whether a whole number is an integer of the interpreted language. -/
def Integer.InRange (n : Int) : Prop :=
  -9223372036854775808 ≤ n ∧ n < 9223372036854775808

theorem Integer.ofInt?_of_inRange {n : Int} (hrange : InRange n) :
    ∃ k : Int64, ofInt? n = some k ∧ k.toInt = n :=
  ⟨Int64.ofInt n, if_pos hrange, Int64.toInt_ofInt_of_le hrange.1 hrange.2⟩

theorem Integer.ofInt?_eq_none {n : Int} (hrange : ¬ InRange n) : ofInt? n = none := if_neg hrange

namespace Numeric

def isZero : Numeric → Bool
  | integer n => n == 0
  | float x => x.isZero
  | double x => x.isZero

def isNaN : Numeric → Bool
  | integer _ => false
  | float x => x.isNaN
  | double x => x.isNaN

end Numeric

namespace NumericPair

/-- The right one of two numbers. -/
def right : NumericPair → Numeric
  | integers _ y => .integer y
  | floats _ y => .float y
  | doubles _ y => .double y

/-- Whether two numbers of one kind are integers that stand in a relation. -/
def BothIntegers (related : Int → Int → Prop) : NumericPair → Prop
  | integers x y => related x.toInt y.toInt
  | floats _ _ | doubles _ _ => False

end NumericPair

namespace Arithmetic

/-- The fault of the operations that have no result for a zero on the right. -/
def zeroFault? : Arithmetic → Option Fault
  | div => some .divisionByZero
  | mod => some .moduloByZero
  | add | sub | mul => none

/-- What an operation is called where it overflows. -/
def noun : Arithmetic → String
  | add => "addition"
  | sub => "subtraction"
  | mul => "multiplication"
  | div => "division"
  | mod => "remainder"

/-- The operation on whole numbers. A quotient is cut toward zero, and a remainder has the sign of
    the dividend. -/
def exact : Arithmetic → Int → Int → Int
  | add => fun x y => x + y
  | sub => fun x y => x - y
  | mul => fun x y => x * y
  | div => Int.tdiv
  | mod => Int.tmod

/-- The whole number that has to be in range: the result itself, and for a remainder the quotient
    that goes with it. -/
def checked : Arithmetic → Int → Int → Int
  | mod => exact .div
  | op => exact op

/-- The operation on values of a binary format. -/
def rounded {format : Binary.Format} : Arithmetic → Binary format → Binary format → Binary format
  | add => Binary.add
  | sub => Binary.sub
  | mul => Binary.mul
  | div => Binary.div
  | mod => Binary.rem

/-- What an operation gives of two numbers of one kind, as a value of that kind. -/
inductive Gives (op : Arithmetic) : NumericPair → Value → Prop where
  | integer {x y n : Int64} (hexact : n.toInt = op.exact x.toInt y.toInt) :
      Gives op (.integers x y) (.integer n)
  | float {x y : Single} : Gives op (.floats x y) (.float (op.rounded x y))
  | double {x y : Double} : Gives op (.doubles x y) (.double (op.rounded x y))

section Rounding

open Binary

variable {format : Binary.Format}

/-- The operation on exact numbers. A remainder is what is left of the dividend when the divisor is
    taken out of it a whole number of times, counted toward zero. -/
def onNumbers : Arithmetic → ℚ → ℚ → ℚ
  | add => fun a b => a + b
  | sub => fun a b => a - b
  | mul => fun a b => a * b
  | div => fun a b => a / b
  | mod => fun a b => a - b * wholePart (a / b)

/-- The sign of what an operation gives of two finite values. -/
def negative : Arithmetic → Binary format → Binary format → Bool
  | add, x, y => sumNegative x y
  | sub, x, y => sumNegative x y.neg
  | mul, x, y | div, x, y => x.negative != y.negative
  | mod, x, _ => x.negative

/-- Whether an operation has no number for two numbers of which one is infinite. -/
def undefined : Arithmetic → Binary format → Binary format → Bool
  | add, x, y => x.isInfinite && y.isInfinite && x.negative != y.negative
  | sub, x, y => x.isInfinite && y.isInfinite && x.negative == y.negative
  | mul, x, y => x.isZero || y.isZero
  | div, x, y => x.isInfinite && y.isInfinite
  | mod, x, _ => x.isInfinite

/-- What an operation gives of two numbers of which one is infinite, where it gives a number. -/
def atInfinity : Arithmetic → Binary format → Binary format → Binary format
  | add, x, y => if x.isInfinite then x else y
  | sub, x, y => if x.isInfinite then x else y.neg
  | mul, x, y => infinite format (x.negative != y.negative)
  | div, x, y =>
    if x.isInfinite then infinite format (x.negative != y.negative)
    else zero format (x.negative != y.negative)
  | mod, x, _ => x

/-- A value is the result of an operation on two values of its format: of finite values, it is the
    exact result, rounded once, and of others what the operation has for them. No other value is. -/
structure RoundsOnce (op : Arithmetic) (x y z : Binary format) : Prop where
  finite : x.isFinite = true → y.isFinite = true →
    IsRounded (op.negative x y) (op.onNumbers x.number y.number) z
  infinite : (x.isNaN || y.isNaN) = false → (x.isInfinite || y.isInfinite) = true →
    z = if op.undefined x y then notANumber format else op.atInfinity x y
  unknown : (x.isNaN || y.isNaN) = true → z = notANumber format

variable {op : Arithmetic} {x y z : Binary format}

theorem RoundsOnce.unique {other : Binary format} (hz : op.RoundsOnce x y z)
    (hother : op.RoundsOnce x y other) : z = other := by
  cases hnumber : x.isNaN || y.isNaN with
  | true => rw [hz.unknown hnumber, hother.unknown hnumber]
  | false =>
    cases hinfinite : x.isInfinite || y.isInfinite with
    | true => rw [hz.infinite hnumber hinfinite, hother.infinite hnumber hinfinite]
    | false =>
      obtain ⟨hx, hy⟩ := Bool.or_eq_false_iff.mp hnumber
      obtain ⟨hxFinite, hyFinite⟩ := Bool.or_eq_false_iff.mp hinfinite
      have hfinite : x.isFinite = true := by rw [isFinite_eq, hx, hxFinite]; rfl
      have hright : y.isFinite = true := by rw [isFinite_eq, hy, hyFinite]; rfl
      exact (hz.finite hfinite hright).unique (hother.finite hfinite hright)

/-- Zero divisors apart, each operation rounds once. -/
theorem roundsOnce_rounded (hformat : format.Regular)
    (hzero : op.zeroFault? = none ∨ y.isZero = false) : op.RoundsOnce x y (op.rounded x y) where
  finite hx hy := by
    cases op with
    | add => exact isRounded_add hx hy hformat
    | sub => exact isRounded_sub hx hy hformat
    | mul => exact isRounded_mul hx hy hformat
    | div => exact isRounded_div hx hy hformat (hzero.resolve_left nofun)
    | mod => exact isRounded_rem hx hy hformat (hzero.resolve_left nofun)
  infinite hnumber hinfinite := by
    cases op with
    | add => exact add_of_infinite hnumber hinfinite
    | sub =>
      have hsigns : (x.negative != !y.negative) = (x.negative == y.negative) := by
        cases x.negative <;> cases y.negative <;> rfl
      have hsum : x.sub y =
          if x.isInfinite && y.isInfinite && x.negative != !y.negative then notANumber format
          else if x.isInfinite then x else y.neg := add_of_infinite hnumber hinfinite
      rwa [hsigns] at hsum
    | mul => exact mul_of_infinite hnumber hinfinite
    | div => exact div_of_infinite hnumber hinfinite
    | mod => exact rem_of_infinite hnumber hinfinite (hzero.resolve_left nofun)
  unknown hnumber := by
    cases op with
    | add | sub | mul | div => exact if_pos hnumber
    | mod => simp only [rounded, rem, hnumber, Bool.true_or, if_true]

end Rounding

variable {op : Arithmetic}

theorem inRange_ok {n : Int} (hrange : Integer.InRange n) (operation : String) :
    ∃ k : Int64, inRange operation n = .ok k ∧ k.toInt = n := by
  obtain ⟨k, hword, hexact⟩ := Integer.ofInt?_of_inRange hrange
  exact ⟨k, by rw [inRange, hword], hexact⟩

theorem inRange_error {n : Int} (hrange : ¬ Integer.InRange n) (operation : String) :
    inRange operation n = .error (.integerOverflow operation) := by
  rw [inRange, Integer.ofInt?_eq_none hrange]

/-- Arithmetic on two integers, none of which is a zero divisor, is exact or overflows. -/
theorem onIntegers_of_nonzero {x y : Int64} (hzero : op.zeroFault? = none ∨ y ≠ 0) :
    (Integer.InRange (op.checked x.toInt y.toInt) →
      ∃ n, op.onIntegers x y = .ok n ∧ n.toInt = op.exact x.toInt y.toInt) ∧
    (¬ Integer.InRange (op.checked x.toInt y.toInt) →
      op.onIntegers x y = .error (.integerOverflow op.noun)) := by
  cases op with
  | add => exact ⟨fun hrange => inRange_ok hrange _, fun hrange => inRange_error hrange _⟩
  | sub => exact ⟨fun hrange => inRange_ok hrange _, fun hrange => inRange_error hrange _⟩
  | mul => exact ⟨fun hrange => inRange_ok hrange _, fun hrange => inRange_error hrange _⟩
  | div =>
    have hdivisor : y ≠ 0 := hzero.resolve_left nofun
    rw [onIntegers, if_neg hdivisor]
    exact ⟨fun hrange => inRange_ok hrange _, fun hrange => inRange_error hrange _⟩
  | mod =>
    have hdivisor : y ≠ 0 := hzero.resolve_left nofun
    rw [onIntegers, if_neg hdivisor]
    refine ⟨fun hrange => ?_, fun hrange => ?_⟩
    -- The range is that of the quotient, although the result is the remainder.
    · obtain ⟨quotient, hquotient, _⟩ := inRange_ok hrange "remainder"
      have hresult : inRange "remainder" (x.toInt.tdiv y.toInt) = .ok quotient := hquotient
      rw [hresult]
      exact ⟨x % y, rfl, Int64.toInt_mod x y⟩
    · have hresult : inRange "remainder" (x.toInt.tdiv y.toInt) =
          .error (.integerOverflow "remainder") := inRange_error hrange _
      rw [hresult]
      rfl

theorem onBinaries_of_nonzero {format : Binary.Format} {x y : Binary format}
    (hzero : op.zeroFault? = none ∨ y.isZero = false) :
    op.onBinaries x y = .ok (op.rounded x y) := by
  cases op with
  | add | sub | mul => rfl
  | div | mod =>
    have hdivisor : y.isZero = false := hzero.resolve_left nofun
    rw [onBinaries, hdivisor]
    rfl

/-- A zero divisor is refused, whatever the kind of the two numbers. -/
theorem onPair_of_zero {pair : NumericPair} {fault : Fault} (hfault : op.zeroFault? = some fault)
    (hzero : pair.right.isZero = true) : op.onPair pair = .error fault := by
  cases pair with
  | integers x y =>
    obtain rfl : y = 0 := beq_iff_eq.mp hzero
    cases op <;> cases hfault <;> rfl
  | floats x y | doubles x y =>
    have hdivisor : y.isZero = true := hzero
    cases op <;> cases hfault <;> rw [onPair, onBinaries, if_pos hdivisor] <;> rfl

variable {pair : NumericPair}

theorem onPair_of_overflow (hzero : op.zeroFault? = none ∨ pair.right.isZero = false)
    (hoverflow : pair.BothIntegers fun x y => ¬ Integer.InRange (op.checked x y)) :
    op.onPair pair = .error (.integerOverflow op.noun) := by
  cases pair with
  | integers x y =>
    have hdivisor : op.zeroFault? = none ∨ y ≠ 0 := hzero.imp_right beq_eq_false_iff_ne.mp
    rw [onPair, (onIntegers_of_nonzero hdivisor).2 hoverflow]
    rfl
  | floats x y | doubles x y => cases hoverflow

theorem onPair_ok (hzero : op.zeroFault? = none ∨ pair.right.isZero = false)
    (hrange : ¬ pair.BothIntegers fun x y => ¬ Integer.InRange (op.checked x y)) :
    ∃ number, op.onPair pair = .ok number ∧ op.Gives pair number.toValue := by
  cases pair with
  | integers x y =>
    have hdivisor : op.zeroFault? = none ∨ y ≠ 0 := hzero.imp_right beq_eq_false_iff_ne.mp
    obtain ⟨n, hn, hexact⟩ := (onIntegers_of_nonzero hdivisor).1 (Classical.not_not.mp hrange)
    rw [onPair, hn]
    exact ⟨.integer n, rfl, .integer hexact⟩
  | floats x y =>
    have hresult : op.onBinaries x y = .ok (op.rounded x y) := onBinaries_of_nonzero hzero
    rw [onPair, hresult]
    exact ⟨.float _, rfl, .float⟩
  | doubles x y =>
    have hresult : op.onBinaries x y = .ok (op.rounded x y) := onBinaries_of_nonzero hzero
    rw [onPair, hresult]
    exact ⟨.double _, rfl, .double⟩

end Arithmetic

namespace Numeric

theorem isZero_ofInt_toInt {format : Binary.Format} (hinfinity : 0 < format.infinity)
    (hleast : format.leastExponent ≤ 0) (n : Int64) :
    (Binary.ofInt format n.toInt).isZero = (n == 0) := by
  rw [Binary.isZero_ofInt hinfinity hleast, Bool.eq_iff_iff, beq_iff_eq, beq_iff_eq,
    ← Int64.toInt_zero, Int64.toInt_inj]

theorem isZero_toSingle {a : Numeric} (hnarrow : ∀ x, a ≠ .double x) :
    a.toSingle.isZero = a.isZero := by
  cases a with
  | integer n => exact isZero_ofInt_toInt (by decide) (by decide) n
  | float x => rfl
  | double x => exact absurd rfl (hnarrow x)

theorem isZero_toDouble (a : Numeric) : a.toDouble.isZero = a.isZero := by
  cases a with
  | integer n => exact isZero_ofInt_toInt (by decide) (by decide) n
  | float x => exact Binary.isZero_convert_double x
  | double x => rfl

theorem isNaN_toSingle {a : Numeric} (hnarrow : ∀ x, a ≠ .double x) :
    a.toSingle.isNaN = a.isNaN := by
  cases a with
  | integer n => exact Binary.isNaN_ofInt n.toInt
  | float x => rfl
  | double x => exact absurd rfl (hnarrow x)

theorem isNaN_toDouble (a : Numeric) : a.toDouble.isNaN = a.isNaN := by
  cases a with
  | integer n => exact Binary.isNaN_ofInt n.toInt
  | float x => exact Binary.isNaN_convert_double x
  | double x => rfl

/-- Two integers stay as they are, a double makes both numbers doubles, and a float that meets none
    makes both numbers floats. -/
theorem promote_cases (a b : Numeric) :
    (∃ x y, a = .integer x ∧ b = .integer y ∧ a.promote b = .integers x y) ∨
    a.promote b = .doubles a.toDouble b.toDouble ∨
    ((∀ x, a ≠ .double x) ∧ (∀ x, b ≠ .double x) ∧
      a.promote b = .floats a.toSingle b.toSingle) := by
  cases a with
  | integer x =>
    cases b with
    | integer y => exact .inl ⟨x, y, rfl, rfl, rfl⟩
    | float y => exact .inr (.inr ⟨nofun, nofun, rfl⟩)
    | double y => exact .inr (.inl rfl)
  | float x =>
    cases b with
    | integer y => exact .inr (.inr ⟨nofun, nofun, rfl⟩)
    | float y => exact .inr (.inr ⟨nofun, nofun, rfl⟩)
    | double y => exact .inr (.inl rfl)
  | double x => exact .inr (.inl rfl)

/-- Promotion neither makes a zero of the right number nor takes one away. -/
theorem isZero_promote (a b : Numeric) : (a.promote b).right.isZero = b.isZero := by
  obtain ⟨x, y, rfl, rfl, hpair⟩ | hpair | ⟨_, hb, hpair⟩ := promote_cases a b
  · rw [hpair, NumericPair.right]
  · rw [hpair, NumericPair.right, isZero, isZero_toDouble]
  · rw [hpair, NumericPair.right, isZero, isZero_toSingle hb]

/-- Two numbers have an order exactly when neither of them is a value that is not a number. -/
theorem compare?_promote (a b : Numeric) :
    (a.promote b).compare?.isSome = (!a.isNaN && !b.isNaN) := by
  obtain ⟨x, y, rfl, rfl, hpair⟩ | hpair | ⟨ha, hb, hpair⟩ := promote_cases a b
  · rw [hpair]
    rfl
  · rw [hpair, NumericPair.compare?, Binary.isSome_compare?, isNaN_toDouble, isNaN_toDouble]
  · rw [hpair, NumericPair.compare?, Binary.isSome_compare?, isNaN_toSingle ha, isNaN_toSingle hb]

end Numeric

end InterpreterCore

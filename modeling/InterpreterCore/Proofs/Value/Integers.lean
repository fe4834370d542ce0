import InterpreterCore.Proofs.Value.Arithmetic

namespace InterpreterCore

namespace Integer

/-- The least integer of the interpreted language. It is the only one without an opposite. -/
def least : Int := -9223372036854775808

theorem inRange_toInt (n : Int64) : InRange n.toInt := ⟨n.le_toInt, n.toInt_lt⟩

/-- Quotient and remainder of a division that cuts toward zero. -/
structure CutDivision (dividend divisor quotient remainder : Int) : Prop where
  exact : dividend = quotient * divisor + remainder
  smaller : remainder.natAbs < divisor.natAbs
  sign : remainder = 0 ∨ remainder.sign = dividend.sign

theorem cutDivision_tdiv_tmod (a : Int) {b : Int} (hb : b ≠ 0) :
    CutDivision a b (a.tdiv b) (a.tmod b) where
  exact := (Int.tdiv_mul_add_tmod a b).symm
  smaller := by
    rw [Int.natAbs_tmod]
    exact Nat.mod_lt _ (Int.natAbs_pos.mpr hb)
  sign := by
    obtain hneg | hpos := Int.lt_or_le a 0
    · have hle : a.tmod b ≤ 0 := by
        have hflip := Int.tmod_nonneg b (Int.neg_nonneg_of_nonpos (Int.le_of_lt hneg))
        rw [Int.neg_tmod] at hflip
        omega
      obtain hzero | hlt : a.tmod b = 0 ∨ a.tmod b < 0 := by omega
      · exact .inl hzero
      · exact .inr (by rw [Int.sign_eq_neg_one_of_neg hlt, Int.sign_eq_neg_one_of_neg hneg])
    · have hnonneg := Int.tmod_nonneg b hpos
      obtain hzero | hlt : a.tmod b = 0 ∨ 0 < a.tmod b := by omega
      · exact .inl hzero
      · have hne : a ≠ 0 := by
          rintro rfl
          rw [Int.zero_tmod] at hlt
          omega
        exact .inr (by rw [Int.sign_eq_one_of_pos hlt, Int.sign_eq_one_of_pos (by omega)])

/-- A quotient of integers is out of range only where the least one is divided by minus one: a
    divisor of any other size makes the dividend smaller. -/
theorem not_inRange_tdiv_iff {a b : Int} (ha : InRange a) :
    ¬ InRange (a.tdiv b) ↔ a = least ∧ b = -1 := by
  obtain ⟨hlow, hhigh⟩ := ha
  have hsize := Int.natAbs_tdiv_le_natAbs a b
  rw [InRange, least]
  constructor
  · intro hout
    obtain ⟨hleast, hquotient⟩ : a = -9223372036854775808 ∧ a.tdiv b = 9223372036854775808 := by
      omega
    refine ⟨hleast, ?_⟩
    obtain rfl | rfl | hminus | hlarge : b = 0 ∨ b = 1 ∨ b = -1 ∨ 2 ≤ b.natAbs := by omega
    · rw [Int.tdiv_zero] at hquotient
      omega
    · rw [Int.tdiv_one] at hquotient
      omega
    · exact hminus
    · have hhalf : (a.tdiv b).natAbs ≤ a.natAbs / 2 := by
        rw [Int.natAbs_tdiv]
        exact Nat.div_le_div_left hlarge Nat.two_pos
      omega
  · rintro ⟨rfl, rfl⟩
    decide

end Integer

namespace Value

/-- An outcome that is a whole number exactly, or is refused because the number is out of range. -/
structure ExactOrRefused (outcome : Outcome Value) (operation : String) (number : Int) : Prop where
  exact : Integer.InRange number → ∃ n, outcome = .ok (integer n) ∧ n.toInt = number
  refused : ¬ Integer.InRange number → outcome = .error (.integerOverflow operation)

theorem exactOrRefused_inRange (operation : String) (number : Int) :
    ExactOrRefused ((Arithmetic.inRange operation number).map integer) operation number where
  exact hrange := by
    obtain ⟨n, hn, hexact⟩ := Arithmetic.inRange_ok hrange operation
    exact ⟨n, by rw [hn]; rfl, hexact⟩
  refused hrange := by
    rw [Arithmetic.inRange_error hrange]
    rfl

/-- A whole number has one word, so an outcome that is exact or refused is known. -/
theorem ExactOrRefused.eq_ok_iff {outcome : Outcome Value} {operation : String} {number : Int}
    (hexact : ExactOrRefused outcome operation number) (v : Value) :
    outcome = .ok v ↔ ∃ n : Int64, v = integer n ∧ n.toInt = number := by
  constructor
  · intro hok
    by_cases hrange : Integer.InRange number
    · obtain ⟨n, hn, hnumber⟩ := hexact.exact hrange
      exact ⟨n, Except.ok.inj (hok.symm.trans hn), hnumber⟩
    · rw [hexact.refused hrange] at hok
      cases hok
  · rintro ⟨n, rfl, rfl⟩
    obtain ⟨other, hother, hsame⟩ := hexact.exact (Integer.inRange_toInt n)
    rw [hother, Int64.toInt_inj.mp hsame]

section Integers

variable (a b : Int64) (leftConst rightConst : Bool)

/-- Arithmetic on two integer values is that of their integers; the marks do not enter it. -/
theorem binary_integers (op : Arithmetic) :
    binary (.arithmetic op) ⟨.integer a, leftConst⟩ ⟨.integer b, rightConst⟩ =
      (op.onIntegers a b).map integer := by
  have hcalculate : binary (.arithmetic op) ⟨.integer a, leftConst⟩ ⟨.integer b, rightConst⟩ =
      calculate op ⟨.integer a, leftConst⟩ ⟨.integer b, rightConst⟩ := by
    cases op <;> rfl
  rw [hcalculate]
  show ((op.onIntegers a b).map Numeric.integer).map Numeric.toValue = _
  cases op.onIntegers a b <;> rfl

/-- What a division of two integers, or the remainder of one, answers: it is refused for a zero
    divisor, or where the quotient is out of range, and succeeds exactly otherwise. -/
theorem binary_integers_div (op : Arithmetic) {fault : Fault} (hzero : op.zeroFault? = some fault)
    (hquotient : op.checked = Int.tdiv) :
    (∀ other, binary (.arithmetic op) ⟨.integer a, leftConst⟩ ⟨.integer b, rightConst⟩ =
        .error other ↔
      b = 0 ∧ other = fault ∨
        a.toInt = Integer.least ∧ b.toInt = -1 ∧ other = .integerOverflow op.noun) ∧
    (b ≠ 0 → ¬ (a.toInt = Integer.least ∧ b.toInt = -1) →
      ∃ n, binary (.arithmetic op) ⟨.integer a, leftConst⟩ ⟨.integer b, rightConst⟩ =
        .ok (integer n) ∧ n.toInt = op.exact a.toInt b.toInt) := by
  have hrange := Integer.not_inRange_tdiv_iff (b := b.toInt) (Integer.inRange_toInt a)
  rw [binary_integers]
  by_cases hb : b = 0
  · have hrefused : op.onIntegers a b = .error fault := by
      subst hb
      cases op <;> cases hzero <;> rfl
    have hother : ¬ (a.toInt = Integer.least ∧ b.toInt = -1) := by
      rintro ⟨_, hminus⟩
      rw [hb] at hminus
      cases hminus
    rw [hrefused]
    refine ⟨fun other => ?_, fun hnonzero => absurd hb hnonzero⟩
    constructor
    · rintro ⟨⟩
      exact .inl ⟨hb, rfl⟩
    · rintro (⟨_, rfl⟩ | ⟨hleast, hminus, _⟩)
      · rfl
      · exact absurd ⟨hleast, hminus⟩ hother
  · obtain ⟨hexact, hoverflow⟩ :=
      @Arithmetic.onIntegers_of_nonzero op a b (.inr hb)
    rw [hquotient] at hexact hoverflow
    by_cases hcut : Integer.InRange (a.toInt.tdiv b.toInt)
    · obtain ⟨n, hn, hresult⟩ := hexact hcut
      have hinside : ¬ (a.toInt = Integer.least ∧ b.toInt = -1) :=
        fun hedge => hrange.mpr hedge hcut
      rw [hn]
      refine ⟨fun other => ?_, fun _ _ => ⟨n, rfl, hresult⟩⟩
      constructor
      · rintro ⟨⟩
      · rintro (⟨hzero, _⟩ | ⟨hleast, hminus, _⟩)
        · exact absurd hzero hb
        · exact absurd ⟨hleast, hminus⟩ hinside
    · obtain ⟨hleast, hminus⟩ := hrange.mp hcut
      rw [hoverflow hcut]
      refine ⟨fun other => ?_, fun _ hinside => absurd ⟨hleast, hminus⟩ hinside⟩
      constructor
      · rintro ⟨⟩
        exact .inr ⟨hleast, hminus, rfl⟩
      · rintro (⟨hzero, _⟩ | ⟨_, _, rfl⟩)
        · exact absurd hzero hb
        · rfl

/-- Integer arithmetic is exact or refused, for any two integers and whether they are constants or
    not. Division and its remainder are refused for a zero divisor and, both of them, for the least
    integer divided by minus one; everywhere else they belong together. A change of sign is refused
    for the least integer alone, is subtraction from zero, and undoes itself. -/
theorem integers_exact_or_refused :
    let l : Value := ⟨.integer a, leftConst⟩
    let r : Value := ⟨.integer b, rightConst⟩
    ExactOrRefused (binary (.arithmetic .add) l r) "addition" (a.toInt + b.toInt) ∧
    ExactOrRefused (binary (.arithmetic .sub) l r) "subtraction" (a.toInt - b.toInt) ∧
    ExactOrRefused (binary (.arithmetic .mul) l r) "multiplication" (a.toInt * b.toInt) ∧
    (∀ fault, binary (.arithmetic .div) l r = .error fault ↔
      b = 0 ∧ fault = .divisionByZero ∨
        a.toInt = Integer.least ∧ b.toInt = -1 ∧ fault = .integerOverflow "division") ∧
    (∀ fault, binary (.arithmetic .mod) l r = .error fault ↔
      b = 0 ∧ fault = .moduloByZero ∨
        a.toInt = Integer.least ∧ b.toInt = -1 ∧ fault = .integerOverflow "remainder") ∧
    (b ≠ 0 → ¬ (a.toInt = Integer.least ∧ b.toInt = -1) →
      ∃ quotient remainder : Int64,
        binary (.arithmetic .div) l r = .ok (integer quotient) ∧
        binary (.arithmetic .mod) l r = .ok (integer remainder) ∧
        Integer.CutDivision a.toInt b.toInt quotient.toInt remainder.toInt) ∧
    ExactOrRefused (unary .neg l) "negation" (-a.toInt) ∧
    ((∃ fault, unary .neg l = .error fault) ↔ a.toInt = Integer.least) ∧
    (∀ v, unary .neg l = .ok v ↔ binary (.arithmetic .sub) (integer 0) l = .ok v) ∧
    ∀ v, unary .neg l = .ok v → unary .neg v = .ok (integer a) := by
  intro l r
  have hneg (n : Int64) (isConst : Bool) :
      ExactOrRefused (unary .neg ⟨.integer n, isConst⟩) "negation" (-n.toInt) :=
    exactOrRefused_inRange "negation" (-n.toInt)
  have hsub (m n : Int64) (leftConst rightConst : Bool) :
      ExactOrRefused (binary (.arithmetic .sub) ⟨.integer m, leftConst⟩ ⟨.integer n, rightConst⟩)
        "subtraction" (m.toInt - n.toInt) := by
    rw [binary_integers]
    exact exactOrRefused_inRange "subtraction" _
  have hdiv := binary_integers_div a b leftConst rightConst .div rfl rfl
  have hmod := binary_integers_div a b leftConst rightConst .mod rfl rfl
  refine ⟨?_, hsub a b leftConst rightConst, ?_, hdiv.1, hmod.1, fun hb hinside => ?_,
    hneg a leftConst, ?_, fun v => ?_, fun v hv => ?_⟩
  · rw [binary_integers]
    exact exactOrRefused_inRange "addition" _
  · rw [binary_integers]
    exact exactOrRefused_inRange "multiplication" _
  · obtain ⟨quotient, hquotient, hcut⟩ := hdiv.2 hb hinside
    obtain ⟨remainder, hremainder, hleft⟩ := hmod.2 hb hinside
    have hdivisor : b.toInt ≠ 0 := fun hzero => hb (Int64.toInt_inj.mp hzero)
    refine ⟨quotient, remainder, hquotient, hremainder, ?_⟩
    rw [hcut, hleft]
    exact Integer.cutDivision_tdiv_tmod a.toInt hdivisor
  · have hrange : ¬ Integer.InRange (-a.toInt) ↔ a.toInt = Integer.least := by
      obtain ⟨hlow, hhigh⟩ := Integer.inRange_toInt a
      rw [Integer.InRange, Integer.least]
      omega
    rw [← hrange]
    constructor
    · rintro ⟨fault, hfault⟩ hinside
      obtain ⟨n, hn, _⟩ := (hneg a leftConst).exact hinside
      cases hn.symm.trans hfault
    · exact fun hout => ⟨_, (hneg a leftConst).refused hout⟩
  · have hzero : (0 : Int64).toInt - a.toInt = -a.toInt := by rw [Int64.toInt_zero, Int.zero_sub]
    have hdifference := hsub 0 a false leftConst
    rw [hzero] at hdifference
    exact ((hneg a leftConst).eq_ok_iff v).trans (hdifference.eq_ok_iff v).symm
  · obtain ⟨n, rfl, hopposite⟩ := ((hneg a leftConst).eq_ok_iff v).mp hv
    refine ((hneg n false).eq_ok_iff _).mpr ⟨a, rfl, ?_⟩
    rw [hopposite, Int.neg_neg]

end Integers

end Value

end InterpreterCore

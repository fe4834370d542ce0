import InterpreterCore.Proofs.Decimal.Bracket
import InterpreterCore.Proofs.Decimal.Value
import Mathlib.Tactic.IntervalCases

namespace InterpreterCore.Decimal

open Binary

section Scale

variable (exponent : ℤ)

/-- The place of the least power of ten that is not below a power of two, one part in `nearness`
    aside. -/
def placeAbove : ℤ := -(-exponent * 30103 / 100000)

/-- Numerator, in lowest terms, of the quotient of that power of ten by half the power of two. -/
def tens : Nat :=
  Nat.pow 5 (placeAbove exponent).toNat * Nat.pow 2 (placeAbove exponent - exponent + 1).toNat

/-- Denominator of the same quotient. -/
def halves : Nat :=
  Nat.pow 5 (-placeAbove exponent).toNat * Nat.pow 2 (exponent - 1 - placeAbove exponent).toNat

/-- How many of the steps between doubles make a step between 32-bit values. -/
def nearness : Nat := Nat.pow 2 (Format.double.precision - Format.single.precision)

/-- Decimals near a middle have smaller coefficients on the grid of the power of ten. -/
def coefficientLimit : Nat := 2 * Format.single.leadingWeight

/-- The one middle with a decimal near it: its last place, -/
def halfwayExponent : ℤ := -107

/-- how many halves of the last place it has -/
def halfwayNum : Nat := 22841339

/-- and the coefficient of the decimal. -/
def halfwayDen : Nat := 7038531

/-- No multiple of a fraction, but for the one middle, is a middle with a decimal near it: the
    fraction is not near the quotient, its numerator is no middle or its denominator is too large. -/
def Harmless (gap numerator denominator : Nat) : Prop :=
  halves exponent < nearness * gap ∨ numerator % 2 = 0 ∨ 2 * coefficientLimit ≤ numerator ∨
    coefficientLimit ≤ denominator ∨
    (exponent = halfwayExponent ∧ numerator = halfwayNum ∧ denominator = halfwayDen)

instance (gap numerator denominator : Nat) :
    Decidable (Harmless exponent gap numerator denominator) :=
  inferInstanceAs (Decidable (_ ∨ _ ∨ _ ∨ _ ∨ _))

/-- Adjacent fractions around the quotient which show that no decimal is near a middle, but for the
    one middle. -/
def Separated (bracket : Bracket) : Prop :=
  bracket.Encloses (tens exponent) (halves exponent) ∧
    coefficientLimit ≤ bracket.lowDen + bracket.highDen ∧
    halves exponent < nearness * (bracket.lowGap (tens exponent) (halves exponent) +
      bracket.highGap (tens exponent) (halves exponent)) ∧
    Harmless exponent (bracket.lowGap (tens exponent) (halves exponent)) bracket.lowNum
      bracket.lowDen ∧
    Harmless exponent (bracket.highGap (tens exponent) (halves exponent)) bracket.highNum
      bracket.highDen

instance (bracket : Bracket) : Decidable (Separated exponent bracket) :=
  inferInstanceAs (Decidable (_ ∧ _ ∧ _ ∧ _ ∧ _))

/-- The power of ten is the least one that is not below the power of two, one part in `nearness`
    aside. -/
def PlaceFits : Prop :=
  2 * halves exponent * (nearness - 1) ≤ nearness * tens exponent ∧
    nearness * tens exponent < 20 * halves exponent * (nearness - 1)

instance : Decidable (PlaceFits exponent) := inferInstanceAs (Decidable (_ ∧ _))

/-- No decimal is near a middle with this last place, but for the one middle: the power of ten fits,
    and the quotient is so coarse that what is near is exact, or there are separating fractions. -/
def Apart : Prop :=
  PlaceFits exponent ∧ (halves exponent < nearness ∨
    Separated exponent (.around (tens exponent) (halves exponent) coefficientLimit))

instance : Decidable (Apart exponent) := inferInstanceAs (Decidable (_ ∧ (_ ∨ _)))

end Scale

/-- Every last place of finite 32-bit values is one of these. -/
theorem apart_level : ∀ level < 254, Apart (Format.single.leastExponent + (level : Nat)) := by
  decide +kernel

section Near

variable {exponent : ℤ} {c n : Nat} (hodd : Odd n) (hpos : 0 < c) (hc : c < coefficientLimit)
  (hn : n < 2 * coefficientLimit)
  (hnear : (nearness : ℤ) * |(c * tens exponent - n * halves exponent : ℤ)| ≤ halves exponent)
include hodd hpos hc hn hnear

/-- A multiple of a harmless fraction is not near, but for the one middle. -/
theorem Harmless.eq_of_near {gap numerator denominator times : Nat}
    (hharmless : Harmless exponent gap numerator denominator) (htimes : 0 < times)
    (hden : c = times * denominator) (hnum : n = times * numerator)
    (hgap : (gap : ℤ) ≤ |(c * tens exponent - n * halves exponent : ℤ)|) :
    exponent = halfwayExponent ∧ n = halfwayNum := by
  obtain hfar | heven | hlarge | hlarge | ⟨hexponent, rfl, rfl⟩ := hharmless
  · have hless : (halves exponent : ℤ) < nearness * gap := by exact_mod_cast hfar
    have hnonneg : (0 : ℤ) ≤ nearness := Nat.cast_nonneg nearness
    exact absurd hnear (not_le.mpr (hless.trans_le (mul_le_mul_of_nonneg_left hgap hnonneg)))
  · have hevenN : n % 2 = 0 := by rw [hnum, Nat.mul_mod, heven, Nat.mul_zero, Nat.zero_mod]
    exact absurd (Nat.odd_iff.mp hodd) (by rw [hevenN]; decide)
  · have hle := Nat.le_mul_of_pos_left numerator htimes
    omega
  · have hle := Nat.le_mul_of_pos_left denominator htimes
    omega
  · -- Twice the fraction is no middle, and three times it has too large a denominator.
    rw [halfwayDen] at hden
    rw [halfwayNum] at hnum
    rw [show coefficientLimit = 16777216 from rfl] at hc
    have hone : times = 1 := by
      have hsmall : times ≤ 2 := by omega
      interval_cases times
      · rfl
      · exact absurd (Nat.odd_iff.mp hodd) (by rw [hnum]; decide)
    exact ⟨hexponent, by rw [hnum, hone]; rfl⟩

/-- Where fractions separate, nothing is near but the one middle. -/
theorem Separated.eq_of_near {bracket : Bracket} (hseparated : Separated exponent bracket) :
    exponent = halfwayExponent ∧ n = halfwayNum := by
  obtain ⟨hencloses, hwide, hfar, hlow, hhigh⟩ := hseparated
  obtain ⟨times, htimes, hden, hnum, hgap⟩ | ⟨times, htimes, hden, hnum, hgap⟩ | hout :=
    hencloses.cases hpos (hc.trans_le hwide)
  · exact hlow.eq_of_near hodd hpos hc hn hnear htimes hden hnum hgap
  · exact hhigh.eq_of_near hodd hpos hc hn hnear htimes hden hnum hgap
  · have hless : (halves exponent : ℤ) < nearness * (bracket.lowGap (tens exponent)
        (halves exponent) + bracket.highGap (tens exponent) (halves exponent)) := by
      exact_mod_cast hfar
    have hnonneg : (0 : ℤ) ≤ nearness := Nat.cast_nonneg nearness
    exact absurd hnear (not_le.mpr (hless.trans_le (mul_le_mul_of_nonneg_left hout hnonneg)))

end Near

theorem zpow_mul_pow {base : Nat} (hbase : 0 < base) (exponent : ℤ) :
    (base : ℚ) ^ exponent * (Nat.pow base (-exponent).toNat : Nat) =
      (Nat.pow base exponent.toNat : Nat) := by
  rw [zpow_eq_div hbase, div_mul_cancel₀ _ (Nat.cast_ne_zero.mpr (Nat.pow_pos hbase).ne')]

theorem halves_pos (exponent : ℤ) : 0 < halves exponent :=
  Nat.mul_pos (Nat.pow_pos (by decide)) (Nat.pow_pos (by decide))

/-- The power of ten by half the power of two is the quotient. -/
theorem ten_zpow_mul_halves (exponent : ℤ) :
    (10 : ℚ) ^ placeAbove exponent * halves exponent = tens exponent * 2 ^ (exponent - 1) := by
  rw [halves, tens]
  generalize placeAbove exponent = place
  have hfive := zpow_mul_pow (by decide : 0 < 5) place
  have htwo := zpow_mul_pow (by decide : 0 < 2) (place - exponent + 1)
  have hneg : -(place - exponent + 1) = exponent - 1 - place := by ring
  have hsplit : (2 : ℚ) ^ place = 2 ^ (place - exponent + 1) * 2 ^ (exponent - 1) := by
    rw [← zpow_add₀ two_ne_zero]
    congr 1
    ring
  rw [hneg] at htwo
  rw [ten_zpow, hsplit, Nat.cast_mul, Nat.cast_mul, ← hfive, ← htwo]
  push_cast
  ring

/-- What it means for the powers that one of them fits. -/
theorem PlaceFits.bounds {exponent : ℤ} (hfits : PlaceFits exponent) :
    ((nearness - 1 : Nat) : ℚ) * 2 ^ exponent ≤ nearness * 10 ^ placeAbove exponent ∧
      (nearness : ℚ) * 10 ^ placeAbove exponent < 10 * ((nearness - 1 : Nat) * 2 ^ exponent) := by
  obtain ⟨hbelow, habove⟩ := hfits
  have hunit := two_zpow_pos (exponent - 1)
  have hhalves : (0 : ℚ) < halves exponent := Nat.cast_pos.mpr (halves_pos exponent)
  have hquotient := ten_zpow_mul_halves exponent
  have hbelowCast : (2 * halves exponent * (nearness - 1 : Nat) : ℚ) ≤ nearness * tens exponent := by
    exact_mod_cast hbelow
  have haboveCast : (nearness * tens exponent : ℚ) <
      20 * halves exponent * (nearness - 1 : Nat) := by
    exact_mod_cast habove
  have hscaled : (nearness : ℚ) * 10 ^ placeAbove exponent * halves exponent =
      nearness * tens exponent * 2 ^ (exponent - 1) := by
    rw [mul_assoc, hquotient, mul_assoc]
  constructor
  · refine le_of_mul_le_mul_right ?_ hhalves
    have hmul := mul_le_mul_of_nonneg_right hbelowCast hunit.le
    rw [hscaled, two_zpow_eq_double exponent]
    linarith
  · refine lt_of_mul_lt_mul_right ?_ hhalves.le
    have hmul := mul_lt_mul_of_pos_right haboveCast hunit
    rw [hscaled, two_zpow_eq_double exponent]
    linarith

/-- No lesser power of ten would do. -/
theorem PlaceFits.placeAbove_le {exponent : ℤ} (hfits : PlaceFits exponent) {place : ℤ}
    (hplace : ((nearness - 1 : Nat) : ℚ) * 2 ^ exponent ≤ nearness * 10 ^ place) :
    placeAbove exponent ≤ place := by
  have hnearness : (0 : ℚ) < nearness := Nat.cast_pos.mpr (by decide)
  have hlt : (10 : ℚ) ^ placeAbove exponent < 10 ^ (place + 1) := by
    refine lt_of_mul_lt_mul_left ?_ hnearness.le
    rw [zpow_add_one₀ (by norm_num)]
    linarith [hfits.bounds.2]
  exact Int.lt_add_one_iff.mp ((zpow_lt_zpow_iff_right₀ (by norm_num)).mp hlt)

section Middle

variable {exponent : ℤ} (hapart : Apart exponent) {number : ℚ} (hpos : 0 < number) {n : Nat}
  (hodd : Odd n) (hn : n < 2 * coefficientLimit)
  (hnear : nearness * |number - n * 2 ^ (exponent - 1)| ≤ 2 ^ (exponent - 1))
include hapart hn hnear

/-- The coefficient of a decimal near a middle is small. -/
theorem coefficient_lt_of_near {c : Nat} (hnumber : number = c * 10 ^ placeAbove exponent) :
    c < coefficientLimit := by
  have hunit := two_zpow_pos (exponent - 1)
  have hnearness : (0 : ℚ) < nearness := Nat.cast_pos.mpr (by decide)
  have hbelow := hapart.1.bounds.1
  have habove := (mul_le_mul_of_nonneg_left (le_abs_self _) hnearness.le).trans hnear
  by_contra hlarge
  have hcoefficient : (coefficientLimit : ℚ) * 10 ^ placeAbove exponent ≤ number := by
    rw [hnumber]
    exact mul_le_mul_of_nonneg_right (Nat.cast_le.mpr (not_lt.mp hlarge)) (ten_zpow_pos _).le
  have hmiddle : (n : ℚ) * 2 ^ (exponent - 1) ≤ (33554431 : Nat) * 2 ^ (exponent - 1) :=
    mul_le_mul_of_nonneg_right (Nat.cast_le.mpr (Nat.le_of_lt_succ hn)) hunit.le
  rw [two_zpow_eq_double exponent] at hbelow
  rw [show coefficientLimit = 16777216 from rfl] at hcoefficient
  rw [show nearness = 536870912 from rfl] at hbelow habove
  push_cast at hcoefficient hmiddle hbelow habove
  linarith

include hpos hodd

/-- On the grid of the least power of ten that fits, a decimal near a middle is the middle, but for
    the one middle. -/
theorem eq_of_near_middle_on_least {c : Nat} (hnumber : number = c * 10 ^ placeAbove exponent)
    (hne : number ≠ n * 2 ^ (exponent - 1)) : exponent = halfwayExponent ∧ n = halfwayNum := by
  have hunit := two_zpow_pos (exponent - 1)
  have hhalves : (0 : ℚ) < halves exponent := Nat.cast_pos.mpr (halves_pos exponent)
  have hclt := coefficient_lt_of_near hapart hn hnear hnumber
  have hcpos : 0 < c := by
    rw [hnumber, mul_pos_iff_of_pos_right (ten_zpow_pos _)] at hpos
    exact_mod_cast hpos
  have hscaled : (number - n * 2 ^ (exponent - 1)) * halves exponent =
      (c * tens exponent - n * halves exponent) * 2 ^ (exponent - 1) := by
    rw [hnumber, sub_mul, mul_assoc, ten_zpow_mul_halves]
    ring
  have hdistance : (nearness : ℤ) * |(c * tens exponent - n * halves exponent : ℤ)| ≤
      halves exponent := by
    have habs := congrArg abs hscaled
    rw [abs_mul, abs_mul, abs_of_pos hhalves, abs_of_pos hunit] at habs
    have hmul := mul_le_mul_of_nonneg_right hnear hhalves.le
    rw [mul_assoc, habs, ← mul_assoc, mul_comm ((2 : ℚ) ^ (exponent - 1))] at hmul
    have hcast := le_of_mul_le_mul_right hmul hunit
    exact_mod_cast hcast
  obtain hcoarse | hseparated := hapart.2
  · have hnonzero : (c * tens exponent - n * halves exponent : ℤ) ≠ 0 := by
      intro hzero
      have hzeroCast : (c * tens exponent - n * halves exponent : ℚ) = 0 := by exact_mod_cast hzero
      rw [hzeroCast, zero_mul, mul_eq_zero, or_iff_left hhalves.ne'] at hscaled
      exact hne (sub_eq_zero.mp hscaled)
    have hone := Int.one_le_abs hnonzero
    have hless : (halves exponent : ℤ) < nearness := by exact_mod_cast hcoarse
    nlinarith
  · exact hseparated.eq_of_near hodd hcpos hclt hn hdistance

/-- A multiple of a power of ten that fits is on the grid of the least one that does. So near a
    middle it is the middle, but for the one middle. -/
theorem eq_of_near_middle {place : ℤ}
    (hmultiple : ∃ coefficient : Nat, number = coefficient * 10 ^ place)
    (hspacing : ((nearness - 1 : Nat) : ℚ) * 2 ^ exponent ≤ nearness * 10 ^ place)
    (hne : number ≠ n * 2 ^ (exponent - 1)) : exponent = halfwayExponent ∧ n = halfwayNum := by
  obtain ⟨coefficient, hcoefficient⟩ := hmultiple
  obtain ⟨shift, hshift⟩ :=
    Int.eq_ofNat_of_zero_le (sub_nonneg.mpr (hapart.1.placeAbove_le hspacing))
  have hleast : number = (coefficient * 10 ^ shift : Nat) * 10 ^ placeAbove exponent := by
    rw [hcoefficient, eq_add_of_sub_eq hshift, zpow_add₀ (by norm_num), zpow_natCast]
    push_cast
    ring
  exact eq_of_near_middle_on_least hapart hpos hodd hn hnear hleast hne

end Middle

end InterpreterCore.Decimal

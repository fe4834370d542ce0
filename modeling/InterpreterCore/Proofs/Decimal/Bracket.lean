import Mathlib.Algebra.Order.Ring.Abs
import Mathlib.Tactic.Lift
import Mathlib.Tactic.Linarith
import Mathlib.Tactic.LinearCombination
import Mathlib.Tactic.Zify

namespace InterpreterCore.Decimal

/-- Two fractions, one meant to be below a quotient and one above it. -/
structure Bracket where
  lowNum : Nat
  lowDen : Nat
  highNum : Nat
  highDen : Nat

namespace Bracket

variable (num den : Nat) (bracket : Bracket)

/-- How far the lower fraction is below the quotient, over the product of both denominators. -/
def lowGap : Nat := bracket.lowDen * num - bracket.lowNum * den

/-- How far the higher fraction is above the quotient, over the product of both denominators. -/
def highGap : Nat := bracket.highNum * den - bracket.highDen * num

/-- The quotient is between the fractions, and the fractions are adjacent: those between them have
    denominators of at least the sum of theirs. -/
def Encloses : Prop :=
  bracket.highNum * bracket.lowDen = bracket.lowNum * bracket.highDen + 1 ∧
    bracket.lowNum * den ≤ bracket.lowDen * num ∧ bracket.highDen * num ≤ bracket.highNum * den

instance : Decidable (bracket.Encloses num den) :=
  inferInstanceAs (Decidable (_ ∧ _ ∧ _))

/-- Move the fraction that is farther from the quotient toward the nearer one, in at most the given
    number of steps, until the denominators add up to a limit. -/
def narrow (limit : Nat) : Nat → Bracket → Bracket
  | 0, bracket => bracket
  | steps + 1, bracket =>
    let missing := limit - (bracket.lowDen + bracket.highDen)
    let low := bracket.lowGap num den
    let high := bracket.highGap num den
    if missing = 0 then bracket
    else if low ≤ high then
      let count := min (high / low) ((missing + bracket.lowDen - 1) / bracket.lowDen)
      narrow limit steps { bracket with
        highNum := bracket.highNum + count * bracket.lowNum
        highDen := bracket.highDen + count * bracket.lowDen }
    else
      let count := min (low / high) ((missing + bracket.highDen - 1) / bracket.highDen)
      narrow limit steps { bracket with
        lowNum := bracket.lowNum + count * bracket.highNum
        lowDen := bracket.lowDen + count * bracket.highDen }

/-- Narrow fractions around a quotient. The search begins with its whole part and one over zero, and
    nothing is asked of it: what it finds is checked. -/
def around (limit : Nat) : Bracket := narrow num den limit 64 ⟨num / den, 1, 1, 0⟩

variable {num den bracket}

section Weights

variable (hencloses : bracket.Encloses num den) (c n : Nat)
include hencloses

/-- Adjacent fractions make every other with whole weights, and the weights make its distance from
    the quotient of theirs. -/
theorem Encloses.exists_weights : ∃ x y : ℤ,
    (c : ℤ) = x * bracket.lowDen + y * bracket.highDen ∧
      (n : ℤ) = x * bracket.lowNum + y * bracket.highNum ∧
      (c * num - n * den : ℤ) = x * bracket.lowGap num den - y * bracket.highGap num den := by
  obtain ⟨hadjacent, hlow, hhigh⟩ := hencloses
  rw [lowGap, highGap, Nat.cast_sub hlow, Nat.cast_sub hhigh]
  obtain ⟨lowNum, lowDen, highNum, highDen⟩ := bracket
  dsimp only at *
  zify at hadjacent
  refine ⟨c * highNum - n * highDen, n * lowDen - c * lowNum, ?_, ?_, ?_⟩
  · linear_combination (-(c : ℤ)) * hadjacent
  · linear_combination (-(n : ℤ)) * hadjacent
  · push_cast
    linear_combination (n * den - c * num : ℤ) * hadjacent

/-- A fraction with a denominator less than the sum of those of adjacent fractions around a quotient
    is one of the two, not reduced perhaps, or is as far from the quotient as both together: with two
    positive weights the denominator is larger, and with weights of different signs the distances
    add up. -/
theorem Encloses.cases {c n : Nat} (hpos : 0 < c) (hlt : c < bracket.lowDen + bracket.highDen) :
    (∃ times, 0 < times ∧ c = times * bracket.lowDen ∧ n = times * bracket.lowNum ∧
      (bracket.lowGap num den : ℤ) ≤ |(c * num - n * den : ℤ)|) ∨
    (∃ times, 0 < times ∧ c = times * bracket.highDen ∧ n = times * bracket.highNum ∧
      (bracket.highGap num den : ℤ) ≤ |(c * num - n * den : ℤ)|) ∨
    (bracket.lowGap num den + bracket.highGap num den : ℤ) ≤ |(c * num - n * den : ℤ)| := by
  obtain ⟨x, y, hc, hn, hdistance⟩ := hencloses.exists_weights c n
  have hlowGap : (0 : ℤ) ≤ bracket.lowGap num den := Nat.cast_nonneg _
  have hhighGap : (0 : ℤ) ≤ bracket.highGap num den := Nat.cast_nonneg _
  have hlowDen : (0 : ℤ) ≤ bracket.lowDen := Nat.cast_nonneg _
  have hhighDen : (0 : ℤ) ≤ bracket.highDen := Nat.cast_nonneg _
  zify at hpos hlt
  rw [hdistance]
  obtain hxNeg | rfl | hxPos := lt_trichotomy x 0
  · have hyPos : 0 < y := by
      by_contra hnot
      have hleft := mul_nonpos_of_nonpos_of_nonneg hxNeg.le hlowDen
      have hright := mul_nonpos_of_nonpos_of_nonneg (not_lt.mp hnot) hhighDen
      omega
    exact .inr (.inr (le_abs.mpr (.inr (by nlinarith))))
  · rw [zero_mul, zero_add] at hc hn
    have hyPos : 0 < y := by
      by_contra hnot
      have hright := mul_nonpos_of_nonpos_of_nonneg (not_lt.mp hnot) hhighDen
      omega
    lift y to ℕ using hyPos.le
    exact .inr (.inl ⟨y, by exact_mod_cast hyPos, by exact_mod_cast hc, by exact_mod_cast hn,
      le_abs.mpr (.inr (by nlinarith))⟩)
  · obtain hyNeg | rfl | hyPos := lt_trichotomy y 0
    · exact .inr (.inr (le_abs.mpr (.inl (by nlinarith))))
    · rw [zero_mul, add_zero] at hc hn
      lift x to ℕ using hxPos.le
      exact .inl ⟨x, by exact_mod_cast hxPos, by exact_mod_cast hc, by exact_mod_cast hn,
        le_abs.mpr (.inl (by nlinarith))⟩
    · -- The denominator is not less than the sum.
      nlinarith

end Weights

end Bracket

end InterpreterCore.Decimal

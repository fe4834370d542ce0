import InterpreterCore.Proofs.Decimal.Halfway
import InterpreterCore.Proofs.Decimal.Shortest
import InterpreterCore.Proofs.Binary.Refinement

namespace InterpreterCore.Binary

open Format Decimal

/-- The magnitude of the 32-bit value whose shortest decimal denotes a double halfway to the next
    one. -/
def besideHalfway : Nat := 0x15AE43FD

/-- Finite 32-bit values have 254 levels. -/
theorem level_lt_of_lt_infinity {magnitude : Nat} (hlt : magnitude < single.infinity) :
    single.level magnitude < 254 := by
  have hinfinity : single.infinity = 255 * single.leadingWeight := by decide
  have hfield : magnitude / single.leadingWeight < 255 :=
    Nat.div_lt_of_lt_mul (by rwa [Nat.mul_comm, ← hinfinity])
  rw [level]
  omega

section Narrowed

variable {magnitude place : Nat} {number : ℚ} (hsingle : single.RoundsTo number magnitude)
  (hdouble : double.RoundsTo number place)
include hsingle hdouble

/-- The last place of the double nearest to a number is below that of the 32-bit value by the
    difference of the precisions. -/
theorem exponentAt_double_le : double.exponentAt place ≤ single.exponentAt magnitude - 29 := by
  obtain hlowest | hleading := @level_eq_zero_or_le_significandAt double place
  · rw [exponentAt, hlowest, exponentAt_single, show double.leastExponent = -1074 by decide]
    omega
  · have hsize : (2 : ℚ) ^ (52 + double.exponentAt place) ≤ double.point place := by
      rw [zpow_add₀ two_ne_zero, point]
      refine mul_le_mul_of_nonneg_right ?_ (two_zpow_pos _).le
      exact_mod_cast hleading
    have hbound : single.bound (magnitude + 1) < 2 ^ (single.exponentAt magnitude + 24) := by
      have hsplit : single.exponentAt magnitude + 24 = 25 + (single.exponentAt magnitude - 1) := by
        ring
      rw [bound_succ_eq_mul, hsplit, zpow_add₀ two_ne_zero]
      refine mul_lt_mul_of_pos_right ?_ (two_zpow_pos _)
      exact_mod_cast significandAt_single_lt magnitude
    have hcell := (point_double_mem_cell hsingle hdouble).2
    have hpowers := (zpow_lt_zpow_iff_right₀ one_lt_two).mp (hsize.trans_lt (hcell.trans_lt hbound))
    omega

/-- The double nearest to a number near a 32-bit value is nearer to it, by the difference of the
    precisions, than half a last place of that value. -/
theorem nearness_mul_abs_sub_le :
    nearness * |number - double.point place| ≤ 2 ^ (single.exponentAt magnitude - 1) := by
  have hexponent := exponentAt_double_le hsingle hdouble
  have hclose := hdouble.abs_sub_point_le
  have hnearness : (nearness : ℚ) = 2 ^ (29 : ℤ) := by
    rw [show nearness = 536870912 from rfl]
    norm_num
  have hpositive : (0 : ℚ) ≤ 2 ^ (29 : ℤ) := (two_zpow_pos 29).le
  rw [hnearness]
  refine (mul_le_mul_of_nonneg_left hclose hpositive).trans ?_
  rw [← zpow_add₀ two_ne_zero]
  exact zpow_le_zpow_right₀ one_le_two (by omega)

end Narrowed

section Odd

variable {magnitude : Nat} (hodd : Odd magnitude)
include hodd

/-- A decimal near a middle lies on a grid of nearly a last place: on a finer one a point nearer to
    the value would have been taken. -/
theorem OnGrid.le_spacing {number middle : ℚ} {place : ℤ}
    (hgrid : OnGrid single number place magnitude)
    (hmiddle : middle = single.bound magnitude ∨ middle = single.bound (magnitude + 1))
    (hnear : nearness * |number - middle| ≤ 2 ^ (single.exponentAt magnitude - 1)) :
    ((nearness - 1 : Nat) : ℚ) * 2 ^ single.exponentAt magnitude ≤ nearness * 10 ^ place := by
  obtain ⟨-, hbelow, habove⟩ := hgrid
  have hunit := two_zpow_pos (single.exponentAt magnitude - 1)
  have hlow := le_abs_self (number - middle)
  have hhigh := neg_abs_le (number - middle)
  rw [bound_succ_eq_add] at hbelow hmiddle
  rw [bound_of_odd_eq_sub regular_single hodd] at habove hmiddle
  rw [two_zpow_eq_double (single.exponentAt magnitude)]
  rw [show nearness - 1 = 536870911 from rfl, show nearness = 536870912 from rfl] at *
  push_cast at *
  obtain rfl | rfl := hmiddle
  · obtain hclose | hout := hbelow (by linarith)
    · linarith
    · linarith
  · obtain hclose | hout := habove (by linarith)
    · linarith
    · linarith

/-- The middles of an odd magnitude are odd numbers of halves of its last place. -/
theorem exists_odd_eq_middle {middle : ℚ}
    (hmiddle : middle = single.bound magnitude ∨ middle = single.bound (magnitude + 1)) :
    ∃ n, Odd n ∧ n < 2 * coefficientLimit ∧
      middle = n * 2 ^ (single.exponentAt magnitude - 1) ∧
      (n = 2 * (single.significandAt magnitude - 1) + 1 ∨
        n = 2 * single.significandAt magnitude + 1) := by
  have hlt := significandAt_single_lt magnitude
  have hlimit : 2 * coefficientLimit = 33554432 := rfl
  obtain hlow | hhigh := hmiddle
  · exact ⟨_, odd_two_mul_add_one _, by omega,
      hlow.trans (bound_of_odd_eq_mul regular_single hodd), .inl rfl⟩
  · exact ⟨_, odd_two_mul_add_one _, by omega, hhigh.trans (bound_succ_eq_mul magnitude), .inr rfl⟩

/-- The one middle belongs to the one magnitude. -/
theorem eq_besideHalfway {n : Nat} (hexponent : single.exponentAt magnitude = halfwayExponent)
    (hhalves : n = halfwayNum) (hn : n = 2 * (single.significandAt magnitude - 1) + 1 ∨
      n = 2 * single.significandAt magnitude + 1) : magnitude = besideHalfway := by
  obtain ⟨half, hhalf⟩ := odd_significandAt regular_single hodd
  rw [exponentAt_single, halfwayExponent] at hexponent
  rw [halfwayNum] at hhalves
  have hlevel : single.level magnitude = 42 := by omega
  have hsignificand : single.significandAt magnitude = 11420669 := by omega
  have hsum : single.level magnitude * single.leadingWeight + single.significandAt magnitude =
      magnitude := level_add_significandAt magnitude
  rw [← hsum, hlevel, hsignificand]
  rfl

end Odd

/-- The double that the shortest decimal of a finite 32-bit value denotes rounds to the value, but
    for one magnitude. -/
theorem roundsTo_point_double {magnitude place : Nat} {number : ℚ}
    (hlt : magnitude < single.infinity) (hbeside : magnitude ≠ besideHalfway)
    (hsingle : single.RoundsTo number magnitude) (hdouble : double.RoundsTo number place)
    (hgrid : number = single.point magnitude ∨
      ∃ exponent, OnGrid single number exponent magnitude) :
    single.RoundsTo (double.point place) magnitude := by
  obtain ⟨hlow, hhigh⟩ := point_double_mem_cell hsingle hdouble
  obtain heven | hodd := Nat.even_or_odd magnitude
  · exact ⟨hlow, hhigh, fun _ => heven⟩
  -- An odd magnitude loses the ends of its cell to its neighbours, so the double may not be one.
  refine ⟨hlow, hhigh, fun hmiddle => absurd ?_ hbeside⟩
  have hunit := two_zpow_pos (single.exponentAt magnitude - 1)
  have hnear := nearness_mul_abs_sub_le hsingle hdouble
  have hpos : 0 < number :=
    (bound_strictMono hodd.pos : single.bound 0 < single.bound magnitude).trans_le hsingle.bound_le
  have hne : number ≠ double.point place := fun hsame => by
    rw [← hsame] at hmiddle
    exact Nat.not_even_iff_odd.mpr hodd (hsingle.even hmiddle)
  obtain ⟨n, hnOdd, hnLt, hn, hcases⟩ := exists_odd_eq_middle hodd hmiddle
  obtain hexact | ⟨exponent, honGrid⟩ := hgrid
  · -- The value itself is half a last place away from both of its middles.
    have hdistance : |number - double.point place| = 2 ^ (single.exponentAt magnitude - 1) := by
      rw [bound_succ_eq_add, bound_of_odd_eq_sub regular_single hodd] at hmiddle
      obtain hbelow | habove := hmiddle
      · rw [hexact, hbelow, sub_sub_cancel, abs_of_pos hunit]
      · rw [hexact, habove, sub_add_cancel_left, abs_neg, abs_of_pos hunit]
    rw [hdistance, show nearness = 536870912 from rfl] at hnear
    push_cast at hnear
    linarith
  · have hspacing := honGrid.le_spacing hodd hmiddle hnear
    rw [hn] at hne hnear
    have hapart : Apart (single.exponentAt magnitude) :=
      apart_level _ (level_lt_of_lt_infinity hlt)
    obtain ⟨hexponent, hhalves⟩ := eq_of_near_middle hapart hpos hnOdd hnLt hnear honGrid.multiple
      hspacing hne
    exact eq_besideHalfway hodd hexponent hhalves hcases

end InterpreterCore.Binary

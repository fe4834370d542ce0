import InterpreterCore.Decimal.Shortest
import InterpreterCore.Proofs.Decimal.Value

namespace InterpreterCore.Binary

open Format

variable {format : Format} {x : Binary format}

/-- The quotient of a value is its size. -/
theorem ratio_div (x : Binary format) : (x.ratio.1 : ℚ) / x.ratio.2 = format.point x.magnitude := by
  have hpower := zpow_eq_div two_pos x.exponent
  rw [Nat.cast_ofNat] at hpower
  rw [ratio, Nat.cast_mul, mul_div_assoc, ← hpower]
  rfl

theorem ratio_pos (x : Binary format) : 0 < x.ratio.2 := Nat.pow_pos two_pos

/-- The exact decimal of a value has the number of the value. -/
theorem value_exactDecimal (x : Binary format) :
    x.exactDecimal.value = format.point x.magnitude := by
  have hpoint : format.point x.magnitude = x.significand * 2 ^ x.exponent := rfl
  rw [Decimal.value, exactDecimal, hpoint]
  obtain hneg | hnonneg := Int.lt_or_le x.exponent 0
  · have hplaces : x.exponent = -((-x.exponent).toNat : ℤ) := by omega
    have hzero : x.exponent.toNat = 0 := by omega
    have hten : (10 : ℚ) ^ x.exponent * 5 ^ (-x.exponent).toNat = 2 ^ x.exponent := by
      rw [Decimal.ten_zpow, mul_assoc, ← zpow_natCast (5 : ℚ), ← zpow_add₀ (by norm_num),
        Int.toNat_of_nonneg (by omega), add_neg_cancel, zpow_zero, mul_one]
    rw [min_eq_left hneg.le, hzero, ← hten]
    simp only [Nat.pow_eq]
    push_cast
    ring
  · have hzero : (-x.exponent).toNat = 0 := by omega
    have hpower : (2 : ℚ) ^ x.exponent = 2 ^ x.exponent.toNat := by
      rw [← zpow_natCast, Int.toNat_of_nonneg hnonneg]
    rw [min_eq_right hnonneg, hzero, hpower]
    simp only [Nat.pow_eq]
    push_cast
    ring

/-- A multiple of a power of ten in the cell of a magnitude. The next multiple toward the point of
    the magnitude is no nearer to the point, or it is beyond the point and outside the cell. -/
structure OnGrid (format : Format) (number : ℚ) (exponent : ℤ) (magnitude : Nat) : Prop where
  multiple : ∃ coefficient : Nat, number = coefficient * 10 ^ exponent
  below : number < format.point magnitude → 2 * (format.point magnitude - number) ≤ 10 ^ exponent ∨
    format.bound (magnitude + 1) ≤ number + 10 ^ exponent
  above : format.point magnitude < number → 2 * (number - format.point magnitude) ≤ 10 ^ exponent ∨
    number - 10 ^ exponent ≤ format.bound magnitude

section Neighbours

variable {magnitude whole : Nat} {part : ℚ} {exponent : ℤ}
  (hpoint : format.point magnitude = (whole + part) * 10 ^ exponent)
include hpoint

/-- The grid point before a value may stand for it unless the next one is nearer and does too. -/
theorem OnGrid.before (hnonneg : 0 ≤ part) (hlt : part < 1)
    (hother : format.RoundsTo ((whole + 1 : Nat) * 10 ^ exponent) magnitude → 2 * part ≤ 1) :
    OnGrid format (whole * 10 ^ exponent) exponent magnitude := by
  have hten := Decimal.ten_zpow_pos exponent
  have hgap : 0 ≤ part * 10 ^ exponent := mul_nonneg hnonneg hten.le
  have hrest : 0 < (1 - part) * 10 ^ exponent := mul_pos (sub_pos.mpr hlt) hten
  have hnext : ((whole + 1 : Nat) : ℚ) * 10 ^ exponent = whole * 10 ^ exponent + 10 ^ exponent := by
    push_cast
    ring
  refine ⟨⟨whole, rfl⟩, fun _ => ?_, fun habove => ?_⟩
  · by_cases hreads : format.RoundsTo ((whole + 1 : Nat) * 10 ^ exponent) magnitude
    · have hnear := mul_le_mul_of_nonneg_right (hother hreads) hten.le
      exact .inl (by rw [hpoint]; linarith)
    · have hout := RoundsTo.bound_le_of_not hreads
        ((bound_le_point magnitude).trans_lt (by rw [hpoint, hnext]; linarith))
      exact .inr (by rwa [hnext] at hout)
  · rw [hpoint] at habove
    linarith

/-- The grid point after a value may stand for it unless the one before is nearer and does too. -/
theorem OnGrid.after (hnonneg : 0 ≤ part) (hlt : part < 1)
    (hother : format.RoundsTo (whole * 10 ^ exponent) magnitude → 1 ≤ 2 * part) :
    OnGrid format ((whole + 1 : Nat) * 10 ^ exponent) exponent magnitude := by
  have hten := Decimal.ten_zpow_pos exponent
  have hgap : 0 ≤ part * 10 ^ exponent := mul_nonneg hnonneg hten.le
  have hrest : 0 < (1 - part) * 10 ^ exponent := mul_pos (sub_pos.mpr hlt) hten
  have hnext : ((whole + 1 : Nat) : ℚ) * 10 ^ exponent = whole * 10 ^ exponent + 10 ^ exponent := by
    push_cast
    ring
  refine ⟨⟨whole + 1, rfl⟩, fun hbelow => ?_, fun _ => ?_⟩
  · rw [hpoint, hnext] at hbelow
    linarith
  · by_cases hreads : format.RoundsTo (whole * 10 ^ exponent) magnitude
    · have hnear := mul_le_mul_of_nonneg_right (hother hreads) hten.le
      exact .inl (by rw [hpoint, hnext]; linarith)
    · have hout := RoundsTo.le_bound_of_not hreads
        (lt_of_le_of_lt (by rw [hpoint]; linarith) (point_lt_bound_succ magnitude))
      exact .inr (by rw [hnext]; linarith)

end Neighbours

section Finite

variable (hformat : format.Regular) (hfinite : x.isFinite = true)
include hformat hfinite

/-- A decimal denotes a finite value when its number is in the value's cell. -/
theorem readsBack_iff (d : Decimal) :
    x.readsBack d = true ↔ format.RoundsTo d.value x.magnitude := by
  obtain ⟨magnitude, hrounds⟩ := exists_roundsTo hformat d.value_nonneg
  rw [readsBack, d.toBinary_eq_saturating hformat x.negative hrounds, beq_iff_eq,
    saturating_eq_iff hfinite]
  constructor
  · rintro ⟨-, rfl⟩
    exact hrounds
  · exact fun h => ⟨rfl, hrounds.unique h⟩

/-- What is found on a grid is one of its two points around the value. It rounds to the value, and
    it is the nearer one unless the other does not. -/
theorem shortestOnGrid?_spec {exponent : ℤ} {d : Decimal}
    (hfound : x.shortestOnGrid? exponent = some d) :
    format.RoundsTo d.value x.magnitude ∧ OnGrid format d.value exponent x.magnitude := by
  have hten := Decimal.ten_zpow_pos exponent
  have hscaled : ((x.ratio.1 * Nat.pow 10 (-exponent).toNat : Nat) : ℚ) /
      (x.ratio.2 * Nat.pow 10 exponent.toNat : Nat) = format.point x.magnitude / 10 ^ exponent := by
    rw [← x.ratio_div]
    exact_mod_cast scaled_div (by decide) x.ratio.1 x.ratio.2 exponent
  have hden : 0 < x.ratio.2 * Nat.pow 10 exponent.toNat :=
    mul_pow_pos x.ratio_pos (by decide) exponent.toNat
  rw [shortestOnGrid?] at hfound
  generalize x.ratio.1 * Nat.pow 10 (-exponent).toNat = num at hfound hscaled
  generalize x.ratio.2 * Nat.pow 10 exponent.toNat = den at hfound hscaled hden
  obtain ⟨hdivision, hnonneg, hlt⟩ := div_eq_whole_add_part num hden
  have hhalf : den ≤ 2 * (num % den) ↔ (1 : ℚ) ≤ 2 * (((num % den : Nat) : ℚ) / den) := by
    rw [← mul_div_assoc, one_le_div (Nat.cast_pos.mpr hden)]
    exact_mod_cast Iff.rfl
  generalize num / den = whole at hfound hdivision
  generalize ((num % den : Nat) : ℚ) / den = part at hdivision hnonneg hlt hhalf
  have hpoint : format.point x.magnitude = (whole + part) * 10 ^ exponent := by
    rw [← hdivision, hscaled, div_mul_cancel₀ _ hten.ne']
  split at hfound
  · rename_i hreads
    rw [readsBack_iff hformat hfinite] at hreads
    split at hfound
    · rename_i hnearer
      rw [Bool.and_eq_true, readsBack_iff hformat hfinite, decide_eq_true_eq, hhalf] at hnearer
      obtain rfl := Option.some.inj hfound
      exact ⟨hnearer.1, .after hpoint hnonneg hlt fun _ => hnearer.2⟩
    · rename_i hnearer
      rw [Bool.and_eq_true, readsBack_iff hformat hfinite, decide_eq_true_eq, hhalf] at hnearer
      obtain rfl := Option.some.inj hfound
      exact ⟨hreads, .before hpoint hnonneg hlt fun hother =>
        (not_le.mp fun hhigh => hnearer ⟨hother, hhigh⟩).le⟩
  · rename_i hreads
    rw [readsBack_iff hformat hfinite] at hreads
    split at hfound
    · rename_i hother
      rw [readsBack_iff hformat hfinite] at hother
      obtain rfl := Option.some.inj hfound
      exact ⟨hother, .after hpoint hnonneg hlt fun hbefore => absurd hbefore hreads⟩
    · cases hfound

/-- The shortest decimal rounds to the value. It is the value or lies on the grid of a power of
    ten. -/
theorem value_shortest :
    format.RoundsTo x.shortest.value x.magnitude ∧
      (x.shortest.value = format.point x.magnitude ∨
        ∃ exponent, OnGrid format x.shortest.value exponent x.magnitude) := by
  rw [shortest, Decimal.value_strip]
  cases hfound : (List.range (digitLimit format)).findSome? fun count =>
    x.shortestOnGrid? (decimalScale x.ratio.1 x.ratio.2 - (count + 1 : Nat)) with
  | none =>
    have hexact := x.value_exactDecimal
    rw [Option.getD_none, hexact]
    exact ⟨.point x.magnitude, .inl rfl⟩
  | some d =>
    obtain ⟨count, -, hgrid⟩ := List.exists_of_findSome?_eq_some hfound
    obtain ⟨hrounds, honGrid⟩ := shortestOnGrid?_spec hformat hfinite hgrid
    rw [Option.getD_some]
    exact ⟨hrounds, .inr ⟨_, honGrid⟩⟩

end Finite

end InterpreterCore.Binary

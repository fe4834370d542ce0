import InterpreterCore.Binary.Basic

namespace InterpreterCore.Binary

variable {format : Format}

/-- A value is determined by its bits. -/
theorem ofBits_toBits (x : Binary format) : ofBits format x.toBits = x := by
  obtain ⟨negative, magnitude, hlt⟩ := x
  have hpos : 0 < format.magnitudes := Nat.lt_of_le_of_lt (Nat.zero_le _) hlt
  cases negative
  · simp [ofBits, toBits, Nat.div_eq_of_lt hlt, Nat.mod_eq_of_lt hlt]
  · simp [ofBits, toBits, Nat.add_div_left _ hpos, Nat.div_eq_of_lt hlt, Nat.mod_eq_of_lt hlt]

/-- Every pattern of the format's width is the pattern of a value. -/
theorem toBits_ofBits {bits : Nat} (hbits : bits < 2 * format.magnitudes) :
    (ofBits format bits).toBits = bits := by
  have hdiv : bits / format.magnitudes < 2 := Nat.div_lt_of_lt_mul (Nat.mul_comm 2 _ ▸ hbits)
  have hmod := Nat.div_add_mod bits format.magnitudes
  simp only [toBits, ofBits, Nat.mod_eq_of_lt hdiv]
  rcases Nat.le_one_iff_eq_zero_or_eq_one.mp (Nat.le_of_lt_succ hdiv) with hzero | hone
  · rw [hzero] at hmod ⊢
    simpa using hmod
  · rw [hone] at hmod ⊢
    simpa using hmod

/-- A value is exactly one of finite, infinite and not a number. -/
theorem isFinite_eq (x : Binary format) : x.isFinite = (!x.isInfinite && !x.isNaN) := by
  simp only [isFinite, isInfinite, isNaN]
  rcases Nat.lt_trichotomy x.magnitude format.infinity with hlt | heq | hgt
  · simp [hlt, Nat.ne_of_lt hlt, Nat.le_of_lt hlt]
  · simp [heq]
  · simp [Nat.lt_asymm hgt, hgt]

theorem toBits_lt (x : Binary format) : x.toBits < 2 * format.magnitudes := by
  have hlt := x.magnitude_lt
  simp only [toBits]
  split <;> omega

end InterpreterCore.Binary

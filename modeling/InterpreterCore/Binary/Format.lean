namespace InterpreterCore

/-- A binary interchange format: the number of significant binary digits, the leading one
    included, and the width of the exponent field. -/
structure Binary.Format where
  precision : Nat
  exponentBits : Nat
deriving DecidableEq

namespace Binary.Format

/-- The 32-bit format. -/
def single : Format := ⟨24, 8⟩

/-- The 64-bit format. -/
def double : Format := ⟨53, 11⟩

/-- Weight of the leading digit of a full significand, which is also the number of values that
    share one exponent field. -/
def leadingWeight (format : Format) : Nat := Nat.pow 2 (format.precision - 1)

/-- Number of magnitudes: the bit patterns that remain when the sign bit is dropped. -/
def magnitudes (format : Format) : Nat := Nat.pow 2 format.exponentBits * format.leadingWeight

/-- Magnitude of the infinities. Smaller magnitudes are finite, larger ones are not numbers. -/
def infinity (format : Format) : Nat := (Nat.pow 2 format.exponentBits - 1) * format.leadingWeight

/-- Binary exponent of the last place of the values nearest to zero. -/
def leastExponent (format : Format) : Int :=
  3 - (Nat.pow 2 (format.exponentBits - 1) : Int) - (format.precision : Int)

/-- Binary exponent from which on a power of two is too large to be finite. -/
def overflowExponent (format : Format) : Nat := Nat.pow 2 (format.exponentBits - 1)

theorem leadingWeight_pos (format : Format) : 0 < format.leadingWeight :=
  Nat.two_pow_pos _

theorem infinity_lt_magnitudes (format : Format) : format.infinity < format.magnitudes :=
  Nat.mul_lt_mul_of_pos_right (Nat.sub_lt (Nat.two_pow_pos _) Nat.one_pos) format.leadingWeight_pos

end Binary.Format

end InterpreterCore

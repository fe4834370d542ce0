import InterpreterCore.Text.Blank
import InterpreterCore.Text.Digits
import Mathlib.Algebra.Order.Group.Nat
import Mathlib.Tactic.IntervalCases
import Mathlib.Tactic.Ring

namespace InterpreterCore.Text

/-- Decimal digits and nothing else. -/
def Numeral (digits : List Char) : Prop := ∀ c ∈ digits, c.isDigit = true

theorem numeral_toDigits (n : Nat) : Numeral (Nat.toDigits 10 n) := fun _ hc =>
  Nat.isDigit_of_mem_toDigits (by decide) le_rfl hc

theorem numeral_replicate_zero (count : Nat) : Numeral (List.replicate count '0') := by
  intro c hc
  rw [List.eq_of_mem_replicate hc]
  decide

theorem Numeral.append {first second : List Char} (hfirst : Numeral first)
    (hsecond : Numeral second) : Numeral (first ++ second) := fun c hc =>
  (List.mem_append.mp hc).elim (hfirst c) (hsecond c)

theorem Numeral.take {digits : List Char} (hdigits : Numeral digits) (count : Nat) :
    Numeral (digits.take count) := fun c hc => hdigits c (List.mem_of_mem_take hc)

theorem Numeral.drop {digits : List Char} (hdigits : Numeral digits) (count : Nat) :
    Numeral (digits.drop count) := fun c hc => hdigits c (List.mem_of_mem_drop hc)

theorem toDigits_ne_nil (n : Nat) : Nat.toDigits 10 n ≠ [] :=
  List.length_pos_iff.mp Nat.length_toDigits_pos

theorem digitValue_digitChar {n : Nat} (hn : n < 10) : digitValue n.digitChar = n := by
  interval_cases n <;> rfl

/-- The digits are ten. -/
theorem exists_eq_digitChar {c : Char} (hdigit : c.isDigit = true) :
    ∃ n < 10, c = Nat.digitChar n := by
  rw [Char.isDigit, Bool.and_eq_true, decide_eq_true_eq, decide_eq_true_eq] at hdigit
  have hlow : 48 ≤ c.toNat := UInt32.le_iff_toNat_le.mp hdigit.1
  have hhigh : c.toNat ≤ 57 := UInt32.le_iff_toNat_le.mp hdigit.2
  refine ⟨c.toNat - 48, by omega, Char.toNat_inj.mp ?_⟩
  generalize c.toNat = code at hlow hhigh ⊢
  interval_cases code <;> rfl

theorem isBlank_of_isDigit {c : Char} (hdigit : c.isDigit = true) : isBlank c = false := by
  obtain ⟨n, hn, rfl⟩ := exists_eq_digitChar hdigit
  interval_cases n <;> rfl

/-- Digits have no letter case. -/
theorem toLower_of_isDigit {c : Char} (hdigit : c.isDigit = true) : c.toLower = c := by
  obtain ⟨n, hn, rfl⟩ := exists_eq_digitChar hdigit
  interval_cases n <;> rfl

/-- The digits of a number spell it. -/
theorem spelled_toDigits (n : Nat) : spelled 0 (Nat.toDigits 10 n) = n := by
  induction n using Nat.strong_induction_on with
  | _ n ih =>
    rw [Nat.toDigits_eq_if (by decide)]
    split
    · rename_i hdigit
      simp only [spelled, List.foldl_cons, List.foldl_nil, Nat.zero_mul, Nat.zero_add,
        digitValue_digitChar hdigit]
    · rename_i hlarge
      have hlast : digitValue (n % 10).digitChar = n % 10 :=
        digitValue_digitChar (Nat.mod_lt n (by decide))
      have hhead := ih (n / 10) (by omega)
      rw [spelled] at hhead
      rw [spelled, List.foldl_append, hhead, List.foldl_cons, List.foldl_nil, hlast]
      omega

theorem spelled_replicate_zero (count : Nat) : spelled 0 (List.replicate count '0') = 0 := by
  induction count with
  | zero => rfl
  | succ count ih => rwa [List.replicate_succ, spelled, List.foldl_cons]

/-- Zeros after digits move them to higher places. -/
theorem spelled_append_zeros (digits : List Char) (count : Nat) :
    spelled 0 (digits ++ List.replicate count '0') = spelled 0 digits * 10 ^ count := by
  rw [spelled_append, spelled_replicate_zero, List.length_replicate, Nat.add_zero, Nat.pow_eq]

/-- Zeros before digits change nothing. -/
theorem spelled_zeros_append (count : Nat) (digits : List Char) :
    spelled 0 (List.replicate count '0' ++ digits) = spelled 0 digits := by
  rw [spelled_append, spelled_replicate_zero, Nat.zero_mul, Nat.zero_add]

/-- Digits spell no less than the number before them. -/
theorem le_spelled (before : Nat) (digits : List Char) : before ≤ spelled before digits := by
  rw [spelled_eq, Nat.pow_eq]
  exact Nat.le_add_right_of_le (Nat.le_mul_of_pos_right before (Nat.pow_pos (by decide)))

section Span

variable {digits tail : List Char} (hdigits : Numeral digits)
  (htail : ∀ c ∈ tail.head?, c.isDigit = false)
include hdigits htail

/-- Digits are taken up to the first other character. -/
theorem takeWhile_numeral_append : (digits ++ tail).takeWhile Char.isDigit = digits := by
  rw [List.takeWhile_append_of_pos hdigits]
  cases tail with
  | nil => exact List.append_nil digits
  | cons c rest => rw [List.takeWhile_cons_of_neg (by rw [htail c rfl]; decide), List.append_nil]

theorem dropWhile_numeral_append : (digits ++ tail).dropWhile Char.isDigit = tail := by
  rw [List.dropWhile_append_of_pos hdigits]
  cases tail with
  | nil => rfl
  | cons c rest => rw [List.dropWhile_cons_of_neg (by rw [htail c rfl]; decide)]

end Span

theorem Numeral.unblank {digits : List Char} (hdigits : Numeral digits) :
    ∀ c ∈ digits, isBlank c = false := fun c hc => isBlank_of_isDigit (hdigits c hc)

/-- A text that starts with a digit and has no blanks. -/
structure Figure (text : List Char) : Prop where
  starts : ∃ first rest, text = first :: rest ∧ first.isDigit = true
  unblank : ∀ c ∈ text, isBlank c = false

theorem Numeral.figure {digits : List Char} (hdigits : Numeral digits) (hsome : digits ≠ []) :
    Figure digits := by
  obtain ⟨first, rest, rfl⟩ := List.exists_cons_of_ne_nil hsome
  exact ⟨⟨first, rest, rfl, hdigits first List.mem_cons_self⟩, hdigits.unblank⟩

theorem Figure.append {text tail : List Char} (htext : Figure text)
    (htail : ∀ c ∈ tail, isBlank c = false) : Figure (text ++ tail) := by
  obtain ⟨⟨first, rest, rfl, hfirst⟩, hunblank⟩ := htext
  exact ⟨⟨first, rest ++ tail, rfl, hfirst⟩, List.forall_mem_append.mpr ⟨hunblank, htail⟩⟩

/-- A sign is split off from nothing that starts with a digit. -/
theorem splitSign_of_isDigit {c : Char} (hdigit : c.isDigit = true) (rest : List Char) :
    splitSign (c :: rest) = (false, c :: rest) := by
  rw [splitSign]
  · rintro rest' ⟨rfl, -⟩
    exact absurd hdigit (by decide)
  · rintro rest' ⟨rfl, -⟩
    exact absurd hdigit (by decide)

theorem splitSign_of_numeral {digits : List Char} (hdigits : Numeral digits) :
    splitSign digits = (false, digits) := by
  cases digits with
  | nil => rfl
  | cons c rest => exact splitSign_of_isDigit (hdigits c List.mem_cons_self) rest

/-- A text without blanks is not trimmed. -/
theorem trim_eq_self {text : List Char} (htext : ∀ c ∈ text, isBlank c = false) :
    trim text = text := by
  have hkept : ∀ chars : List Char, (∀ c ∈ chars, isBlank c = false) →
      chars.dropWhile isBlank = chars := by
    intro chars hchars
    cases chars with
    | nil => rfl
    | cons c rest =>
      exact List.dropWhile_cons_of_neg (by rw [hchars c List.mem_cons_self]; decide)
  rw [trim, hkept text htext, hkept text.reverse fun c hc => htext c (List.mem_reverse.mp hc),
    List.reverse_reverse]

end InterpreterCore.Text

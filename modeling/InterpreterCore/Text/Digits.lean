namespace InterpreterCore.Text

/-- A sign in front of a text, if there is one, and what follows it. -/
def splitSign : List Char → Bool × List Char
  | '-' :: rest => (true, rest)
  | '+' :: rest => (false, rest)
  | text => (false, text)

/-- The number that one decimal digit stands for. -/
def digitValue (c : Char) : Nat := c.toNat - '0'.toNat

/-- The number that decimal digits spell, taken digit by digit after the number before them. -/
def spelled (before : Nat) (digits : List Char) : Nat :=
  digits.foldl (fun value c => value * 10 + digitValue c) before

/-- The number that decimal digits spell, with the digits halved the given number of times before
    they are taken one by one. -/
def spelledByHalves : Nat → List Char → Nat
  | 0, digits => spelled 0 digits
  | depth + 1, digits =>
    let half := digits.length / 2
    spelledByHalves depth (digits.take half) * Nat.pow 10 (digits.length - half) +
      spelledByHalves depth (digits.drop half)

/-- The number that decimal digits spell. A short run is taken digit by digit; a long one is halved
    down to short ones, because products of numbers of one length cost the least. -/
def digitsValue (digits : List Char) : Nat :=
  spelledByHalves (digits.length.log2 - 6) digits

theorem spelled_eq (before : Nat) (digits : List Char) :
    spelled before digits = before * Nat.pow 10 digits.length + spelled 0 digits := by
  induction digits generalizing before with
  | nil => simp [spelled]
  | cons c rest ih =>
    have hbefore := ih (before * 10 + digitValue c)
    have hzero := ih (0 * 10 + digitValue c)
    simp only [spelled, List.foldl_cons, List.length_cons] at hbefore hzero ⊢
    have hpower : Nat.pow 10 (rest.length + 1) = Nat.pow 10 rest.length * 10 := rfl
    rw [hbefore, hzero, hpower]
    simp only [Nat.add_mul, Nat.zero_mul, Nat.zero_add, Nat.mul_assoc, Nat.mul_comm 10]
    omega

theorem spelled_append (first second : List Char) :
    spelled 0 (first ++ second) =
      spelled 0 first * Nat.pow 10 second.length + spelled 0 second := by
  rw [← spelled_eq (spelled 0 first) second]
  simp only [spelled, List.foldl_append]

theorem spelledByHalves_eq (depth : Nat) (digits : List Char) :
    spelledByHalves depth digits = spelled 0 digits := by
  induction depth generalizing digits with
  | zero => rfl
  | succ depth ih =>
    have hparts := spelled_append (digits.take (digits.length / 2)) (digits.drop (digits.length / 2))
    rw [List.take_append_drop, List.length_drop] at hparts
    simp only [spelledByHalves, ih, hparts]

/-- Halving changes the cost and not the number. -/
theorem digitsValue_eq (digits : List Char) : digitsValue digits = spelled 0 digits :=
  spelledByHalves_eq _ digits

end InterpreterCore.Text

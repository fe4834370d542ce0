namespace InterpreterCore.Integer

/-- The word that stands for a whole number, if the number is in range. The integers of the
    interpreted language never wrap. -/
def ofInt? (n : Int) : Option Int64 :=
  if -9223372036854775808 ≤ n ∧ n < 9223372036854775808 then some (Int64.ofInt n) else none

end InterpreterCore.Integer

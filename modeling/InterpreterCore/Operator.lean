namespace InterpreterCore

/-- Operators that join two truth values. -/
inductive Connective where
  | or
  | and
deriving DecidableEq

/-- Operators that combine two numbers. -/
inductive Arithmetic where
  | add
  | sub
  | mul
  | div
  | mod
deriving DecidableEq

/-- Operators that ask how two values compare. -/
inductive Relation where
  | eq
  | ne
  | lt
  | le
  | gt
  | ge
deriving DecidableEq

/-- An operator between two operands. -/
inductive BinaryOp where
  | connective (op : Connective)
  | arithmetic (op : Arithmetic)
  | relation (op : Relation)
deriving DecidableEq

/-- An operator in front of one operand. -/
inductive UnaryOp where
  | not
  | plus
  | neg
deriving DecidableEq

/-- How an operator is spelled in source text. -/
def BinaryOp.symbol : BinaryOp → String
  | connective .or => "or"
  | connective .and => "and"
  | arithmetic .add => "+"
  | arithmetic .sub => "-"
  | arithmetic .mul => "*"
  | arithmetic .div => "/"
  | arithmetic .mod => "%"
  | relation .eq => "=="
  | relation .ne => "!="
  | relation .lt => "<"
  | relation .le => "<="
  | relation .gt => ">"
  | relation .ge => ">="

/-- Whether an operator belongs to those that compare. -/
def BinaryOp.isRelation : BinaryOp → Bool
  | relation _ => true
  | _ => false

/-- All operators between two operands, connectives first and relations last. -/
def BinaryOp.all : List BinaryOp :=
  [connective .or, connective .and,
   arithmetic .add, arithmetic .sub, arithmetic .mul, arithmetic .div, arithmetic .mod,
   relation .eq, relation .ne, relation .lt, relation .le, relation .gt, relation .ge]

/-- The operator between two operands that a text spells. -/
def BinaryOp.ofSymbol? (text : String) : Option BinaryOp :=
  all.find? fun op => op.symbol == text

/-- How an operator is spelled in source text. -/
def UnaryOp.symbol : UnaryOp → String
  | not => "not"
  | plus => "+"
  | neg => "-"

/-- The operator in front of an operand that a text spells. -/
def UnaryOp.ofSymbol? (text : String) : Option UnaryOp :=
  [not, plus, neg].find? fun op => op.symbol == text

/-- Whether a relation holds of two values that compare in the given way. -/
def Relation.holds : Relation → Ordering → Bool
  | eq, order => order.isEq
  | ne, order => order.isNe
  | lt, order => order.isLT
  | le, order => order.isLE
  | gt, order => order.isGT
  | ge, order => order.isGE

end InterpreterCore

import InterpreterCore.Value.Coercion
import InterpreterCore.Value.Numeric

namespace InterpreterCore.Value

/-- The order of two values. Truth values and strings are compared with what the right value
    counts as among them, numbers with numbers, and objects with nothing. -/
def compare (l r : Value) : Outcome Ordering :=
  match l.datum with
  | .boolean a => r.toBoolean.map fun b => Ord.compare a b
  | .string a => r.toText.map fun b => Ord.compare a b
  | .object _ => unordered
  | .integer _ | .float _ | .double _ =>
    match l.datum.numeric?, r.datum.numeric? with
    | some a, some b =>
      match (a.promote b).compare? with
      | some order => .ok order
      | none => unordered
    | _, _ => unordered
where
  unordered : Outcome Ordering := .error (.notComparable l.kind.name r.kind.name)

/-- Whether two values are equal. Objects are equal when they are one instance, and are never
    equal to anything else. -/
def isEqualTo (l r : Value) : Outcome Bool :=
  match l.datum, r.datum with
  | .object a, .object b => .ok (a.same b)
  | .object _, _ | _, .object _ => .ok false
  | _, _ => (l.compare r).map Ordering.isEq

/-- A connective needs a truth value on the left and something that counts as one on the right,
    which is coerced whatever the left one is. -/
def connect (op : Connective) (l r : Value) : Outcome Value :=
  match l.datum with
  | .boolean a => r.toBoolean.map fun b => boolean (match op with | .or => a || b | .and => a && b)
  | _ => .error (.invalidBinaryOp l.kind.name (.connective op))

/-- Arithmetic on two values that are numbers. -/
def calculate (op : Arithmetic) (l r : Value) : Outcome Value :=
  match l.datum.numeric?, r.datum.numeric? with
  | none, _ => .error (.invalidBinaryOp l.kind.name (.arithmetic op))
  | some _, none => .error (.binaryTypeMismatch l.kind.name r.kind.name (.arithmetic op))
  | some a, some b => (op.onPair (a.promote b)).map Numeric.toValue

/-- Addition, or concatenation to a string of what the right value counts as. -/
def add (l r : Value) : Outcome Value :=
  match l.datum with
  | .string a => r.toText.map fun b => string (a ++ b)
  | _ => calculate .add l r

/-- A relation between two values. Equality and its opposite also hold or fail of objects. -/
def relate (op : Relation) (l r : Value) : Outcome Value :=
  match op with
  | .eq => (l.isEqualTo r).map boolean
  | .ne => (l.isEqualTo r).map fun equal => boolean (!equal)
  | op => (l.compare r).map fun order => boolean (op.holds order)

/-- The value of an operator between two operands. -/
def binary (op : BinaryOp) (l r : Value) : Outcome Value :=
  match op with
  | .connective op => connect op l r
  | .arithmetic .add => add l r
  | .arithmetic op => calculate op l r
  | .relation op => relate op l r

/-- The value of an operator in front of one operand. Results are never constant. -/
def unary (op : UnaryOp) (v : Value) : Outcome Value :=
  match op, v.datum with
  | .not, .boolean b => .ok (boolean !b)
  | .plus, .integer n => .ok (integer n)
  | .plus, .float x => .ok (float x)
  | .plus, .double x => .ok (double x)
  | .neg, .integer n => (Arithmetic.inRange "negation" (-n.toInt)).map integer
  | .neg, .float x => .ok (float x.neg)
  | .neg, .double x => .ok (double x.neg)
  | op, _ => .error (.invalidUnaryOp v.kind.name op)

end InterpreterCore.Value

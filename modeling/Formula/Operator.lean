/-!
# Operators

The operators of formulas, each with its canonical spelling and, where it binds operands, its
precedence. A higher precedence binds tighter. The parser's ladder of binary levels and the
parentheses of a written formula both follow these numbers.
-/

namespace Formula

/-! ## Binding strengths of the other constructs -/

/-- Definitions and compound assignments. -/
def assignmentPrecedence : Nat := 0

/-- The conditional `c ? a : b`. -/
def conditionalPrecedence : Nat := 1

/-- Operators written before their operand. -/
def prefixedPrecedence : Nat := 13

/-- Operators written after their operand. -/
def postfixedPrecedence : Nat := 15

/-- Literals, variables, calls and everything in brackets. -/
def atomPrecedence : Nat := 16

/-! ## One operand -/

/-- Operators of one operand. -/
inductive UnaryOp where
  | minus | not | factorial
  deriving DecidableEq, Repr

namespace UnaryOp

/-- The operator as it is written. -/
def symbol : UnaryOp → String
  | minus => "-"
  | not | factorial => "!"

/-- Written after its operand. -/
def isPostfixed : UnaryOp → Bool
  | factorial => true
  | minus | not => false

/-- Binding strength. -/
def precedence (op : UnaryOp) : Nat :=
  if op.isPostfixed then postfixedPrecedence else prefixedPrecedence

end UnaryOp

/-! ## Two operands -/

/-- Operators of two operands. -/
inductive BinaryOp where
  | add | sub | mul | div | mod | pow
  | lt | le | gt | ge | eq | ne
  | and | or | xor | andThen | orElse
  | implies | iff | nand | nor
  | shiftLeft | shiftRight
  deriving DecidableEq, Repr

namespace BinaryOp

/-- Every binary operator. -/
def all : List BinaryOp :=
  [add, sub, mul, div, mod, pow, lt, le, gt, ge, eq, ne, and, or, xor, andThen, orElse,
    implies, iff, nand, nor, shiftLeft, shiftRight]

/-- The canonical spelling. -/
def symbol : BinaryOp → String
  | add => "+"
  | sub => "-"
  | mul => "*"
  | div => "/"
  | mod => "%"
  | pow => "^"
  | lt => "<"
  | le => "<="
  | gt => ">"
  | ge => ">="
  | eq => "=="
  | ne => "!="
  | and => "&"
  | or => "|"
  | xor => "xor"
  | andThen => "&&"
  | orElse => "||"
  | implies => "->"
  | iff => "<->"
  | nand => "nand"
  | nor => "nor"
  | shiftLeft => "<<"
  | shiftRight => ">>"

/-- Binding strength, from `||` to `^`. -/
def precedence : BinaryOp → Nat
  | orElse => 2
  | andThen => 3
  | implies | iff | nand | nor => 4
  | or => 5
  | xor => 6
  | and => 7
  | eq | ne => 8
  | lt | le | gt | ge => 9
  | shiftLeft | shiftRight => 10
  | add | sub => 11
  | mul | div | mod => 12
  | pow => 14

/-- Chains of `^` group to the right, all other chains to the left. -/
def isRightAssociative : BinaryOp → Bool
  | pow => true
  | _ => false

/-- Compares its operands. -/
def isComparison : BinaryOp → Bool
  | lt | le | gt | ge | eq | ne => true
  | _ => false

/-- The value of the left operand that decides the result of `&&` or `||` alone. -/
def decidedBy? : BinaryOp → Option Bool
  | andThen => some false
  | orElse => some true
  | _ => none

end BinaryOp

/-! ## Variables as operands -/

/-- Compound assignments, `x op= value`. -/
inductive AssignOp where
  | add | sub | mul | div | shiftLeft | shiftRight
  deriving DecidableEq, Repr

namespace AssignOp

/-- Every compound assignment. -/
def all : List AssignOp := [add, sub, mul, div, shiftLeft, shiftRight]

/-- The operator as it is written. -/
def symbol : AssignOp → String
  | add => "+="
  | sub => "-="
  | mul => "*="
  | div => "/="
  | shiftLeft => "<<="
  | shiftRight => ">>="

/-- The operator that combines the old value with the right-hand side. -/
def binary : AssignOp → BinaryOp
  | add => .add
  | sub => .sub
  | mul => .mul
  | div => .div
  | shiftLeft => .shiftLeft
  | shiftRight => .shiftRight

end AssignOp

/-- The steps `x++` and `x--`. -/
inductive StepOp where
  | increment | decrement
  deriving DecidableEq, Repr

namespace StepOp

/-- Both steps. -/
def all : List StepOp := [increment, decrement]

/-- The operator as it is written. -/
def symbol : StepOp → String
  | increment => "++"
  | decrement => "--"

/-- What a step adds to its variable. -/
def delta : StepOp → Int
  | increment => 1
  | decrement => -1

end StepOp

end Formula

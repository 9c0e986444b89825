import Formula.Expr

/-!
# The text of a tree

`Expr.text` writes a tree as a formula. It puts parentheses where the precedence or the grouping
of an operator asks for them and nowhere else, so that reading the text gives the tree back. A
number with a minus sign is written like a prefixed operator and binds like one.
-/

namespace Formula.Expr

variable {K : Type} [Scalar K]

/-- Binding strength of a tree's outermost construct as it is written. -/
def precedence : Expr K → Nat
  | number value => if Scalar.isNegative value then prefixedPrecedence else atomPrecedence
  | unary op _ => op.precedence
  | binary op _ _ => op.precedence
  | ifThenElse _ _ _ => conditionalPrecedence
  | define _ _ | assign _ _ _ => assignmentPrecedence
  | _ => atomPrecedence

/-- Whether an operator of one operand needs its operand in parentheses. A prefixed operator takes
no second one right behind it. -/
def wrapsOperand (op : UnaryOp) (operand : Expr K) : Bool :=
  if op.isPostfixed then operand.precedence < postfixedPrecedence
  else operand.precedence ≤ prefixedPrecedence

/-- Whether an operator needs its left operand in parentheses. -/
def wrapsLeft (op : BinaryOp) (left : Expr K) : Bool :=
  left.precedence < op.precedence || (left.precedence == op.precedence && op.isRightAssociative)

/-- Whether an operator needs its right operand in parentheses. -/
def wrapsRight (op : BinaryOp) (right : Expr K) : Bool :=
  right.precedence < op.precedence || (right.precedence == op.precedence && !op.isRightAssociative)

/-- A text, in parentheses if need be. -/
def parenthesized (wrap : Bool) (text : String) : String :=
  if wrap then "(" ++ text ++ ")" else text

/-- Texts with commas between them. -/
def commaSeparated (texts : List String) : String := String.intercalate ", " texts

/-- A text in braces. -/
def braced (text : String) : String := "\x7b" ++ text ++ "\x7d"

mutual

/-- The tree as a formula. -/
def text : Expr K → String
  | number value => Scalar.text value
  | bool value => if value then "true" else "false"
  | polar magnitude phase => Scalar.text magnitude ++ "∠" ++ Scalar.text phase ++ "°"
  | string value => "\"" ++ value ++ "\""
  | angle value => value.text
  | var name => name
  | unary op a =>
    let operand := parenthesized (wrapsOperand op a) (text a)
    if op.isPostfixed then operand ++ op.symbol else op.symbol ++ operand
  | binary op a b =>
    parenthesized (wrapsLeft op a) (text a) ++ " " ++ op.symbol ++ " " ++
      parenthesized (wrapsRight op b) (text b)
  | builtin function as => function.name ++ "(" ++ commaSeparated (texts as) ++ ")"
  | call name as => name ++ "(" ++ commaSeparated (texts as) ++ ")"
  | vector as => braced (commaSeparated (texts as))
  | matrix rows => braced (commaSeparated (rowTexts rows))
  | ifThen c a => "if(" ++ commaSeparated [text c, text a] ++ ")"
  | ifThenElse c a b =>
    parenthesized (c.precedence ≤ conditionalPrecedence) (text c) ++ " ? " ++ text a ++ " : " ++
      text b
  | forLoop body init condition iteration =>
    "for(" ++ commaSeparated [text body, text init, text condition, text iteration] ++ ")"
  | whileLoop body condition => "while(" ++ commaSeparated [text body, text condition] ++ ")"
  | define key value => text key ++ " := " ++ text value
  | undefine key => "undef(" ++ text key ++ ")"
  | assign op name value => name ++ " " ++ op.symbol ++ " " ++ text value
  | step op name => name ++ op.symbol

/-- The text of each tree of a list. -/
def texts : List (Expr K) → List String
  | [] => []
  | a :: as => text a :: texts as

/-- The text of each row of a matrix, in braces. -/
def rowTexts : List (List (Expr K)) → List String
  | [] => []
  | row :: rows => braced (commaSeparated (texts row)) :: rowTexts rows

end

end Formula.Expr

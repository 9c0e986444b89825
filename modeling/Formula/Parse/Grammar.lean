import Formula.Parse.Parser

/-!
# The grammar

One parser per construct of the language. Constructs contain each other through three entries
only, statements, expressions and prefixed operands, and each of these opens a level of nesting;
so every definition here takes the parser of the nested entries as an argument and `Formula.Parse`
ties the knot by counting levels.

A formula is a statement. An expression is a compound assignment or a conditional over the ladder
of binary operators, one rung per precedence from `||` up to `*`. Above the ladder come implicit
products such as `2x`, prefixed operators, powers, postfixed operators and operands.

A parser finds nothing before it has consumed a token that decides for its construct, and fails
when the construct breaks off after such a token.
-/

namespace Formula

/-- The constructs through which the grammar is recursive. -/
inductive Nest where
  | statement | expression | prefixed
  deriving DecidableEq, Repr

namespace Grammar

open Formula.Parser

variable {K : Type} [Scalar K]

/-! ## Operators as tokens -/

/-- The operator a token stands for between two operands. -/
def binaryOp? : Token K → Option BinaryOp
  | .symbol .plus => some .add
  | .symbol .minus => some .sub
  | .symbol .star => some .mul
  | .symbol .slash => some .div
  | .symbol .percent => some .mod
  | .symbol .caret => some .pow
  | .symbol .less => some .lt
  | .symbol .lessEqual => some .le
  | .symbol .greater => some .gt
  | .symbol .greaterEqual => some .ge
  | .symbol .doubleEqual => some .eq
  | .symbol .bangEqual => some .ne
  | .symbol .ampersand => some .and
  | .symbol .pipe => some .or
  | .symbol .doubleAmpersand => some .andThen
  | .symbol .doublePipe => some .orElse
  | .symbol .arrow => some .implies
  | .symbol .doubleArrow => some .iff
  | .symbol .shiftLeft => some .shiftLeft
  | .symbol .shiftRight => some .shiftRight
  | .keyword .mod => some .mod
  | .keyword .and => some .and
  | .keyword .or => some .or
  | .keyword .xor => some .xor
  | .keyword .implies => some .implies
  | .keyword .eq => some .iff
  | .keyword .nand => some .nand
  | .keyword .nor => some .nor
  | _ => none

/-- The operator of one precedence a token stands for. -/
def binaryOpAt? (precedence : Nat) (t : Token K) : Option BinaryOp :=
  (binaryOp? t).filter (·.precedence == precedence)

/-- What a token in front of an operand makes of it; a plus sign makes nothing. -/
def prefixed? : Token K → Option (Expr K → Expr K)
  | .symbol .minus => some (.unary .minus)
  | .symbol .bang | .symbol .tilde | .keyword .not => some (.unary .not)
  | .symbol .plus => some id
  | _ => none

/-- The compound assignment a token stands for. -/
def assignOp? : Token K → Option AssignOp
  | .symbol (.assign op) => some op
  | _ => none

/-- The step a token stands for. -/
def stepOp? : Token K → Option StepOp
  | .symbol (.step op) => some op
  | _ => none

/-- The unit a token stands for behind a number. -/
def unit? : Token K → Option AngleUnit
  | .symbol .degree | .keyword .degree => some .degree
  | .keyword .radian => some .radian
  | .keyword .gradian => some .gradian
  | _ => none

/-- The truth value a token stands for. -/
def bool? : Token K → Option Bool
  | .keyword (.bool value) => some value
  | _ => none

/-- Whether a sign token is a minus. -/
def sign? : Token K → Option Bool
  | .symbol .plus => some false
  | .symbol .minus => some true
  | _ => none

/-! ## Literals and names -/

/-- A number, with a unit of angle if one follows. -/
def number : Parser K (Option (Expr K)) := do
  let some value ← take? Token.number? | return none
  match ← take? unit? with
  | some unit => return some (.angle ⟨value, unit⟩)
  | none => return some (.number value)

/-- A truth value. -/
def truth : Parser K (Option (Expr K)) := return (← take? bool?).map .bool

/-- A string. -/
def text : Parser K (Option (Expr K)) := return (← take? Token.string?).map .string

/-- The magnitude of a complex number, with the angle sign behind it. -/
def polarMagnitude : Parser K (Option K) := speculate do
  let _ ← symbol .plus
  let some magnitude ← take? Token.number? | return none
  if ← symbol .angle then return some magnitude else return none

/-- A complex number by magnitude and phase, `2∠30°`. The angle sign decides for it. -/
def complexNumber : Parser K (Option (Expr K)) := do
  let some magnitude ← polarMagnitude | return none
  let negative := (← take? sign?).getD false
  let phase ← require .missingPhase (take? Token.number?)
  expect .degree .missingDegreeSymbol
  return some (.polar magnitude (if negative then -phase else phase))

/-- The name of a variable: an identifier that no parenthesis follows. -/
def variableName : Parser K (Option String) := speculate do
  let some name ← take? Token.identifier? | return none
  if (← get).peek?.any (Token.isSymbol .openParenthesis) then return none else return some name

/-- A call, built in if the name is. -/
def makeCall (name : String) (arguments : List (Expr K)) : Parser K (Expr K) :=
  match Builtin.ofName? name with
  | some function => build (Expr.mkBuiltin function arguments)
  | none => return .call name arguments

/-- The names behind the first in the parameter list of a declaration; nothing if a comma is
followed by anything else. -/
def moreNames : (count : Nat) → Parser K (Option (List String))
  | 0 => return some []
  | count + 1 => do
    if ← symbol .comma then
      let some name ← variableName | return none
      let some names ← moreNames count | return none
      return some (name :: names)
    else return some []

/-- The names in the parameter list of a declaration. -/
def parameterNames : Parser K (Option (List String)) := do
  let some first ← variableName | return some []
  return (← moreNames (← remaining)).map (first :: ·)

/-- The name and the parameters of a function declaration. -/
def declarationHead : Parser K (Option (String × List String)) := speculate do
  let some name ← take? Token.identifier? | return none
  unless ← symbol .openParenthesis do return none
  let some parameters ← parameterNames | return none
  if ← symbol .closeParenthesis then return some (name, parameters) else return none

/-- What a definition can bind: a function declaration or a variable. -/
def key : Parser K (Option (Expr K)) := do
  match ← declarationHead with
  | some (name, parameters) => return some (← makeCall name (parameters.map .var))
  | none => return (← variableName).map .var

section Recursive

variable (self : Nest → Parser K (Option (Expr K)))

/-! ## Operands -/

/-- Expressions with commas between them, perhaps none. -/
def expressions (construct : String) : Parser K (List (Expr K)) := do
  let some first ← self .expression | return []
  let item := require (.missingExpression construct) (self .expression)
  return first :: (← moreItems item (← remaining))

/-- The arguments of a call, if a parenthesis opens them. -/
def arguments : Parser K (Option (List (Expr K))) := do
  unless ← symbol .openParenthesis do return none
  let found ← expressions self "function"
  expect .closeParenthesis (.missingCloseParenthesis "function")
  return some found

/-- A call or a variable. -/
def functionOrVariable : Parser K (Option (Expr K)) := do
  let some name ← take? Token.identifier? | return none
  match ← arguments self with
  | some found => return some (← makeCall name found)
  | none => return some (.var name)

/-- An expression in parentheses. -/
def parentheses : Parser K (Option (Expr K)) := do
  unless ← symbol .openParenthesis do return none
  let inner ← require (.missingExpression "(") (self .expression)
  expect .closeParenthesis (.missingCloseParenthesis "(")
  return some inner

/-- The elements of a vector. -/
def elements : Parser K (Option (List (Expr K))) := do
  unless ← symbol .openBrace do return none
  let item := require (.missingExpression "vector") (self .expression)
  let first ← item
  let more ← moreItems item (← remaining)
  expect .closeBrace (.missingCloseBrace "vector")
  return some (first :: more)

/-- A vector. -/
def vector : Parser K (Option (Expr K)) := return (← elements self).map .vector

/-- The first row of a matrix, behind the brace that opens it. -/
def firstRow : Parser K (Option (List (Expr K))) := speculate do
  unless ← symbol .openBrace do return none
  elements self

/-- A matrix. A vector as its first element decides for it. -/
def matrix : Parser K (Option (Expr K)) := do
  let some first ← firstRow self | return none
  let more ← moreItems (require (.missingExpression "matrix") (elements self)) (← remaining)
  expect .closeBrace (.missingCloseBrace "matrix")
  return some (← build (Expr.mkMatrix (first :: more)))

/-- What operators apply to. -/
def operand : Parser K (Option (Expr K)) := firstOf [
  complexNumber,
  number,
  functionOrVariable self,
  truth,
  text,
  parentheses self,
  matrix self,
  vector self]

/-! ## Operators of one operand and powers -/

/-- The factorial signs behind an operand; `count` bounds them. -/
def factorials : (count : Nat) → Expr K → Parser K (Expr K)
  | 0, e => return e
  | count + 1, e => do
    if ← symbol .bang then factorials count (.unary .factorial e) else return e

/-- The step behind a variable. -/
def stepOf : Expr K → Parser K (Option (Expr K))
  | .var name => return (← take? stepOp?).map (.step · name)
  | _ => return none

/-- An operand with postfixed operators: a step behind a variable, factorials behind anything. -/
def postfixed : Parser K (Option (Expr K)) := do
  let some e ← operand self | return none
  match ← stepOf e with
  | some step => return some step
  | none => return some (← factorials (← remaining) e)

/-- A postfixed operand, raised to a prefixed one if a caret follows. -/
def power : Parser K (Option (Expr K)) := do
  let some base ← postfixed self | return none
  unless ← symbol .caret do return some base
  let exponent ← require (.missingExpression "^") (self .prefixed)
  return some (.binary .pow base exponent)

/-- A prefixed operator with its operand, or a power. -/
def prefixed : Parser K (Option (Expr K)) := do
  match (← get).peek?.bind prefixed? with
  | none => power self
  | some apply => speculate do
    let _ ← take? prefixed?
    return (← self .prefixed).map apply

/-! ## Implicit products -/

/-- The name behind a number in an implicit product, with its own exponent. -/
def namedFactor : Parser K (Option (Expr K)) := do
  let some base ← functionOrVariable self | return none
  unless ← symbol .caret do return some base
  let exponent ← require (.missingExpression "^") (power self)
  return some (.binary .pow base exponent)

/-- A number, perhaps with a minus sign, and right behind it a name or a bracket. -/
def numberTimes : Parser K (Option (Expr K)) := speculate do
  let negative ← symbol .minus
  let some factor ← number | return none
  let some right ← firstOf [namedFactor self, parentheses self, matrix self, vector self]
    | return none
  return some (.binary .mul (if negative then .unary .minus factor else factor) right)

/-- An implicit product or a prefixed operand. -/
def implicitProduct : Parser K (Option (Expr K)) := firstOf [numberTimes self, self .prefixed]

/-! ## The ladder of binary operators -/

/-- The precedences of the ladder, the loosest first. The power is no rung of it. -/
def rungs : List Nat := [2, 3, 4, 5, 6, 7, 8, 9, 10, 11, 12]

/-- The operators of one precedence behind a left operand, grouped to the left; `count` bounds
them. -/
def chain (precedence : Nat) (next : Parser K (Option (Expr K))) :
    (count : Nat) → Expr K → Parser K (Expr K)
  | 0, left => return left
  | count + 1, left => do
    match ← take? (binaryOpAt? precedence) with
    | none => return left
    | some op =>
      let right ← require (.missingSecondOperand op.symbol) next
      chain precedence next count (.binary op left right)

/-- Operators of the given precedences over implicit products. -/
def ladder : List Nat → Parser K (Option (Expr K))
  | [] => implicitProduct self
  | precedence :: tighter => do
    let some left ← ladder tighter | return none
    return some (← chain precedence (ladder tighter) (← remaining) left)

/-- A condition: any operator, but no conditional and no assignment at its root. -/
def condition : Parser K (Option (Expr K)) := ladder self rungs

/-- A condition, with two branches if a question mark follows. -/
def conditional : Parser K (Option (Expr K)) := do
  let some c ← condition self | return none
  unless ← symbol .question do return some c
  let yes ← require (.missingExpression "?") (self .expression)
  expect .colon .missingColon
  let no ← require (.missingExpression ":") (self .expression)
  return some (.ifThenElse c yes no)

/-! ## Statements -/

/-- The variable of a compound assignment with the operator behind it. -/
def assignmentHead : Parser K (Option (AssignOp × String)) := speculate do
  let some name ← variableName | return none
  return (← take? assignOp?).map (·, name)

/-- `name op= value`. The operator decides for it. -/
def compoundAssignment : Parser K (Option (Expr K)) := do
  let some (op, name) ← assignmentHead | return none
  let value ← require (.missingSecondOperand op.symbol) (self .expression)
  return some (.assign op name value)

/-- The key of a definition, with the sign behind it. -/
def definitionKey : Parser K (Option (Expr K)) := speculate do
  let some k ← key | return none
  if ← symbol .becomes then return some k else return none

/-- `key := value`. The sign decides for it. -/
def definition : Parser K (Option (Expr K)) := do
  let some k ← definitionKey | return none
  let value ← require (.missingSecondOperand ":=") (self .expression)
  return some (← build (Expr.mkDefine k value))

/-- The keyword of a statement with its opening parenthesis. -/
def opening (word : Keyword) (construct : String) : Parser K Bool := do
  unless ← keyword word do return false
  expect .openParenthesis (.missingOpenParenthesis construct)
  return true

/-- `def(key, value)`. -/
def define : Parser K (Option (Expr K)) := do
  unless ← opening .define "def" do return none
  let k ← require (.missingExpression "def") key
  expect .comma (.missingComma "def")
  let value ← require (.missingExpression "def") (self .expression)
  expect .closeParenthesis (.missingCloseParenthesis "def")
  return some (← build (Expr.mkDefine k value))

/-- `undef(key)`. -/
def undefine : Parser K (Option (Expr K)) := do
  unless ← opening .undefine "undef" do return none
  let k ← require (.missingExpression "undef") key
  expect .closeParenthesis (.missingCloseParenthesis "undef")
  return some (← build (Expr.mkUndefine k))

/-- `if(condition, yes)` and `if(condition, yes, no)`. -/
def ifStatement : Parser K (Option (Expr K)) := do
  unless ← opening .ifThen "if" do return none
  let c ← require (.missingExpression "if") (condition self)
  expect .comma (.missingComma "if")
  let yes ← require (.missingExpression "if") (self .expression)
  if ← symbol .comma then
    let no ← require (.missingExpression "if") (self .expression)
    expect .closeParenthesis (.missingCloseParenthesis "if")
    return some (.ifThenElse c yes no)
  else
    expect .closeParenthesis (.missingCloseParenthesis "if")
    return some (.ifThen c yes)

/-- `for(body, init, condition, iteration)`. -/
def forStatement : Parser K (Option (Expr K)) := do
  unless ← opening .forLoop "for" do return none
  let body ← require (.missingExpression "for") (self .statement)
  expect .comma (.missingComma "for")
  let init ← require (.missingExpression "for") (self .statement)
  expect .comma (.missingComma "for")
  let c ← require (.missingExpression "for") (condition self)
  expect .comma (.missingComma "for")
  let iteration ← require (.missingExpression "for") (self .statement)
  expect .closeParenthesis (.missingCloseParenthesis "for")
  return some (.forLoop body init c iteration)

/-- `while(body, condition)`. -/
def whileStatement : Parser K (Option (Expr K)) := do
  unless ← opening .whileLoop "while" do return none
  let body ← require (.missingExpression "while") (self .statement)
  expect .comma (.missingComma "while")
  let c ← require (.missingExpression "while") (condition self)
  expect .closeParenthesis (.missingCloseParenthesis "while")
  return some (.whileLoop body c)

/-- A nested construct, one level further in. -/
def nest : Nest → Parser K (Option (Expr K))
  | .statement => firstOf [compoundAssignment self, definition self, define self, undefine,
      ifStatement self, forStatement self, whileStatement self, self .expression]
  | .expression => firstOf [compoundAssignment self, conditional self]
  | .prefixed => prefixed self

end Recursive

end Grammar

end Formula

import Formula.Parse.Grammar
import Formula.Token.Lexer

/-!
# Parsing a formula

`parse` reads a whole text as one statement. The grammar is recursive through nested constructs,
each of which consumes a token at least every second level; `levels` is therefore enough nesting
for the tokens that are left, and the recursion counts it down. A limit on nesting given by the
caller is a matter of the reader and turns deeper formulas into an error.
-/

namespace Formula

open Formula.Parser

variable {K : Type} [Scalar K]

/-- The limit on nesting where the caller gives none. -/
def defaultMaxDepth : Nat := 128

/-- More levels of nesting than can be open over `tokens` tokens. -/
def nestingBudget (tokens : Nat) : Nat := 2 * tokens + 4

/-- The parser of a nested construct, with at most `levels` levels below it. -/
def Nest.parserWithin : (levels : Nat) → Nest → Parser K (Option (Expr K))
  | 0, _ => return none
  | levels + 1, n => nested (Grammar.nest (parserWithin levels) n)

/-- The parser of a nested construct. -/
def Nest.parser (n : Nest) : Parser K (Option (Expr K)) := do
  n.parserWithin (nestingBudget (← remaining))

/-- The constructs of the grammar. -/
inductive Production where
  | statement | expression
  | compoundAssignment | definition | define | undefine | ifStatement | forStatement
  | whileStatement
  | conditional
  /-- The binary operators of a precedence and of all higher ones. -/
  | binary (precedence : Nat)
  | implicitProduct | prefixed | power | postfixed | operand
  | number | complexNumber | functionOrVariable | parentheses | vector | matrix
  deriving DecidableEq, Repr

/-- The parser of a construct over the parser of the nested ones. -/
def Production.rule (self : Nest → Parser K (Option (Expr K))) :
    Production → Parser K (Option (Expr K))
  | statement => self .statement
  | expression => self .expression
  | compoundAssignment => Grammar.compoundAssignment self
  | definition => Grammar.definition self
  | define => Grammar.define self
  | undefine => Grammar.undefine
  | ifStatement => Grammar.ifStatement self
  | forStatement => Grammar.forStatement self
  | whileStatement => Grammar.whileStatement self
  | conditional => Grammar.conditional self
  | binary precedence => Grammar.ladder self (Grammar.rungs.filter (precedence ≤ ·))
  | implicitProduct => Grammar.implicitProduct self
  | prefixed => self .prefixed
  | power => Grammar.power self
  | postfixed => Grammar.postfixed self
  | operand => Grammar.operand self
  | number => Grammar.number
  | complexNumber => Grammar.complexNumber
  | functionOrVariable => Grammar.functionOrVariable self
  | parentheses => Grammar.parentheses self
  | vector => Grammar.vector self
  | matrix => Grammar.matrix self

/-- The parser of a construct. -/
def Production.parser (p : Production) : Parser K (Option (Expr K)) := do
  p.rule (Nest.parserWithin (nestingBudget (← remaining)))

/-- Reads all tokens as one statement. -/
def parseTokens (tokens : List (Token K × Nat)) (maxDepth? : Option Nat) :
    Except ParseError (Expr K) :=
  let reader := Reader.ofTokens tokens maxDepth?
  match Nest.statement.parser.run reader with
  | (.error e, _) => .error e
  | (.ok none, after) =>
    match after.peek? with
    | some token => .error (.unexpectedToken token.text after.offset)
    | none => .error (.missingExpression "statement" after.offset)
  | (.ok (some e), after) =>
    match after.peek? with
    | some token => .error (.trailingTokens token.text after.offset)
    | none => .ok e

/-- Reads a text as one statement, with an optional limit on nesting. -/
def parseWithin (maxDepth? : Option Nat) (source : String) : Except ParseError (Expr K) :=
  if source.toList.all isWhiteSpace then .error .emptyInput
  else do parseTokens (← tokenize source) maxDepth?

/-- Reads a text as one statement. -/
def parse (source : String) : Except ParseError (Expr K) :=
  parseWithin (some defaultMaxDepth) source

end Formula

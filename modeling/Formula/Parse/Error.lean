import Formula.Expr.Build

/-!
# Parse errors

Why a text is not a formula. An error names the construct the parser had entered and the byte
offset at which the construct could not go on.
-/

namespace Formula

/-- Why a text cannot be read. Positions are byte offsets. -/
inductive ParseError where
  /-- Nothing but blanks. -/
  | emptyInput
  /-- Text that is no token, or a token with which nothing begins. -/
  | unexpectedToken (token : String) (position : Nat)
  | missingOpenParenthesis (construct : String) (position : Nat)
  | missingCloseParenthesis (construct : String) (position : Nat)
  | missingComma (construct : String) (position : Nat)
  | missingCloseBrace (construct : String) (position : Nat)
  /-- An operator without its right operand. -/
  | missingSecondOperand (operator : String) (position : Nat)
  /-- A construct without one of its parts. -/
  | missingExpression (construct : String) (position : Nat)
  /-- A conditional without its second branch. -/
  | missingColon (position : Nat)
  /-- A complex number whose phase has no degree sign. -/
  | missingDegreeSymbol (position : Nat)
  /-- A complex number without a phase. -/
  | missingPhase (position : Nat)
  /-- Tokens after a complete statement. -/
  | trailingTokens (token : String) (position : Nat)
  /-- More levels of nesting than allowed. -/
  | nestingTooDeep (maxDepth position : Nat)
  /-- A construct that reads well and cannot be built. -/
  | invalidExpression (cause : BuildError) (position : Nat)
  deriving DecidableEq, Repr

namespace ParseError

/-- The byte offset an error points at. -/
def position? : ParseError → Option Nat
  | emptyInput => none
  | unexpectedToken _ p | missingOpenParenthesis _ p | missingCloseParenthesis _ p
  | missingComma _ p | missingCloseBrace _ p | missingSecondOperand _ p | missingExpression _ p
  | missingColon p | missingDegreeSymbol p | missingPhase p | trailingTokens _ p
  | nestingTooDeep _ p | invalidExpression _ p => some p

/-- What is wrong at the position. -/
def complaint : ParseError → String
  | emptyInput => "The expression is empty."
  | unexpectedToken token _ => s!"Unexpected token '{token}'."
  | missingOpenParenthesis construct _ => s!"Missing '(' after '{construct}'."
  | missingCloseParenthesis construct _ => s!"Missing ')' to close '{construct}'."
  | missingComma construct _ => s!"Missing ',' in '{construct}'."
  | missingCloseBrace construct _ => s!"Missing '\x7d' to close '{construct}'."
  | missingSecondOperand operator _ => s!"Missing second operand of '{operator}'."
  | missingExpression construct _ => s!"Missing expression in '{construct}'."
  | missingColon _ => "Missing ':' in the conditional operator."
  | missingDegreeSymbol _ => "A complex number phase must end with '°'."
  | missingPhase _ => "Missing phase after '∠'."
  | trailingTokens token _ => s!"Extra tokens starting at '{token}'."
  | nestingTooDeep maxDepth _ => s!"Expression nests deeper than {maxDepth} levels."
  | invalidExpression cause _ => cause.message

/-- The error in words. -/
def message (e : ParseError) : String :=
  match e.position? with
  | none => "Error: " ++ e.complaint
  | some p => s!"Error at position {p}: " ++ e.complaint

end ParseError

end Formula

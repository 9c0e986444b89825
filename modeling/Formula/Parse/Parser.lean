import Formula.Token.Reader
import Formula.Parse.Error

/-!
# Parsers

A parser reads tokens and either fails with an error, or finds nothing, or gives a result.
Finding nothing is no failure: the reader is then as it was and another construct may be tried.
The reader is kept in every case, also after an error.

`nested` counts a level of nesting around a parser and is the only place where the limit on
nesting is checked; `speculate` makes a parser that finds nothing leave no trace.
-/

namespace Formula

/-- Reads tokens; may fail, and keeps the reader also then. -/
abbrev Parser (K : Type) := ExceptT ParseError (StateM (Reader K))

namespace Parser

variable {K α : Type}

/-- Fails at the offset of the next token. -/
def failHere (error : Nat → ParseError) : Parser K α := do throw (error (← get).offset)

/-- Consumes the next token if it gives what is looked for. -/
def take? (find? : Token K → Option α) : Parser K (Option α) := modifyGet (Reader.take? find?)

/-- Consumes the next token if it passes a test, and tells whether it did. -/
def accept (test : Token K → Bool) : Parser K Bool := do
  return (← take? fun t => if test t then some () else none).isSome

/-- Consumes the symbol if it comes next. -/
def symbol (s : Symbol) : Parser K Bool := accept (Token.isSymbol s)

/-- Consumes the keyword if it comes next. -/
def keyword (k : Keyword) : Parser K Bool := accept (Token.isKeyword k)

/-- Consumes the symbol or fails. -/
def expect (s : Symbol) (error : Nat → ParseError) : Parser K Unit := do
  unless ← symbol s do failHere error

/-- The result of a parser that has to find something. -/
def require (error : Nat → ParseError) (p : Parser K (Option α)) : Parser K α := do
  match ← p with
  | some a => return a
  | none => failHere error

/-- The first result among several parsers. -/
def firstOf : List (Parser K (Option α)) → Parser K (Option α)
  | [] => return none
  | p :: ps => do
    match ← p with
    | some a => return some a
    | none => firstOf ps

/-- A parser on a checkpoint: if it finds nothing, the reader goes back. -/
def speculate (p : Parser K (Option α)) : Parser K (Option α) := do
  let checkpoint ← modifyGet Reader.mark
  match ← p with
  | some a =>
    modify (Reader.commit checkpoint)
    return some a
  | none =>
    modify (Reader.rollback checkpoint)
    return none

/-- A parser one level of nesting further in. The level is left also after an error. -/
def nested (p : Parser K α) : Parser K α := ExceptT.mk fun r =>
  match r.descend? with
  | none => (.error (.nestingTooDeep (r.maxDepth?.getD 0) r.offset), r)
  | some inner =>
    let (result, after) := p.run inner
    (result, after.ascend)

/-- How many tokens are left. -/
def remaining : Parser K Nat := return (← get).remaining

/-- As many further items as commas introduce; `count` bounds them. -/
def moreItems (item : Parser K α) : (count : Nat) → Parser K (List α)
  | 0 => return []
  | count + 1 => do
    if ← symbol .comma then
      let a ← item
      return a :: (← moreItems item count)
    else return []

/-- The value of a construct that can be built, or an error at the offset after it. -/
def build (e : Except BuildError α) : Parser K α :=
  match e with
  | .ok a => return a
  | .error cause => failHere (.invalidExpression cause)

end Parser

end Formula

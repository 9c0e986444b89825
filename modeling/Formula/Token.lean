import Formula.Operator
import Formula.Scalar

/-!
# Tokens

The words of a formula: numbers, names, strings, keywords and symbols. Keywords and symbols list
their spellings; the first one is the canonical one, under which a token is reported. Every
spelling belongs to one keyword or one symbol.
-/

namespace Formula

/-- Reserved words. -/
inductive Keyword where
  | bool (value : Bool)
  | define | undefine | ifThen | forLoop | whileLoop
  | and | or | not | xor | nand | nor | eq | implies | mod
  | degree | radian | gradian
  deriving DecidableEq, Repr

namespace Keyword

/-- Every keyword. -/
def all : List Keyword :=
  [bool true, bool false, define, undefine, ifThen, forLoop, whileLoop, and, or, not, xor, nand,
    nor, eq, implies, mod, degree, radian, gradian]

/-- The words that stand for a keyword, the canonical one first. -/
def spellings : Keyword → List String
  | bool true => ["true"]
  | bool false => ["false"]
  | define => ["def", "define"]
  | undefine => ["undef", "undefine"]
  | ifThen => ["if"]
  | forLoop => ["for"]
  | whileLoop => ["while"]
  | and => ["and"]
  | or => ["or"]
  | not => ["not"]
  | xor => ["xor"]
  | nand => ["nand"]
  | nor => ["nor"]
  | eq => ["eq", "xnor"]
  | implies => ["impl"]
  | mod => ["mod"]
  | degree => ["deg", "degree", "degrees"]
  | radian => ["rad", "radian", "radians"]
  | gradian => ["grad", "gradian", "gradians"]

/-- The canonical spelling. -/
def text (k : Keyword) : String := k.spellings.headD ""

/-- The keyword of a word, if it is reserved. -/
def ofWord? (word : String) : Option Keyword := all.find? (·.spellings.contains word)

end Keyword

/-- Operators and punctuation. -/
inductive Symbol where
  | plus | minus | star | slash | percent | caret | bang | tilde | ampersand | pipe
  | doubleAmpersand | doublePipe | arrow | doubleArrow
  | doubleEqual | bangEqual | less | lessEqual | greater | greaterEqual
  | shiftLeft | shiftRight
  | becomes
  | assign (op : AssignOp)
  | step (op : StepOp)
  | question | colon | openParenthesis | closeParenthesis | openBrace | closeBrace | comma
  | degree | angle
  deriving DecidableEq, Repr

namespace Symbol

/-- Every symbol. -/
def all : List Symbol :=
  [plus, minus, star, slash, percent, caret, bang, tilde, ampersand, pipe, doubleAmpersand,
    doublePipe, arrow, doubleArrow, doubleEqual, bangEqual, less, lessEqual, greater, greaterEqual,
    shiftLeft, shiftRight, becomes] ++ AssignOp.all.map assign ++ StepOp.all.map step ++
    [question, colon, openParenthesis, closeParenthesis, openBrace, closeBrace, comma, degree,
      angle]

/-- The spellings of a symbol, the canonical one first. -/
def spellings : Symbol → List String
  | plus => ["+"]
  | minus => ["-"]
  | star => ["*"]
  | slash => ["/"]
  | percent => ["%"]
  | caret => ["^"]
  | bang => ["!"]
  | tilde => ["~"]
  | ampersand => ["&"]
  | pipe => ["|"]
  | doubleAmpersand => ["&&"]
  | doublePipe => ["||"]
  | arrow => ["->", "=>"]
  | doubleArrow => ["<->", "<=>"]
  | doubleEqual => ["=="]
  | bangEqual => ["!="]
  | less => ["<"]
  | lessEqual => ["<="]
  | greater => [">"]
  | greaterEqual => [">="]
  | shiftLeft => ["<<"]
  | shiftRight => [">>"]
  | becomes => [":="]
  | assign op => [op.symbol]
  | step op => [op.symbol]
  | question => ["?"]
  | colon => [":"]
  | openParenthesis => ["("]
  | closeParenthesis => [")"]
  | openBrace => ["\x7b"]
  | closeBrace => ["\x7d"]
  | comma => [","]
  | degree => ["°"]
  | angle => ["∠"]

/-- The canonical spelling. -/
def text (s : Symbol) : String := s.spellings.headD ""

/-- The symbol spelled by exactly these characters. -/
def ofChars? (chars : List Char) : Option Symbol :=
  all.find? (·.spellings.any (·.toList == chars))

end Symbol

/-- A token of a formula. -/
inductive Token (K : Type) where
  /-- A number literal. -/
  | number (value : K)
  /-- The name of a variable or a function. -/
  | identifier (name : String)
  /-- A string without its quotes. -/
  | string (value : String)
  | keyword (word : Keyword)
  | symbol (symbol : Symbol)

namespace Token

variable {K : Type} [Scalar K]

/-- What sort of token it is; a keyword or symbol is a sort of its own. -/
def describe : Token K → String
  | number _ => "number"
  | identifier _ => "identifier"
  | string _ => "string"
  | keyword k => k.text
  | symbol s => s.text

/-- The token as it is shown. -/
def text : Token K → String
  | number value => Scalar.text value
  | identifier name => name
  | string value => "\"" ++ value ++ "\""
  | keyword k => k.text
  | symbol s => s.text

/-- Equality of tokens, with numbers compared by value. -/
def eq : Token K → Token K → Bool
  | number a, number b => Scalar.eq a b
  | identifier a, identifier b => a == b
  | string a, string b => a == b
  | keyword a, keyword b => a == b
  | symbol a, symbol b => a == b
  | _, _ => false

end Token

end Formula

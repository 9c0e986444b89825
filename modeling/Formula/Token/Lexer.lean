import Formula.Token
import Formula.Scalar.Integer
import Formula.Parse.Error

/-!
# From text to tokens

`tokenize` cuts a text into tokens. At each place that is not blank it takes the longest lexeme
that starts there, so that `<<=` is one symbol and `iff` is a name. A word is a keyword only if
the whole word is reserved. Number literals are decimal, or integers in base two, eight or
sixteen behind a mark; an integer outside the safe range is refused. Every token carries the byte
offset at which it starts.

The lexemes of different sorts begin with different characters, except that a number in another
base begins like a decimal one and is then the longer of the two.
-/

namespace Formula

/-! ## Characters -/

/-- Separates tokens. -/
def isBlank (c : Char) : Bool := c ∈ [' ', '\t', '\r', '\n', '\x0c']

/-- Leaves a text empty: the characters with the Unicode property White_Space. -/
def isWhiteSpace (c : Char) : Bool :=
  let n := c.toNat
  (0x9 ≤ n && n ≤ 0xd) || n = 0x20 || n = 0x85 || n = 0xa0 || n = 0x1680 ||
    (0x2000 ≤ n && n ≤ 0x200a) || n = 0x2028 || n = 0x2029 || n = 0x202f || n = 0x205f || n = 0x3000

/-- Begins a name: an ASCII letter, an underscore or an unaccented Greek letter. -/
def isNameStart (c : Char) : Bool :=
  c.isAlpha || c = '_' || ('α' ≤ c && c ≤ 'ω') || ('Α' ≤ c && c ≤ 'Ω')

/-- Continues a name. -/
def isNameChar (c : Char) : Bool := isNameStart c || c.isDigit

/-- The value of a digit in a base up to sixteen. -/
def digitValue? (base : Nat) (c : Char) : Option Nat :=
  let value :=
    if '0' ≤ c ∧ c ≤ '9' then c.toNat - '0'.toNat
    else if 'a' ≤ c ∧ c ≤ 'f' then c.toNat - 'a'.toNat + 10
    else if 'A' ≤ c ∧ c ≤ 'F' then c.toNat - 'A'.toNat + 10
    else base
  if value < base then some value else none

/-- A digit in the base. -/
def isDigitIn (base : Nat) (c : Char) : Bool := (digitValue? base c).isSome

/-- The base announced by a letter behind a zero. -/
def radixOf? (c : Char) : Option Nat :=
  if c = 'b' ∨ c = 'B' then some 2
  else if c = 'o' ∨ c = 'O' then some 8
  else if c = 'x' ∨ c = 'X' then some 16
  else none

/-- The number written by digits in a base. -/
def digitsToNat (base : Nat) (digits : List Char) : Nat :=
  digits.foldl (fun n c => n * base + (digitValue? base c).getD 0) 0

/-! ## Lexemes -/

/-- The longest exponent at the start of the characters: a letter, an optional sign, digits. -/
def exponentLexeme : List Char → List Char
  | [] => []
  | e :: rest =>
    if e = 'e' ∨ e = 'E' then
      match rest with
      | s :: digits =>
        if s = '+' ∨ s = '-' then
          let digits := digits.takeWhile Char.isDigit
          if digits.isEmpty then [] else e :: s :: digits
        else
          let digits := rest.takeWhile Char.isDigit
          if digits.isEmpty then [] else e :: digits
      | [] => []
    else []

/-- The longest fractional part at the start of the characters: a point and digits. -/
def fractionLexeme : List Char → List Char
  | '.' :: rest =>
    let digits := rest.takeWhile Char.isDigit
    if digits.isEmpty then [] else '.' :: digits
  | _ => []

/-- The longest decimal number at the start of the characters, empty if there is none. -/
def decimalLexeme (cs : List Char) : List Char :=
  let whole := cs.takeWhile Char.isDigit
  let fraction := fractionLexeme (cs.drop whole.length)
  let mantissa := whole ++ fraction
  if mantissa.isEmpty then [] else mantissa ++ exponentLexeme (cs.drop mantissa.length)

/-- The base and the digits of the longest number in another base at the start. -/
def radixLexeme? : List Char → Option (Nat × List Char)
  | '0' :: mark :: rest => do
    let base ← radixOf? mark
    let digits := rest.takeWhile (isDigitIn base)
    if digits.isEmpty then none else some (base, digits)
  | _ => none

/-- The longest symbol at the start; no symbol is longer than three characters. -/
def symbolLexeme? (cs : List Char) : Option (Symbol × Nat) :=
  [3, 2, 1].findSome? fun n => (Symbol.ofChars? (cs.take n)).map (·, n)

/-! ## Literals -/

/-- The mantissa and the decimal exponent written by a decimal number. -/
def decimalValue (lexeme : List Char) : Nat × Int :=
  let isMark c := c == 'e' || c == 'E'
  let mantissa := lexeme.takeWhile (!isMark ·)
  let whole := mantissa.takeWhile (· != '.')
  let fraction := (mantissa.dropWhile (· != '.')).drop 1
  let exponent : Int := match (lexeme.dropWhile (!isMark ·)).drop 1 with
    | '-' :: digits => -(digitsToNat 10 digits : Int)
    | '+' :: digits => digitsToNat 10 digits
    | digits => digitsToNat 10 digits
  (digitsToNat 10 (whole ++ fraction), exponent - fraction.length)

/-- The number written by a decimal number. -/
def decimalNumber {K : Type} [Scalar K] (lexeme : List Char) : K :=
  let (mantissa, exponent) := decimalValue lexeme
  Scalar.ofDecimal mantissa exponent

/-! ## Tokens -/

variable {K : Type} [Scalar K]

/-- The token of a word. -/
def wordToken (word : String) : Token K :=
  match Keyword.ofWord? word with
  | some k => .keyword k
  | none => .identifier word

/-- The token of the longest lexeme at the start of the characters, and the number of characters
it takes; or the characters that are refused. An opening quote without a closing one refuses the
rest of the text, and a character with which no lexeme begins refuses itself. -/
def nextToken (cs : List Char) : Except (List Char) (Token K × Nat) :=
  match radixLexeme? cs with
  | some (base, digits) =>
    match Scalar.ofSafeInt? (digitsToNat base digits) with
    | some value => .ok (.number value, digits.length + 2)
    | none => .error (cs.take (digits.length + 2))
  | none =>
    let decimal := decimalLexeme cs
    if !decimal.isEmpty then .ok (.number (decimalNumber decimal), decimal.length)
    else match cs with
      | [] => .error []
      | c :: rest =>
        if isNameStart c then
          let word := cs.takeWhile isNameChar
          .ok (wordToken (String.ofList word), word.length)
        else if c = '"' then
          let body := rest.takeWhile (· != '"')
          if body.length < rest.length then .ok (.string (String.ofList body), body.length + 2)
          else .error cs
        else match symbolLexeme? cs with
          | some (symbol, length) => .ok (.symbol symbol, length)
          | none => .error [c]

/-- The tokens of the characters from an offset on, after `pending` more characters of the token
before. -/
def tokenizeFrom : (pending offset : Nat) → List Char → Except ParseError (List (Token K × Nat))
  | _, _, [] => .ok []
  | pending + 1, offset, c :: cs => tokenizeFrom pending (offset + c.utf8Size) cs
  | 0, offset, c :: cs =>
    if isBlank c then tokenizeFrom 0 (offset + c.utf8Size) cs
    else match nextToken (c :: cs) with
      | .ok (token, length) =>
        (tokenizeFrom (length - 1) (offset + c.utf8Size) cs).map ((token, offset) :: ·)
      | .error refused => .error (.unexpectedToken (String.ofList refused) offset)

/-- The tokens of a text with their byte offsets. -/
def tokenize (source : String) : Except ParseError (List (Token K × Nat)) :=
  tokenizeFrom 0 0 source.toList

end Formula

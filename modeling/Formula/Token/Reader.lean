import Formula.Token

/-!
# Reading tokens with checkpoints

A `Reader` is a cursor over the tokens of a formula. Checkpoints remember earlier positions: going
back to one restores its position, keeping the current position drops it, and both drop every
checkpoint made after it. The reader also counts the levels of nesting the parser is inside, up to
an optional limit. Every operation is a function of the reader; none of them fails.
-/

namespace Formula

/-- A cursor over tokens. -/
structure Reader (K : Type) where
  /-- The tokens with their byte offsets. -/
  tokens : Array (Token K × Nat)
  /-- How many tokens are consumed. -/
  position : Nat
  /-- The positions of the open checkpoints, the oldest first. -/
  checkpoints : List Nat
  /-- How many levels of nesting are open. -/
  depth : Nat
  /-- The largest number of levels, if it is limited. -/
  maxDepth? : Option Nat

/-- A checkpoint: where it was made, and how many checkpoints were open before it. -/
structure Checkpoint where
  position : Nat
  count : Nat
  deriving DecidableEq, Repr

namespace Reader

variable {K : Type}

/-- A reader before the first token. -/
def ofTokens (tokens : List (Token K × Nat)) (maxDepth? : Option Nat) : Reader K :=
  ⟨tokens.toArray, 0, [], 0, maxDepth?⟩

/-- The next token. -/
def peek? (r : Reader K) : Option (Token K) := (r.tokens[r.position]?).map (·.1)

/-- The byte offset of the next token; past the end, that of the last token. -/
def offset (r : Reader K) : Nat :=
  match r.tokens[r.position]? with
  | some (_, offset) => offset
  | none => match r.tokens.back? with
    | some (_, offset) => offset
    | none => 0

/-- Whether every token is consumed. -/
def isEnd (r : Reader K) : Bool := r.tokens.size ≤ r.position

/-- How many tokens are left. -/
def remaining (r : Reader K) : Nat := r.tokens.size - r.position

/-- Consumes the next token if it gives what is looked for. -/
def take? {α : Type} (find? : Token K → Option α) (r : Reader K) : Option α × Reader K :=
  match r.peek?.bind find? with
  | some a => (some a, { r with position := r.position + 1 })
  | none => (none, r)

/-- Makes a checkpoint at the current position. -/
def mark (r : Reader K) : Checkpoint × Reader K :=
  (⟨r.position, r.checkpoints.length⟩, { r with checkpoints := r.checkpoints ++ [r.position] })

/-- Goes back to a checkpoint. -/
def rollback (c : Checkpoint) (r : Reader K) : Reader K :=
  { r with position := c.position, checkpoints := r.checkpoints.take c.count }

/-- Drops a checkpoint and keeps the position. -/
def commit (c : Checkpoint) (r : Reader K) : Reader K :=
  { r with checkpoints := r.checkpoints.take c.count }

/-- Enters a level of nesting, unless the limit is reached. -/
def descend? (r : Reader K) : Option (Reader K) :=
  if r.maxDepth?.all (r.depth < ·) then some { r with depth := r.depth + 1 } else none

/-- Leaves a level of nesting. -/
def ascend (r : Reader K) : Reader K := { r with depth := r.depth - 1 }

end Reader

/-! ## What to look for -/

namespace Token

variable {K : Type}

/-- The value of a number. -/
def number? : Token K → Option K
  | number value => some value
  | _ => none

/-- The name in an identifier. -/
def identifier? : Token K → Option String
  | identifier name => some name
  | _ => none

/-- The contents of a string. -/
def string? : Token K → Option String
  | string value => some value
  | _ => none

/-- Whether the token is this symbol. -/
def isSymbol (s : Symbol) : Token K → Bool
  | symbol t => t == s
  | _ => false

/-- Whether the token is this keyword. -/
def isKeyword (k : Keyword) : Token K → Bool
  | keyword l => l == k
  | _ => false

/-- The token itself, if it is one of these. -/
def among? [Scalar K] (expected : List (Token K)) (t : Token K) : Option (Token K) :=
  if expected.any t.eq then some t else none

end Token

end Formula

import Formula.Expr.Text
import Formula.Proofs.Scalar.Text

/-!
# The trees that are read back, and their tokens

`Expr.isWritable` picks out the expressions whose numbers are finite and whose names are names.
`Expr.tokens` is their formula in tokens, with parentheses where `Expr.text` puts them, and
`Expr.normal` is the tree that reading gives: a number with a minus sign is read as a prefixed
minus. A complex number or an angle with such a sign has no tokens of its own; `Expr.hidesSign`
tells of it.
-/

namespace Formula

variable {K : Type} [Scalar K]

/-! ## Tokens of operators and literals -/

/-- The token of a prefixed or postfixed operator. -/
def UnaryOp.token : UnaryOp → Token K
  | minus => .symbol .minus
  | not | factorial => .symbol .bang

/-- The token of a binary operator under its canonical spelling. -/
def BinaryOp.token : BinaryOp → Token K
  | add => .symbol .plus
  | sub => .symbol .minus
  | mul => .symbol .star
  | div => .symbol .slash
  | mod => .symbol .percent
  | pow => .symbol .caret
  | lt => .symbol .less
  | le => .symbol .lessEqual
  | gt => .symbol .greater
  | ge => .symbol .greaterEqual
  | eq => .symbol .doubleEqual
  | ne => .symbol .bangEqual
  | and => .symbol .ampersand
  | or => .symbol .pipe
  | xor => .keyword .xor
  | andThen => .symbol .doubleAmpersand
  | orElse => .symbol .doublePipe
  | implies => .symbol .arrow
  | iff => .symbol .doubleArrow
  | nand => .keyword .nand
  | nor => .keyword .nor
  | shiftLeft => .symbol .shiftLeft
  | shiftRight => .symbol .shiftRight

/-- The token of a unit of angle. -/
def AngleUnit.token : AngleUnit → Token K
  | degree => .symbol .degree
  | radian => .keyword .radian
  | gradian => .keyword .gradian

/-- A number, behind a minus if it has that sign. -/
def signedTokens (a : K) : List (Token K) :=
  (if Scalar.isNegative a then [Token.symbol .minus] else []) ++ [Token.number (Scalar.unsigned a)]

/-- Tokens in parentheses if need be. -/
def wrappedTokens (wrap : Bool) (ts : List (Token K)) : List (Token K) :=
  if wrap then .symbol .openParenthesis :: (ts ++ [Token.symbol .closeParenthesis]) else ts

/-- Tokens in braces. -/
def bracedTokens (ts : List (Token K)) : List (Token K) :=
  .symbol .openBrace :: (ts ++ [Token.symbol .closeBrace])

/-- Items with commas between them. -/
def listedTokens : List (List (Token K)) → List (Token K)
  | [] => []
  | item :: items => item ++ items.flatMap (.symbol .comma :: ·)

theorem Builtin.mem_all (f : Builtin) : f ∈ all := by
  cases f <;> decide

namespace Expr

/-! ## Trees -/

mutual

/-- The tree as the tokens of a formula. -/
def tokens : Expr K → List (Token K)
  | number value => signedTokens value
  | bool value => [.keyword (.bool value)]
  | polar magnitude phase =>
    .number magnitude :: .symbol .angle :: (signedTokens phase ++ [Token.symbol .degree])
  | string value => [.string value]
  | angle value => [.number value.value, value.unit.token]
  | var name => [.identifier name]
  | unary op a =>
    let operand := wrappedTokens (wrapsOperand op a) (tokens a)
    if op.isPostfixed then operand ++ [op.token] else op.token :: operand
  | binary op a b =>
    wrappedTokens (wrapsLeft op a) (tokens a) ++
      op.token :: wrappedTokens (wrapsRight op b) (tokens b)
  | builtin function as =>
    .identifier function.name :: wrappedTokens true (listedTokens (tokenLists as))
  | call name as => .identifier name :: wrappedTokens true (listedTokens (tokenLists as))
  | ifThenElse c a b =>
    wrappedTokens (c.precedence ≤ conditionalPrecedence) (tokens c) ++
      .symbol .question :: (tokens a ++ .symbol .colon :: tokens b)
  | vector as => bracedTokens (listedTokens (tokenLists as))
  | matrix rows => bracedTokens (listedTokens (rowTokenLists rows))
  | assign op name value => .identifier name :: .symbol (.assign op) :: tokens value
  | step op name => [.identifier name, .symbol (.step op)]
  | ifThen c a => .keyword .ifThen :: wrappedTokens true (listedTokens [tokens c, tokens a])
  | forLoop body init c iteration => .keyword .forLoop :: wrappedTokens true
      (listedTokens [tokens body, tokens init, tokens c, tokens iteration])
  | whileLoop body c =>
    .keyword .whileLoop :: wrappedTokens true (listedTokens [tokens body, tokens c])
  | define key value => tokens key ++ .symbol .becomes :: tokens value
  | undefine key => .keyword .undefine :: wrappedTokens true (tokens key)

/-- The tokens of each tree of a list. -/
def tokenLists : List (Expr K) → List (List (Token K))
  | [] => []
  | a :: as => tokens a :: tokenLists as

/-- The tokens of each row of a matrix, in braces. -/
def rowTokenLists : List (List (Expr K)) → List (List (Token K))
  | [] => []
  | row :: rows => bracedTokens (listedTokens (tokenLists row)) :: rowTokenLists rows

end

theorem tokenLists_eq_map (as : List (Expr K)) : tokenLists as = as.map tokens := by
  induction as with
  | nil => rfl
  | cons a as ih => rw [tokenLists, ih, List.map_cons]

theorem rowTokenLists_eq_map (rows : List (List (Expr K))) : rowTokenLists rows =
    rows.map fun row => bracedTokens (listedTokens (tokenLists row)) := by
  induction rows with
  | nil => rfl
  | cons row rows ih => rw [rowTokenLists, ih, List.map_cons]

/-! ## Nodes that are read as something else -/

/-- Whether the tree is a step. -/
def isStep : Expr K → Bool
  | step _ _ => true
  | _ => false

/-- Whether the formula of the tree begins with an opening brace. -/
def opensBrace : Expr K → Bool
  | vector _ | matrix _ => true
  | unary op a => op.isPostfixed && !wrapsOperand op a && opensBrace a
  | binary op a _ => !wrapsLeft op a && opensBrace a
  | ifThenElse c _ _ => !decide (c.precedence ≤ conditionalPrecedence) && opensBrace c
  | define key _ => opensBrace key
  | _ => false

/-- Whether the formula of a node is not read back as the node, whatever its parts are. The
condition of a statement is no place for a conditional or an assignment without parentheses, nothing
is read behind a step, and two opening braces begin a matrix. -/
def isMisread : Expr K → Bool
  | ifThen c _ | forLoop _ _ c _ | whileLoop _ c => decide (c.precedence ≤ conditionalPrecedence)
  | unary op a => op.isPostfixed && a.isStep
  | vector (a :: _) => a.opensBrace
  | _ => false

/-! ## Trees of literals, operators and calls -/

mutual

/-- Whether the tree is made of finite literals, strings without quotes, names that are identifiers,
operators, calls, conditionals with both branches and compound assignments. -/
def isWritable : Expr K → Bool
  | number value => Scalar.isFinite value
  | bool _ => true
  | polar magnitude phase => Scalar.isFinite magnitude && Scalar.isFinite phase
  | string value => !value.toList.contains '"'
  | angle value => Scalar.isFinite value.value
  | var name => isIdentifier name
  | unary _ a => isWritable a
  | binary _ a b => isWritable a && isWritable b
  | builtin function as => function.arity.accepts as.length && areWritable as
  | call name as => isIdentifier name && (Builtin.ofName? name).isNone && areWritable as
  | ifThenElse c a b => isWritable c && isWritable a && isWritable b
  | assign _ name value => isIdentifier name && isWritable value
  | _ => false

/-- `isWritable` for every tree of a list. -/
def areWritable : List (Expr K) → Bool
  | [] => true
  | a :: as => isWritable a && areWritable as

end

mutual

/-- The tree with a prefixed minus for every minus sign of a number. -/
def normal : Expr K → Expr K
  | number value =>
    if Scalar.isNegative value then .unary .minus (.number (Scalar.abs value)) else .number value
  | unary op a => .unary op (normal a)
  | binary op a b => .binary op (normal a) (normal b)
  | builtin function as => .builtin function (normals as)
  | call name as => .call name (normals as)
  | ifThenElse c a b => .ifThenElse (normal c) (normal a) (normal b)
  | assign op name value => .assign op name (normal value)
  | e => e

/-- `normal` of each tree of a list. -/
def normals : List (Expr K) → List (Expr K)
  | [] => []
  | a :: as => normal a :: normals as

end

mutual

/-- Whether a magnitude of a complex number or a value of an angle in the tree has a minus sign. -/
def hidesSign : Expr K → Bool
  | polar magnitude _ => Scalar.isNegative magnitude
  | angle value => Scalar.isNegative value.value
  | unary _ a | undefine a | assign _ _ a => hidesSign a
  | binary _ a b | ifThen a b | whileLoop a b | define a b => hidesSign a || hidesSign b
  | builtin _ as | call _ as | vector as => hideSign as
  | matrix rows => rowsHideSign rows
  | ifThenElse c a b => hidesSign c || hidesSign a || hidesSign b
  | forLoop body init c iteration =>
    hidesSign body || hidesSign init || hidesSign c || hidesSign iteration
  | number _ | bool _ | string _ | var _ | step _ _ => false

/-- `hidesSign` for some tree of a list. -/
def hideSign : List (Expr K) → Bool
  | [] => false
  | a :: as => hidesSign a || hideSign as

/-- `hidesSign` for some tree of some row. -/
def rowsHideSign : List (List (Expr K)) → Bool
  | [] => false
  | row :: rows => hideSign row || rowsHideSign rows

end

mutual

/-- Whether a number of the tree has a minus sign. -/
def hasSign : Expr K → Bool
  | number value => Scalar.isNegative value
  | unary _ a => hasSign a
  | binary _ a b => hasSign a || hasSign b
  | builtin _ as | call _ as => haveSign as
  | ifThenElse c a b => hasSign c || hasSign a || hasSign b
  | assign _ _ value => hasSign value
  | _ => false

/-- `hasSign` for some tree of a list. -/
def haveSign : List (Expr K) → Bool
  | [] => false
  | a :: as => hasSign a || haveSign as

end

mutual

/-- The numbers in the tree without their signs. -/
def literals : Expr K → List K
  | number value => [Scalar.unsigned value]
  | polar magnitude phase => [Scalar.unsigned magnitude, Scalar.unsigned phase]
  | angle value => [Scalar.unsigned value.value]
  | unary _ a => literals a
  | binary _ a b => literals a ++ literals b
  | builtin _ as | call _ as => literalsOf as
  | ifThenElse c a b => literals c ++ literals a ++ literals b
  | assign _ _ value => literals value
  | _ => []

/-- The numbers in the trees of a list. -/
def literalsOf : List (Expr K) → List K
  | [] => []
  | a :: as => literals a ++ literalsOf as

end

mutual

/-- A tree whose numbers have no signs is its own reading. -/
theorem normal_of_unsigned : ∀ {e : Expr K}, e.hasSign = false → e.normal = e
  | .number value, h => by
    rw [hasSign] at h
    rw [normal, h]
    rfl
  | .unary op a, h => by
    rw [hasSign] at h
    rw [normal, normal_of_unsigned h]
  | .binary op a b, h => by
    rw [hasSign, Bool.or_eq_false_iff] at h
    rw [normal, normal_of_unsigned h.1, normal_of_unsigned h.2]
  | .builtin f as, h => by
    rw [hasSign] at h
    rw [normal, normals_of_unsigned h]
  | .call name as, h => by
    rw [hasSign] at h
    rw [normal, normals_of_unsigned h]
  | .ifThenElse c a b, h => by
    rw [hasSign, Bool.or_eq_false_iff, Bool.or_eq_false_iff] at h
    rw [normal, normal_of_unsigned h.1.1, normal_of_unsigned h.1.2, normal_of_unsigned h.2]
  | .assign op name value, h => by
    rw [hasSign] at h
    rw [normal, normal_of_unsigned h]
  | .bool _, _ | .polar _ _, _ | .string _, _ | .angle _, _ | .var _, _ | .vector _, _
  | .matrix _, _ | .ifThen _ _, _ | .forLoop _ _ _ _, _ | .whileLoop _ _, _ | .define _ _, _
  | .undefine _, _ | .step _ _, _ => rfl

/-- The same for each tree of a list. -/
theorem normals_of_unsigned : ∀ {as : List (Expr K)}, haveSign as = false → normals as = as
  | [], _ => rfl
  | a :: as, h => by
    rw [haveSign, Bool.or_eq_false_iff] at h
    rw [normals, normal_of_unsigned h.1, normals_of_unsigned h.2]

end

end Expr

end Formula

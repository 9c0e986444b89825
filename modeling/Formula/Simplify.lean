import Formula.Typing
import Formula.Value.Functions

/-!
# Simplification

`Expr.simplify` rewrites a tree from its leaves to its root. Operators and functions of literals
are evaluated where the result is a literal again; neutral operands, double negations and branches
that cannot be taken are dropped. A rule that drops an operand, or that takes it for a number,
applies only where the operand is known to be a number and, if it is dropped, changes nothing.

What counts as known depends on the variables. `simplify` assumes nothing of them, `simplifyReal`
takes them for real numbers. Both leave a simplified tree as it is.
-/

namespace Formula.Expr

variable {K : Type} [Scalar K]

/-! ## Evaluating literals -/

/-- The value of a number or truth value. -/
def literal? : Expr K → Option (Value K)
  | number a => some (.number a)
  | bool b => some (.bool b)
  | _ => none

/-- The literal of a finite number or a truth value, and otherwise the given tree. -/
def literalOr (e : Expr K) : Result K (Value K) → Expr K
  | .ok (.number a) => if Scalar.isFinite a then number a else e
  | .ok (.bool b) => bool b
  | _ => e

/-- A binary operator on evaluated operands; the right one does not count if the left one decides
the result of `&&` or `||`. -/
def applyDeciding (op : BinaryOp) (a b : Value K) : Result K (Value K) :=
  match op.decidedBy? with
  | none => a.applyBinary op b
  | some decisive => do
    let left ← a.asBool op.symbol
    if left = decisive then return .bool decisive
    else return .bool (← b.asBool op.symbol)

/-- A unary operator, evaluated on a literal. -/
def foldUnary (op : UnaryOp) (a : Expr K) : Expr K :=
  match literal? a with
  | some v => literalOr (unary op a) (v.applyUnary op)
  | none => unary op a

/-- A binary operator, evaluated on literals. -/
def foldBinary (op : BinaryOp) (a b : Expr K) : Expr K :=
  match literal? a, literal? b with
  | some v, some w => literalOr (binary op a b) (applyDeciding op v w)
  | _, _ => binary op a b

/-- A built-in call, evaluated on literals. -/
def foldBuiltin (f : Builtin) (as : List (Expr K)) : Expr K :=
  match as.mapM literal? with
  | some values => literalOr (builtin f as) (Value.applyBuiltin f values)
  | none => builtin f as

/-! ## What may be dropped -/

mutual

/-- Whether evaluating the tree can change a variable or a definition by itself. -/
def changesState : Expr K → Bool
  | number _ | bool _ | polar _ _ | string _ | angle _ | var _ => false
  | unary _ a => changesState a
  | binary _ a b | ifThen a b | whileLoop a b => changesState a || changesState b
  | builtin _ as | call _ as | vector as => changesStateList as
  | matrix rows => changesStateRows rows
  | ifThenElse a b c => changesState a || changesState b || changesState c
  | forLoop a b c d => changesState a || changesState b || changesState c || changesState d
  | define _ _ | undefine _ | assign _ _ _ | step _ _ => true

/-- `changesState` over a list of trees. -/
def changesStateList : List (Expr K) → Bool
  | [] => false
  | a :: as => changesState a || changesStateList as

/-- `changesState` over the rows of a matrix. -/
def changesStateRows : List (List (Expr K)) → Bool
  | [] => false
  | row :: rows => changesStateList row || changesStateRows rows

end

/-- Whether the tree is known to be a real number. -/
def isReal (assumed : TypeGuess) (e : Expr K) : Bool :=
  match e.type? assumed with
  | .ok guess => guess = some .number
  | .error _ => false

/-- Whether the tree is a real number that nothing is lost without. -/
def isDiscardable (assumed : TypeGuess) (e : Expr K) : Bool :=
  e.isReal assumed && !e.changesState

/-- Whether the tree is this number, down to its sign. -/
def isLiteral (value : K) (e : Expr K) : Bool := e.number?.any (Scalar.identical · value)

/-! ## Rules at one node -/

/-- The negative of a simplified tree. -/
def negated : Expr K → Expr K
  | unary .minus a => a
  | number a => number (-a)
  | a => unary .minus a

/-- A unary operator on a simplified tree. -/
def simplifyUnary (op : UnaryOp) (a : Expr K) : Expr K :=
  match op, a with
  | .minus, a => negated a
  | .not, unary .not b => b
  | op, a => foldUnary op a

/-- A binary operator on simplified trees: the first rule that applies. -/
def simplifyBinary (assumed : TypeGuess) (op : BinaryOp) (a b : Expr K) : Expr K :=
  let zero := isLiteral (K := K) Scalar.zero
  let one := isLiteral (K := K) Scalar.one
  match op with
  | .add =>
    if zero b && a.isReal assumed then a
    else if zero a && b.isReal assumed then b
    else foldBinary op a b
  | .sub =>
    if zero b then a
    else if zero a && (literal? b).isNone then negated b
    else foldBinary op a b
  | .mul =>
    if one b then a
    else if one a then b
    else if zero a && b.isDiscardable assumed then number Scalar.zero
    else if zero b && a.isDiscardable assumed then number Scalar.zero
    else foldBinary op a b
  | .div => if one b then a else foldBinary op a b
  | .pow =>
    if one b && a.isReal assumed then a
    else if zero b && a.isDiscardable assumed then number Scalar.one
    else if one a && b.isDiscardable assumed then number Scalar.one
    else foldBinary op a b
  | _ => foldBinary op a b

/-! ## The pass -/

mutual

/-- The tree with every rule applied, where every variable has the type `assumed`. The key of a
definition is a name and stays as it is. -/
def simplifyWith (assumed : TypeGuess) : Expr K → Expr K
  | unary op a => simplifyUnary op (simplifyWith assumed a)
  | binary op a b =>
    simplifyBinary assumed op (simplifyWith assumed a) (simplifyWith assumed b)
  | builtin f as =>
    if f.isSymbolic then builtin f (simplifyList assumed as)
    else foldBuiltin f (simplifyList assumed as)
  | call f as => call f (simplifyList assumed as)
  | vector as => vector (simplifyList assumed as)
  | matrix rows => matrix (simplifyRows assumed rows)
  | ifThen c a =>
    match simplifyWith assumed c with
    | bool true => simplifyWith assumed a
    | c => ifThen c (simplifyWith assumed a)
  | ifThenElse c a b =>
    match simplifyWith assumed c with
    | bool true => simplifyWith assumed a
    | bool false => simplifyWith assumed b
    | c => ifThenElse c (simplifyWith assumed a) (simplifyWith assumed b)
  | forLoop a b c d =>
    forLoop (simplifyWith assumed a) (simplifyWith assumed b) (simplifyWith assumed c)
      (simplifyWith assumed d)
  | whileLoop a c => whileLoop (simplifyWith assumed a) (simplifyWith assumed c)
  | define key value => define key (simplifyWith assumed value)
  | assign op x value => assign op x (simplifyWith assumed value)
  | e => e

/-- `simplifyWith` over a list of trees. -/
def simplifyList (assumed : TypeGuess) : List (Expr K) → List (Expr K)
  | [] => []
  | a :: as => simplifyWith assumed a :: simplifyList assumed as

/-- `simplifyWith` over the rows of a matrix. -/
def simplifyRows (assumed : TypeGuess) : List (List (Expr K)) → List (List (Expr K))
  | [] => []
  | row :: rows => simplifyList assumed row :: simplifyRows assumed rows

end

/-- The tree simplified without assuming anything of its variables. -/
def simplify (e : Expr K) : Expr K := e.simplifyWith none

/-- The tree simplified with every variable a real number. -/
def simplifyReal (e : Expr K) : Expr K := e.simplifyWith (some .number)

end Formula.Expr

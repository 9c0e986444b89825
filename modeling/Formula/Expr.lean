import Formula.Operator
import Formula.Builtin
import Formula.Angle

/-!
# Expression trees

`Expr K` is the tree of a formula with numbers from `K`: literals, variables, operators, calls,
vectors, matrices and the statements of the small language around them. A tree is a plain value
and every pass over it builds a new one. The type allows more than a formula can mean, such as an
empty vector; `Formula.Expr.Build` holds the constructors that check.

Passes recurse structurally over the tree together with its lists of trees and its rows, so that
each of them computes in the kernel and has a plain induction.
-/

namespace Formula

/-- The tree of a formula. -/
inductive Expr (K : Type) where
  /-- A real number. -/
  | number (value : K)
  /-- `true` or `false`. -/
  | bool (value : Bool)
  /-- A complex number as it is written, by its magnitude and its phase in degrees. -/
  | polar (magnitude phase : K)
  /-- A string. -/
  | string (value : String)
  /-- A number with a unit of angle. -/
  | angle (value : Angle K)
  /-- A named variable. -/
  | var (name : String)
  /-- An operator of one operand. -/
  | unary (op : UnaryOp) (operand : Expr K)
  /-- An operator of two operands. -/
  | binary (op : BinaryOp) (left right : Expr K)
  /-- A call of a built-in function. -/
  | builtin (function : Builtin) (arguments : List (Expr K))
  /-- A call of a user function, and the declaration in front of its definition. -/
  | call (name : String) (arguments : List (Expr K))
  /-- `{a, b, c}`. -/
  | vector (elements : List (Expr K))
  /-- `{{a, b}, {c, d}}`. -/
  | matrix (rows : List (List (Expr K)))
  /-- `if(condition, yes)`. -/
  | ifThen (condition yes : Expr K)
  /-- `condition ? yes : no`, also written `if(condition, yes, no)`. -/
  | ifThenElse (condition yes no : Expr K)
  /-- `for(body, init, condition, iteration)`. -/
  | forLoop (body init condition iteration : Expr K)
  /-- `while(body, condition)`. -/
  | whileLoop (body condition : Expr K)
  /-- `key := value`, where the key is a variable or the declaration of a function. -/
  | define (key value : Expr K)
  /-- `undef(key)`. -/
  | undefine (key : Expr K)
  /-- `name op= value`. -/
  | assign (op : AssignOp) (name : String) (value : Expr K)
  /-- `name++` and `name--`. -/
  | step (op : StepOp) (name : String)

/-- What a node is, without its contents. -/
inductive Kind where
  | number | bool | polar | string | angle | var
  | unary (op : UnaryOp)
  | binary (op : BinaryOp)
  | builtin (function : Builtin)
  | call | vector | matrix | conditional | forLoop | whileLoop | define | undefine | assign | step
  deriving DecidableEq, Repr

/-- The kind in words. -/
def Kind.describe : Kind → String
  | number => "number"
  | bool => "boolean"
  | polar => "complex number"
  | string => "string"
  | angle => "angle"
  | var => "variable"
  | unary .minus => "unary minus"
  | unary .not => "not"
  | unary .factorial => "factorial"
  | binary op => s!"operator '{op.symbol}'"
  | builtin function => s!"function '{function.name}'"
  | call => "user function"
  | vector => "vector"
  | matrix => "matrix"
  | conditional => "if"
  | forLoop => "for"
  | whileLoop => "while"
  | define => "def"
  | undefine => "undef"
  | assign => "assignment"
  | step => "increment"

namespace Expr

variable {K : Type}

instance [Inhabited K] : Inhabited (Expr K) := ⟨.bool false⟩

/-- The kind of a node. -/
def kind : Expr K → Kind
  | number _ => .number
  | bool _ => .bool
  | polar _ _ => .polar
  | string _ => .string
  | angle _ => .angle
  | var _ => .var
  | unary op _ => .unary op
  | binary op _ _ => .binary op
  | builtin function _ => .builtin function
  | call _ _ => .call
  | vector _ => .vector
  | matrix _ => .matrix
  | ifThen _ _ | ifThenElse _ _ _ => .conditional
  | forLoop _ _ _ _ => .forLoop
  | whileLoop _ _ => .whileLoop
  | define _ _ => .define
  | undefine _ => .undefine
  | assign _ _ _ => .assign
  | step _ _ => .step

/-- The direct subtrees of a node from left to right, a matrix row by row. The variable of an
assignment or a step belongs to the node and is no subtree. -/
def children : Expr K → List (Expr K)
  | number _ | bool _ | polar _ _ | string _ | angle _ | var _ | step _ _ => []
  | unary _ a => [a]
  | binary _ a b => [a, b]
  | builtin _ arguments | call _ arguments => arguments
  | vector elements => elements
  | matrix rows => rows.flatten
  | ifThen c a => [c, a]
  | ifThenElse c a b => [c, a, b]
  | forLoop body init condition iteration => [body, init, condition, iteration]
  | whileLoop body condition => [body, condition]
  | define key value => [key, value]
  | undefine key => [key]
  | assign _ _ value => [value]

/-- The value of a number literal. -/
def number? : Expr K → Option K
  | number value => some value
  | _ => none

/-- The name of a variable. -/
def varName? : Expr K → Option String
  | var name => some name
  | _ => none

/-! ## Occurrence of a variable -/

mutual

/-- Whether a variable of this name occurs in the tree, read or changed. -/
def hasVariable (name : String) : Expr K → Bool
  | number _ | bool _ | polar _ _ | string _ | angle _ => false
  | var x => x == name
  | unary _ a | undefine a => hasVariable name a
  | binary _ a b | ifThen a b | whileLoop a b | define a b =>
    hasVariable name a || hasVariable name b
  | builtin _ as | call _ as | vector as => hasVariableList name as
  | matrix rows => hasVariableRows name rows
  | ifThenElse c a b => hasVariable name c || hasVariable name a || hasVariable name b
  | forLoop a b c d =>
    hasVariable name a || hasVariable name b || hasVariable name c || hasVariable name d
  | assign _ x value => x == name || hasVariable name value
  | step _ x => x == name

/-- `hasVariable` over a list of trees. -/
def hasVariableList (name : String) : List (Expr K) → Bool
  | [] => false
  | a :: as => hasVariable name a || hasVariableList name as

/-- `hasVariable` over the rows of a matrix. -/
def hasVariableRows (name : String) : List (List (Expr K)) → Bool
  | [] => false
  | row :: rows => hasVariableList name row || hasVariableRows name rows

end

/-! ## Structural equality

Two trees are the same when they have the same shape, the same names and the same numbers, where
zero is the same as its negative and an undefined number the same as any other. -/

variable [Scalar K]

mutual

/-- Structural equality of trees. -/
def same : Expr K → Expr K → Bool
  | number a, e => match e with
    | number b => Scalar.same a b
    | _ => false
  | bool a, e => match e with
    | bool b => a == b
    | _ => false
  | polar m p, e => match e with
    | polar n q => Scalar.same m n && Scalar.same p q
    | _ => false
  | string a, e => match e with
    | string b => a == b
    | _ => false
  | angle a, e => match e with
    | angle b => a.same b
    | _ => false
  | var x, e => match e with
    | var y => x == y
    | _ => false
  | unary op a, e => match e with
    | unary op' a' => op == op' && same a a'
    | _ => false
  | binary op a b, e => match e with
    | binary op' a' b' => op == op' && same a a' && same b b'
    | _ => false
  | builtin f as, e => match e with
    | builtin f' as' => f == f' && sameList as as'
    | _ => false
  | call f as, e => match e with
    | call f' as' => f == f' && sameList as as'
    | _ => false
  | vector as, e => match e with
    | vector as' => sameList as as'
    | _ => false
  | matrix rows, e => match e with
    | matrix rows' => sameRows rows rows'
    | _ => false
  | ifThen c a, e => match e with
    | ifThen c' a' => same c c' && same a a'
    | _ => false
  | ifThenElse c a b, e => match e with
    | ifThenElse c' a' b' => same c c' && same a a' && same b b'
    | _ => false
  | forLoop a b c d, e => match e with
    | forLoop a' b' c' d' => same a a' && same b b' && same c c' && same d d'
    | _ => false
  | whileLoop a c, e => match e with
    | whileLoop a' c' => same a a' && same c c'
    | _ => false
  | define k v, e => match e with
    | define k' v' => same k k' && same v v'
    | _ => false
  | undefine k, e => match e with
    | undefine k' => same k k'
    | _ => false
  | assign op x v, e => match e with
    | assign op' x' v' => op == op' && x == x' && same v v'
    | _ => false
  | step op x, e => match e with
    | step op' x' => op == op' && x == x'
    | _ => false

/-- `same` position by position. -/
def sameList : List (Expr K) → List (Expr K) → Bool
  | [], bs => bs.isEmpty
  | a :: as, bs => match bs with
    | [] => false
    | b :: bs => same a b && sameList as bs

/-- `same` row by row. -/
def sameRows : List (List (Expr K)) → List (List (Expr K)) → Bool
  | [], bs => bs.isEmpty
  | a :: as, bs => match bs with
    | [] => false
    | b :: bs => sameList a b && sameRows as bs

end

/-- The number of trees in a list, the same tree counted once. -/
def countDistinct : List (Expr K) → Nat
  | [] => 0
  | a :: as => (if as.any (same a) then 0 else 1) + countDistinct as

end Expr

end Formula

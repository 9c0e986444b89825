import Formula.Value
import Formula.Scalar.Integer

/-!
# Types without evaluation

`Expr.type?` predicts the type of a tree's value. The prediction is `none` where the type depends
on what the variables hold, and an error where no value of the variables lets the operands fit.
An operand of unknown type stands for every type in turn: a result that all fitting types agree on
is the prediction, and no fitting type at all is the error.

A power, a root or a logarithm of real numbers may be complex. It is predicted to be a number only
where the tree shows that it is real: an integer exponent or a base that is not negative.
-/

namespace Formula

/-- A type, or `none` where it is unknown. -/
abbrev TypeGuess := Option ValueType

/-- The guess in words. -/
def TypeGuess.describe : TypeGuess → String
  | some t => t.describe
  | none => "undefined"

/-- Why a tree cannot have a value. -/
inductive TypeError where
  /-- A node does not take an operand of this type. -/
  | operand (kind : Kind) (actual : TypeGuess)
  /-- A binary operator does not combine operands of these types. -/
  | operands (op : BinaryOp) (left right : TypeGuess)
  /-- A function does not take an argument of this type at this place, counted from zero. -/
  | argument (function : Builtin) (index : Nat) (actual : TypeGuess)
  deriving DecidableEq, Repr

/-- The error in words. -/
def TypeError.message : TypeError → String
  | operand kind actual => s!"{kind.describe} does not accept a {actual.describe}."
  | operands op left right =>
    s!"Operator '{op.symbol}' does not accept {left.describe} and {right.describe}."
  | argument function index actual =>
    s!"Argument {index} of '{function.name}' cannot be a {actual.describe}."

namespace Typing

/-! ## Unknown operands -/

/-- The types an operand may have. -/
def candidates : TypeGuess → List ValueType
  | some t => [t]
  | none => ValueType.all

/-- What the results have in common; nothing if there are none. -/
def unify : List ValueType → Option TypeGuess
  | [] => none
  | t :: ts => some (if ts.all (· == t) then some t else none)

/-! ## Known operands -/

/-- The result of a unary operator on an operand of a type. -/
def unary? : UnaryOp → ValueType → Option ValueType
  | .minus, t => if t ∈ [.number, .complex, .angle, .vector, .matrix] then some t else none
  | .not, t => if t ∈ [.number, .boolean] then some t else none
  | .factorial, t => if t = .number then some .number else none

/-- The result of an arithmetic operator on operands of two types. -/
def arithmetic? (op : BinaryOp) : ValueType → ValueType → Option ValueType
  | .number, .number => some .number
  | .complex, .complex | .complex, .number | .number, .complex =>
    if op = .mod then none else some .complex
  | .angle, .angle =>
    if op ∈ [.add, .sub, .mod] then some .angle else if op = .div then some .number else none
  | .angle, .number => if op = .pow then none else some .angle
  | .number, .angle => if op ∈ [.add, .mul] then some .angle else none
  | .vector, .vector => if op ∈ [.add, .sub] then some .vector else none
  | .vector, .number => if op ∈ [.mul, .div] then some .vector else none
  | .number, .vector => if op = .mul then some .vector else none
  | .matrix, .vector => if op = .mul then some .vector else none
  | .matrix, .matrix => if op ∈ [.add, .sub, .mul] then some .matrix else none
  | .matrix, .number => if op ∈ [.mul, .div] then some .matrix else none
  | .number, .matrix => if op = .mul then some .matrix else none
  | a, b => if op = .add ∧ (a = .string ∨ b = .string) then some .string else none

/-- Whether values of two types can be tested for equality. -/
def equatable : ValueType → ValueType → Bool
  | .number, .complex | .complex, .number => true
  | a, b => a == b && a != .function && a != .empty

/-- The result of a binary operator on operands of two types. -/
def binary? (op : BinaryOp) (a b : ValueType) : Option ValueType :=
  match op with
  | .add | .sub | .mul | .div | .mod | .pow => arithmetic? op a b
  | .lt | .le | .gt | .ge =>
    if a = b ∧ (a = .number ∨ a = .angle) then some .boolean else none
  | .eq | .ne => if equatable a b then some .boolean else none
  | .and | .or | .xor | .nand | .nor =>
    if a = b ∧ (a = .number ∨ a = .boolean) then some a else none
  | .andThen | .orElse | .implies | .iff =>
    if a = .boolean ∧ b = .boolean then some .boolean else none
  | .shiftLeft | .shiftRight => if a = .number ∧ b = .number then some .number else none

/-- The result `t` if all types are allowed, or the index of the first that is not. -/
def allowing (allowed : List ValueType) (t : ValueType) (arguments : List ValueType) :
    Except Nat ValueType :=
  match arguments.findIdx? (· ∉ allowed) with
  | some index => .error index
  | none => .ok t

/-- The result of a built-in function on arguments of the given types, or the index of the first
argument that does not fit. -/
def builtin (f : Builtin) (arguments : List ValueType) : Except Nat ValueType :=
  let first := arguments.head?
  let realOrComplex (ofComplex : ValueType) : Except Nat ValueType :=
    allowing [.number, .complex] (if first = some .complex then ofComplex else .number) arguments
  match f with
  | .abs =>
    match first with
    | some .number | some .complex | some .vector => .ok .number
    | some .angle => .ok .angle
    | _ => .error 0
  | .sqrt | .exp | .ln | .lg | .lb | .log | .conjugate | .reciprocal => realOrComplex .complex
  | .sin | .cos | .tan | .cot | .sec | .csc | .sinh | .cosh | .tanh | .coth | .sech | .csch =>
    match first with
    | some .number | some .angle => .ok .number
    | some .complex => .ok .complex
    | _ => .error 0
  | .floor | .ceil | .trunc | .frac =>
    match first with
    | some .number => .ok .number
    | some .angle => .ok .angle
    | _ => .error 0
  | .re | .im | .phase => realOrComplex .number
  | .toDegree | .toRadian | .toGradian => allowing [.angle] .angle arguments
  | .toNumber => allowing [.number, .angle] .number arguments
  | .toBinary | .toOctal | .toHex => allowing [.number] .string arguments
  | .transpose => allowing [.matrix, .vector] .matrix arguments
  | .determinant => allowing [.matrix] .number arguments
  | .inverse => allowing [.matrix] .matrix arguments
  | .dotProduct => allowing [.vector] .number arguments
  | .crossProduct => allowing [.vector] .vector arguments
  | .derivative | .simplify => .ok .function
  | .max | .min | .average | .sum | .product =>
    if arguments = [.vector] then .ok .number else allowing [.number] .number arguments
  | _ => allowing [.number] .number arguments

/-! ## Calls with unknown arguments -/

/-- The types of all arguments, if all are known. -/
def known? (arguments : List TypeGuess) : Option (List ValueType) := arguments.mapM id

/-- The results of a call with each type in turn for all unknown arguments. -/
def attempts (f : Builtin) (arguments : List TypeGuess) : List (Except Nat ValueType) :=
  ValueType.all.map fun candidate => builtin f (arguments.map (·.getD candidate))

/-- The result of a call with unknown arguments. -/
def callUnknown (f : Builtin) (arguments : List TypeGuess) : Except TypeError TypeGuess :=
  let results := attempts f arguments
  match unify (results.filterMap Except.toOption) with
  | some guess => .ok guess
  | none =>
    let index := (results.findSome? fun | .error index => some index | .ok _ => none).getD 0
    .error (.argument f index (arguments.getD index none))

/-! ## Real results -/

variable {K : Type} [Scalar K]

/-- Whether a tree is a number literal that is not negative. -/
def isNonNegative (e : Expr K) : Bool := e.number?.any (Scalar.le Scalar.zero ·)

/-- Whether a power is real whatever real numbers the two trees stand for. -/
def isRealPower (base exponent : Expr K) : Bool :=
  exponent.number?.any Scalar.isIntegral || isNonNegative base

/-- A guess that counts only if it is known to be true. -/
def provided (certain : Bool) (guess : TypeGuess) : TypeGuess :=
  if guess = some .number ∧ !certain then none else guess

end Typing

namespace Expr

open Typing

variable {K : Type} [Scalar K]

/-- Refuses an element or a condition that is neither unknown nor of the type. -/
def checkType (kind : Kind) (expected : ValueType) (actual : TypeGuess) : Except TypeError Unit :=
  if actual = none ∨ actual = some expected then .ok () else .error (.operand kind actual)

/-- The result of a built-in call from the guesses at its arguments. -/
def callType (f : Builtin) (arguments : List (Expr K)) (guesses : List TypeGuess) :
    Except TypeError TypeGuess :=
  match known? guesses with
  | some types =>
    match Typing.builtin f types with
    | .ok t => .ok (provided (!f.mayLeaveReals || arguments.head?.any isNonNegative) (some t))
    | .error index => .error (.argument f index (guesses.getD index none))
  | none => callUnknown f guesses

/-- A result that operators give, or the error that they give none. -/
def orMismatch (error : TypeError) (results : List ValueType) : Except TypeError TypeGuess :=
  match unify results with
  | some guess => .ok guess
  | none => .error error

mutual

/-- The type of the tree's value, where every variable has the type `assumed`. -/
def type? (assumed : TypeGuess) : Expr K → Except TypeError TypeGuess
  | number _ => .ok (some .number)
  | bool _ => .ok (some .boolean)
  | polar _ _ => .ok (some .complex)
  | string _ => .ok (some .string)
  | angle _ => .ok (some .angle)
  | var _ => .ok assumed
  | unary op a => do
    let t ← type? assumed a
    orMismatch (.operand (.unary op) t) ((candidates t).filterMap (unary? op))
  | binary op a b => do
    let s ← type? assumed a
    let t ← type? assumed b
    let guess ← orMismatch (.operands op s t)
      ((candidates s).flatMap fun l => (candidates t).filterMap (binary? op l))
    return provided (op != .pow || isRealPower a b) guess
  | builtin f as =>
    if f.isSymbolic then .ok (if as.length = 3 then none else some .function)
    else do callType f as (← types? assumed as)
  | call _ as => do
    let _ ← types? assumed as
    return none
  | vector as => do
    checkElements .vector assumed as
    return some .vector
  | matrix rows => do
    checkRows assumed rows
    return some .matrix
  | ifThen c a => do
    checkType .conditional .boolean (← type? assumed c)
    let _ ← type? assumed a
    return none
  | ifThenElse c a b => do
    checkType .conditional .boolean (← type? assumed c)
    let s ← type? assumed a
    let t ← type? assumed b
    return if s = t then s else none
  | forLoop body init condition iteration => do
    let _ ← type? assumed init
    checkType .forLoop .boolean (← type? assumed condition)
    let _ ← type? assumed body
    let _ ← type? assumed iteration
    return some .empty
  | whileLoop body condition => do
    checkType .whileLoop .boolean (← type? assumed condition)
    let _ ← type? assumed body
    return some .empty
  | define key value => do
    if key.varName?.isSome then let _ ← type? assumed value
    return some .string
  | undefine _ => .ok (some .string)
  | assign op _ value => do
    let t ← type? assumed value
    orMismatch (.operands op.binary (some .number) t)
      ((candidates t).filterMap (binary? op.binary .number))
  | step _ _ => .ok (some .number)

/-- The types of a list of trees. -/
def types? (assumed : TypeGuess) : List (Expr K) → Except TypeError (List TypeGuess)
  | [] => .ok []
  | a :: as => do
    let t ← type? assumed a
    return t :: (← types? assumed as)

/-- Refuses elements that cannot be numbers. -/
def checkElements (kind : Kind) (assumed : TypeGuess) : List (Expr K) → Except TypeError Unit
  | [] => .ok ()
  | a :: as => do
    checkType kind .number (← type? assumed a)
    checkElements kind assumed as

/-- Refuses rows with elements that cannot be numbers. -/
def checkRows (assumed : TypeGuess) : List (List (Expr K)) → Except TypeError Unit
  | [] => .ok ()
  | row :: rows => do
    checkElements .matrix assumed row
    checkRows assumed rows

end

end Expr

end Formula

import Formula.Value.Error

/-!
# Derivatives

`Expr.derivative` differentiates a tree by one variable: sums, products, quotients and powers by
their rules, the built-in functions by the chain rule. A subtree that does not mention the
variable has the derivative zero, whatever it is. The result is not simplified. A node that
mentions the variable and has no rule is an error that names the node's kind.
-/

namespace Formula.Expr

variable {K : Type} [Scalar K]

/-! ## Building blocks -/

/-- An integer as a literal. -/
def integer (n : Int) : Expr K := number (Scalar.ofInt n)

/-- A built-in call in a derivative. -/
def derived (f : Builtin) (arguments : List (Expr K)) : Except DerivativeError (Expr K) :=
  match mkBuiltin f arguments with
  | .ok e => .ok e
  | .error cause => .error (.construction cause)

/-- The square of a tree. -/
def square (u : Expr K) : Expr K := binary .pow u (integer 2)

/-- The product of two trees. -/
def times (a b : Expr K) : Expr K := binary .mul a b

/-- The quotient of two trees. -/
def quotient (a b : Expr K) : Expr K := binary .div a b

/-- The sum of two trees. -/
def plus (a b : Expr K) : Expr K := binary .add a b

/-- The difference of two trees. -/
def minus (a b : Expr K) : Expr K := binary .sub a b

/-- The negative of a tree. -/
def opposite (a : Expr K) : Expr K := unary .minus a

/-! ## The chain rule -/

/-- The derivative of `f u` from the derivative `du` of `u`, where `second?` is the second argument
of the call and does not mention the variable. -/
def chainRule (f : Builtin) (u du : Expr K) (second? : Option (Expr K)) :
    Except DerivativeError (Expr K) := do
  let of (g : Builtin) : Except DerivativeError (Expr K) := derived g [u]
  let rootOf (e : Expr K) : Except DerivativeError (Expr K) := derived .sqrt [e]
  match f with
  | .abs => return times du (← of .sign)
  | .sqrt => return quotient du (times (integer 2) (← of .sqrt))
  | .exp => return times du (← of .exp)
  | .ln => return quotient du u
  | .lg => return quotient du (times u (← derived .ln [integer 10]))
  | .lb => return quotient du (times u (← derived .ln [integer 2]))
  | .root =>
    match second? with
    | some n => return quotient (times du (← derived .root [u, n])) (times n u)
    | none => .error (.noRule (.builtin f))
  | .log =>
    match second? with
    | some base => return quotient du (times u (← derived .ln [base]))
    | none => .error (.noRule (.builtin f))
  | .sin => return times du (← of .cos)
  | .cos => return opposite (times du (← of .sin))
  | .tan => return quotient du (square (← of .cos))
  | .cot => return opposite (quotient du (square (← of .sin)))
  | .sec => return times du (times (← of .tan) (← of .sec))
  | .csc => return opposite (times du (times (← of .cot) (← of .csc)))
  | .arcsin => return quotient du (← rootOf (minus (integer 1) (square u)))
  | .arccos => return opposite (quotient du (← rootOf (minus (integer 1) (square u))))
  | .arctan => return quotient du (plus (integer 1) (square u))
  | .arccot => return opposite (quotient du (plus (integer 1) (square u)))
  | .arcsec => return quotient du (times (← of .abs) (← rootOf (minus (square u) (integer 1))))
  | .arccsc =>
    return opposite (quotient du (times (← of .abs) (← rootOf (minus (square u) (integer 1)))))
  | .sinh => return times du (← of .cosh)
  | .cosh => return times du (← of .sinh)
  | .tanh => return quotient du (square (← of .cosh))
  | .coth => return opposite (quotient du (square (← of .sinh)))
  | .sech => return opposite (times du (times (← of .tanh) (← of .sech)))
  | .csch => return opposite (times du (times (← of .coth) (← of .csch)))
  | .arsinh => return quotient du (← rootOf (plus (square u) (integer 1)))
  | .arcosh => return quotient du (← rootOf (minus (square u) (integer 1)))
  | .artanh | .arcoth => return quotient du (minus (integer 1) (square u))
  | .arsech => return opposite (quotient du (times u (← rootOf (minus (integer 1) (square u)))))
  | .arcsch =>
    return opposite (quotient du (times (← of .abs) (← rootOf (plus (integer 1) (square u)))))
  | _ => .error (.noRule (.builtin f))

/-! ## The rules -/

/-- The derivative of `u ^ v` from those of `u` and `v`: the power rule if the exponent is constant,
the exponential rule if the base is, and otherwise through the logarithm. -/
def powerRule (x : String) (u v du dv : Expr K) : Except DerivativeError (Expr K) := do
  if !v.hasVariable x then
    return times (times v (binary .pow u (minus v (integer 1)))) du
  else if !u.hasVariable x then
    return times (times (binary .pow u v) (← derived .ln [u])) dv
  else
    return times (binary .pow u v) (plus (times dv (← derived .ln [u])) (quotient (times v du) u))

/-- The derivative by the variable `x`. -/
def derivative (x : String) (e : Expr K) : Except DerivativeError (Expr K) :=
  if !e.hasVariable x then .ok (integer 0)
  else match e with
    | var _ => .ok (integer 1)
    | unary .minus a => do return opposite (← derivative x a)
    | binary .add a b => do return plus (← derivative x a) (← derivative x b)
    | binary .sub a b => do return minus (← derivative x a) (← derivative x b)
    | binary .mul a b => do
      let da ← derivative x a
      let db ← derivative x b
      return plus (times da b) (times a db)
    | binary .div a b => do
      let da ← derivative x a
      let db ← derivative x b
      return quotient (minus (times da b) (times a db)) (square b)
    | binary .pow a b => do
      let db ← derivative x b
      let da ← derivative x a
      powerRule x a b da db
    | builtin f (a :: rest) =>
      if rest.head?.any (hasVariable x) then .error (.noRule (.builtin f))
      else do chainRule f a (← derivative x a) rest.head?
    | other => .error (.noRule other.kind)

end Formula.Expr

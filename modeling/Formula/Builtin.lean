/-!
# Built-in functions

The functions every formula may call, with the name and the number of arguments of each. The
order of the constructors is the order of the table. `ofName?` reads a name back; a name that it
does not know is free for user functions.
-/

namespace Formula

/-- The built-in functions. -/
inductive Builtin where
  | abs | sqrt | root | exp | ln | lg | lb | log
  | sin | cos | tan | cot | sec | csc
  | arcsin | arccos | arctan | arccot | arcsec | arccsc
  | sinh | cosh | tanh | coth | sech | csch
  | arsinh | arcosh | artanh | arcoth | arsech | arcsch
  | floor | ceil | trunc | frac | round | sign
  | re | im | phase | conjugate | reciprocal
  | toDegree | toRadian | toGradian | toNumber | toBinary | toOctal | toHex
  | max | min | average | sum | product | gcd | lcm
  | transpose | determinant | inverse | dotProduct | crossProduct
  | derivative | simplify
  deriving DecidableEq, Repr

/-- How many arguments a function takes; without `max?` there is no upper bound. -/
structure Arity where
  min : Nat
  max? : Option Nat
  deriving DecidableEq, Repr

namespace Arity

/-- Exactly `n` arguments. -/
def exactly (n : Nat) : Arity := ⟨n, some n⟩

/-- From `m` to `n` arguments. -/
def between (m n : Nat) : Arity := ⟨m, some n⟩

/-- At least `n` arguments. -/
def atLeast (n : Nat) : Arity := ⟨n, none⟩

/-- Whether `count` arguments are accepted. -/
def accepts (arity : Arity) (count : Nat) : Bool :=
  arity.min ≤ count && match arity.max? with
    | some max => count ≤ max
    | none => true

/-- The accepted counts in words. -/
def describe (arity : Arity) : String :=
  match arity.max? with
  | some max =>
    if max = arity.min then s!"{arity.min} argument(s)"
    else s!"between {arity.min} and {max} arguments"
  | none => s!"at least {arity.min} argument(s)"

end Arity

namespace Builtin

/-- Every built-in function. -/
def all : List Builtin :=
  [.abs, .sqrt, .root, .exp, .ln, .lg, .lb, .log,
    .sin, .cos, .tan, .cot, .sec, .csc,
    .arcsin, .arccos, .arctan, .arccot, .arcsec, .arccsc,
    .sinh, .cosh, .tanh, .coth, .sech, .csch,
    .arsinh, .arcosh, .artanh, .arcoth, .arsech, .arcsch,
    .floor, .ceil, .trunc, .frac, .round, .sign,
    .re, .im, .phase, .conjugate, .reciprocal,
    .toDegree, .toRadian, .toGradian, .toNumber, .toBinary, .toOctal, .toHex,
    .max, .min, .average, .sum, .product, .gcd, .lcm,
    .transpose, .determinant, .inverse, .dotProduct, .crossProduct,
    .derivative, .simplify]

/-- The name a formula calls the function by. -/
def name : Builtin → String
  | .abs => "abs"
  | .sqrt => "sqrt"
  | .root => "root"
  | .exp => "exp"
  | .ln => "ln"
  | .lg => "lg"
  | .lb => "lb"
  | .log => "log"
  | .sin => "sin"
  | .cos => "cos"
  | .tan => "tan"
  | .cot => "cot"
  | .sec => "sec"
  | .csc => "csc"
  | .arcsin => "arcsin"
  | .arccos => "arccos"
  | .arctan => "arctan"
  | .arccot => "arccot"
  | .arcsec => "arcsec"
  | .arccsc => "arccsc"
  | .sinh => "sinh"
  | .cosh => "cosh"
  | .tanh => "tanh"
  | .coth => "coth"
  | .sech => "sech"
  | .csch => "csch"
  | .arsinh => "arsinh"
  | .arcosh => "arcosh"
  | .artanh => "artanh"
  | .arcoth => "arcoth"
  | .arsech => "arsech"
  | .arcsch => "arcsch"
  | .floor => "floor"
  | .ceil => "ceil"
  | .trunc => "trunc"
  | .frac => "frac"
  | .round => "round"
  | .sign => "sign"
  | .re => "re"
  | .im => "im"
  | .phase => "phase"
  | .conjugate => "conjugate"
  | .reciprocal => "reciprocal"
  | .toDegree => "todeg"
  | .toRadian => "torad"
  | .toGradian => "tograd"
  | .toNumber => "tonumber"
  | .toBinary => "tobin"
  | .toOctal => "tooct"
  | .toHex => "tohex"
  | .max => "max"
  | .min => "min"
  | .average => "avg"
  | .sum => "sum"
  | .product => "product"
  | .gcd => "gcd"
  | .lcm => "lcm"
  | .transpose => "transpose"
  | .determinant => "det"
  | .inverse => "inverse"
  | .dotProduct => "dotproduct"
  | .crossProduct => "crossproduct"
  | .derivative => "deriv"
  | .simplify => "simplify"

/-- The number of arguments a function takes. -/
def arity : Builtin → Arity
  | .root | .log | .dotProduct | .crossProduct => .exactly 2
  | .round => .between 1 2
  | .derivative => .between 1 3
  | .max | .min | .average | .sum | .product => .atLeast 1
  | .gcd | .lcm => .atLeast 2
  | _ => .exactly 1

/-- The function called by a name, if the name is taken. -/
def ofName? (name : String) : Option Builtin := all.find? (·.name == name)

/-- Takes its first argument as a tree and not as a value. -/
def isSymbolic : Builtin → Bool
  | .derivative | .simplify => true
  | _ => false

/-- Leaves the real line for some real arguments. -/
def mayLeaveReals : Builtin → Bool
  | .sqrt | .root | .ln | .lg | .lb | .log => true
  | _ => false

end Builtin

end Formula

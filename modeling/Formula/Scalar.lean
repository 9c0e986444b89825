/-!
# The numbers a formula computes with

`Scalar K` lists what the rest of the library asks of its real numbers: field operations, order
tests, elementary functions, constants and a decimal text. It is an interface of operations
without laws. The tree, the parser, the evaluator and the symbolic passes are written over any
`Scalar K`; programs run them at double precision, and a law such as "the determinant is the
signed sum over permutations" is stated at a `K` whose operations are exact.

Everything that follows from the listed operations alone (the larger of two numbers, a sign
copied from one number to another, structural equality) is defined below the class, once for
every `K`.
-/

namespace Formula

/-! ## Powers

The powers of natural numbers and integers are the built-in ones, whatever else is imported. -/

@[default_instance 20000]
instance (priority := 2000) builtinPowNat : Pow Nat Nat := instPowNat
@[default_instance 20000]
instance (priority := 2000) builtinPowInt : Pow Int Nat := instPowNat

/-! ## Scalars -/

/-- The one-argument real functions a scalar type supplies. -/
inductive Elementary where
  | sqrt | exp | ln | log10 | log2
  | sin | cos | tan | arcsin | arccos | arctan
  | sinh | cosh | tanh | arsinh | arcosh | artanh
  | floor | ceil | round | trunc
  deriving DecidableEq, Repr

/-- The operations that formulas need of their real numbers. -/
class Scalar (K : Type) extends Add K, Sub K, Mul K, Div K, Neg K where
  /-- The nearest number to an integer. -/
  ofInt : Int → K
  /-- The nearest number to `mantissa * 10 ^ exponent`. -/
  ofDecimal : Nat → Int → K
  /-- The larger bound of the number line, where there is one. -/
  infinity : K
  /-- Half a turn in radians. -/
  pi : K
  /-- The base of the natural logarithm. -/
  euler : K
  /-- The natural logarithm of two. -/
  ln2 : K
  /-- The natural logarithm of ten. -/
  ln10 : K
  /-- The decimal text shown for a number. -/
  text : K → String
  /-- The exact integer a number denotes, if it denotes one. -/
  toInt? : K → Option Int
  /-- Neither infinite nor undefined. -/
  isFinite : K → Bool
  /-- Carries a minus sign, as a negative zero does. -/
  isNegative : K → Bool
  /-- Numeric equality. -/
  eq : K → K → Bool
  /-- Strict numeric order. -/
  lt : K → K → Bool
  /-- Sameness of representation, which tells a negative zero from zero. -/
  identical : K → K → Bool
  /-- The total order that ranks every number, the undefined ones included. -/
  rank : K → K → Ordering
  /-- Distance from zero. -/
  abs : K → K
  /-- Remainder of a division rounded toward zero. -/
  rem : K → K → K
  /-- `mulAdd a b c` is `a * b + c`, rounded once. -/
  mulAdd : K → K → K → K
  /-- General power. -/
  pow : K → K → K
  /-- `hypot a b` is the length of the hypotenuse over legs `a` and `b`. -/
  hypot : K → K → K
  /-- `atan2 y x` is the direction of the point `(x, y)` in radians. -/
  atan2 : K → K → K
  /-- The number halfway between two numbers. -/
  midpoint : K → K → K
  /-- The elementary functions. -/
  elementary : Elementary → K → K

namespace Scalar

variable {K : Type} [Scalar K]

/-- The number zero. -/
def zero : K := ofInt 0

/-- The number one. -/
def one : K := ofInt 1

/-- The number two. -/
def two : K := ofInt 2

/-- The number ten. -/
def ten : K := ofInt 10

instance : Inhabited K := ⟨zero⟩

/-- Equals no number, not even itself. -/
def isUndefined (a : K) : Bool := !eq a a

/-- Order with equality; an undefined number is in order with none. -/
def le (a b : K) : Bool := lt a b || eq a b

/-- Structural equality: numeric equality, with every undefined number equal to every other. -/
def same (a b : K) : Bool := eq a b || (isUndefined a && isUndefined b)

/-- The larger of two numbers; an undefined one gives way to the other. -/
def max (a b : K) : K :=
  if isUndefined a then b else if isUndefined b then a else if lt a b then b else a

/-- The smaller of two numbers; an undefined one gives way to the other. -/
def min (a b : K) : K :=
  if isUndefined a then b else if isUndefined b then a else if lt b a then b else a

/-- The magnitude of `a` under the sign of `b`. -/
def copySign (a b : K) : K := if isNegative b then -abs a else abs a

/-- One over a number. -/
def recip (a : K) : K := one / a

/-- What is left of a number without its integer part. -/
def frac (a : K) : K := a - elementary .trunc a

/-- One under the sign of the number; an undefined number stays undefined. -/
def signum (a : K) : K := if isUndefined a then a else copySign one a

/-- A natural power by repeated squaring, lowest binary digit first. -/
def powNat (base : K) (n : Nat) : K :=
  go n base n one
where
  /-- The product of `acc` and `base ^ n`; `fuel` bounds the binary digits of `n`. -/
  go : Nat → K → Nat → K → K
    | 0, _, _, acc => acc
    | fuel + 1, base, n, acc =>
      let acc := if n % 2 = 1 then acc * base else acc
      if n / 2 = 0 then acc else go fuel (base * base) (n / 2) acc

/-- The sum of a list from the left. The empty sum is the negative zero, which changes no
summand. -/
def sum (values : List K) : K := values.foldl (· + ·) (-zero)

/-- The product of a list from the left. -/
def product (values : List K) : K := values.foldl (· * ·) one

end Scalar

end Formula

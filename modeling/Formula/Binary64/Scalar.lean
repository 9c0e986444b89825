import Formula.Scalar
import Formula.Binary64.Decimal

/-!
# Double precision as a scalar type

Field operations and the elementary functions are the machine's; signs, comparisons, rounding to
integers, remainders, fused products, hypotenuses and decimal texts are the exact ones of
`Binary64`. The inverse hyperbolic functions are logarithms, written so that arguments near the
point where they vanish lose no digits and large ones do not overflow.
-/

namespace Formula.Binary64

/-! ## Constants -/

/-- The number one. -/
def one : Binary64 := ofInt 1

/-- The number two. -/
def two : Binary64 := ofInt 2

/-- The natural logarithm of two. -/
def ln2 : Binary64 := ⟨0x3fe62e42fefa39ef⟩

/-! ## Inverse hyperbolic functions -/

/-- The natural logarithm. -/
def ln (x : Binary64) : Binary64 := x.map Float.log

/-- The square root. -/
def sqrt (x : Binary64) : Binary64 := x.map Float.sqrt

/-- The logarithm of `1 + x`. Where the sum rounds, the quotient `x / ((1 + x) - 1)` makes up for
the digits it lost. -/
def lnOnePlus (x : Binary64) : Binary64 :=
  let shifted := one + x
  if shifted.eq one then x
  else if shifted.eq infinity then shifted
  else ln shifted * (x / (shifted - one))

/-- From here on one more or less under a square root does not change a double. -/
def large : Binary64 := ofInt (2 ^ 28)

/-- The logarithm of `2 * x`, also where the product overflows. -/
def lnTwice (x : Binary64) : Binary64 := ln x + ln2

/-- Inverse hyperbolic sine. -/
def arsinh (x : Binary64) : Binary64 :=
  let size := x.abs
  let inverse := one / size
  let result :=
    if large.le size then lnTwice size
    else lnOnePlus (size + size / (hypot one inverse + inverse))
  copySign result x

/-- Inverse hyperbolic cosine, undefined below one. -/
def arcosh (x : Binary64) : Binary64 :=
  let excess := x - one
  if x.lt one then undefined false
  else if large.le x then lnTwice x
  else lnOnePlus (excess + sqrt (two * excess + excess * excess))

/-- Inverse hyperbolic tangent. -/
def artanh (x : Binary64) : Binary64 := lnOnePlus (two * x / (one - x)) / two

/-! ## The scalar type -/

/-- The elementary functions at double precision. -/
def elementary : Elementary → Binary64 → Binary64
  | .sqrt => sqrt
  | .exp => map Float.exp
  | .ln => ln
  | .log10 => map Float.log10
  | .log2 => map Float.log2
  | .sin => map Float.sin
  | .cos => map Float.cos
  | .tan => map Float.tan
  | .arcsin => map Float.asin
  | .arccos => map Float.acos
  | .arctan => map Float.atan
  | .sinh => map Float.sinh
  | .cosh => map Float.cosh
  | .tanh => map Float.tanh
  | .arsinh => arsinh
  | .arcosh => arcosh
  | .artanh => artanh
  | .floor => roundToInt .down
  | .ceil => roundToInt .up
  | .round => roundToInt .halfAway
  | .trunc => roundToInt .towardZero

/-- The double halfway between two doubles. Halving before the sum avoids an overflow, and a
number near zero is not halved, which would drop its last digit. -/
def midpoint (x y : Binary64) : Binary64 :=
  let big : Binary64 := ⟨0x7fdfffffffffffff⟩
  let small : Binary64 := ⟨0x0020000000000000⟩
  if x.abs.le big && y.abs.le big then (x + y) / two
  else if x.abs.lt small then x + y / two
  else if y.abs.lt small then x / two + y
  else x / two + y / two

instance scalar : Scalar Binary64 where
  ofInt := ofInt
  ofDecimal := ofDecimal
  infinity := infinity
  pi := ⟨0x400921fb54442d18⟩
  euler := ⟨0x4005bf0a8b145769⟩
  ln2 := ln2
  ln10 := ⟨0x40026bb1bbb55516⟩
  text := text
  toInt? := toInt?
  isFinite := isFinite
  isNegative := isNegative
  eq := eq
  lt := lt
  identical x y := x == y
  rank x y := compare x.place y.place
  abs := abs
  rem := rem
  mulAdd := mulAdd
  pow := map₂ Float.pow
  hypot := hypot
  atan2 := map₂ Float.atan2
  midpoint := midpoint
  elementary := elementary

end Formula.Binary64

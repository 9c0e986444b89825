import Formula.Value.Operators

/-!
# Built-in functions on values

What each built-in function makes of evaluated arguments. Most functions look at their first
argument alone. Trigonometric functions take an angle in radians and a plain number as radians;
square roots and logarithms of negative numbers are complex; rounding keeps the unit of an angle;
the statistical functions take numbers or one vector.
-/

namespace Formula.Value

variable {K : Type} [Scalar K]

open Scalar (elementary recip zero one two ten)

/-- The error for arguments that a function does not take. -/
def unsupportedCall (f : Builtin) (arguments : List (Value K)) : RuntimeError K :=
  .unsupported f.name (arguments.map type)

/-! ## Functions of one number -/

/-- A function of a real number. -/
def ofReal (f : Builtin) (g : K → K) : Value K → Result K (Value K)
  | number a => .ok (number (g a))
  | v => .error (unsupportedCall f [v])

/-- A function of a real or complex number. -/
def ofComplex (f : Builtin) (g : K → K) (h : Complex K → Complex K) : Value K → Result K (Value K)
  | complex z => .ok (complex (h z))
  | v => ofReal f g v

/-- A function of a real number that keeps the unit of an angle. -/
def ofAngle (f : Builtin) (g : K → K) : Value K → Result K (Value K)
  | angle a => .ok (angle (a.map g))
  | v => ofReal f g v

/-- A function of a direction: an angle, a number of radians or a complex number. -/
def trigonometric (f : Builtin) (g : K → K) (h : Complex K → Complex K) :
    Value K → Result K (Value K)
  | angle a => .ok (number (g a.radians))
  | v => ofComplex f g h v

/-- A logarithm to a base with the given natural logarithm; off the positive real numbers it is
the principal natural logarithm divided by that. -/
def logarithm (f : Builtin) (g : K → K) (lnBase : K) (v : Value K) : Result K (Value K) :=
  let general (z : Complex K) : Complex K := z.ln / Complex.ofReal lnBase
  match v with
  | number a =>
    if Scalar.lt a zero then .ok (complex (general (.ofReal a))) else .ok (number (g a))
  | v => ofComplex f g general v

/-- A real part of a complex number; a real number is one. -/
def partOf (f : Builtin) (g : Complex K → K) : Value K → Result K (Value K)
  | number a => .ok (number (g (.ofReal a)))
  | complex z => .ok (number (g z))
  | v => .error (unsupportedCall f [v])

/-- An angle in another unit. -/
def inUnit (f : Builtin) (unit : AngleUnit) : Value K → Result K (Value K)
  | angle a => .ok (angle (a.convert unit))
  | v => .error (unsupportedCall f [v])

/-- The size of a value. -/
def absolute : Value K → Result K (Value K)
  | complex z => .ok (number z.abs)
  | angle a => .ok (angle (a.map Scalar.abs))
  | vector v => .ok (number (elementary .sqrt (Scalar.sum (v.map fun x => x * x))))
  | v => ofReal .abs Scalar.abs v

/-- The square root; that of a negative number is complex. -/
def squareRoot : Value K → Result K (Value K)
  | number a =>
    if Scalar.lt a zero then .ok (complex (Complex.ofReal a).sqrt)
    else .ok (number (elementary .sqrt a))
  | v => ofComplex .sqrt (elementary .sqrt) Complex.sqrt v

/-- The root of a degree. An odd root of a negative number is real, any other is complex. -/
def root (a degree : K) : Value K :=
  if Scalar.lt a zero then
    let rest := Scalar.rem degree two
    if Scalar.eq rest one || Scalar.eq rest (-one) then
      number (-Scalar.pow (-a) (recip degree))
    else complex ((Complex.ofReal a).pow (.ofReal (recip degree)))
  else number (Scalar.pow a (recip degree))

/-- A number rounded to a number of decimal places, a half away from zero. The places are counted
in thirty-two bits. -/
def roundTo (a : K) (places : Int) : Result K (Value K) :=
  if places < -(2 ^ 31) ∨ 2 ^ 31 ≤ places then
    .error (.invalidArgument "round" s!"{places} digits")
  else if places < 0 then
    .error (.invalidArgument "round" "the number of digits cannot be negative")
  else
    let scale := Scalar.powNat ten places.toNat
    .ok (number (elementary .round (a * scale) / scale))

/-- The digits of a natural number in a base, in lower case. -/
def digitsIn (base n : Nat) : String := String.ofList (Nat.toDigits base n)

/-- An integer in another base behind the mark of the base. -/
def inBase (f : Builtin) (base : Nat) (mark : String) (v : Value K) : Result K (Value K) := do
  let n ← v.asInteger f.name
  return string ((if n < 0 then "-" else "") ++ mark ++ digitsIn base n.natAbs)

/-! ## Functions of several numbers -/

/-- The second argument as a number. -/
def secondNumber (f : Builtin) (arguments : List (Value K)) : Result K K :=
  match arguments[1]? with
  | some v => v.asNumber f.name
  | none => .error (unsupportedCall f arguments)

/-- The numbers of a statistical function: the elements of one vector, or the arguments. -/
def numbersOf (f : Builtin) (arguments : List (Value K)) : Result K (List K) :=
  match arguments with
  | [vector elements] => .ok elements
  | _ => arguments.mapM fun
    | number a => .ok a
    | _ => .error (unsupportedCall f arguments)

/-- A function of the numbers of a statistical function. -/
def statistic (f : Builtin) (g : List K → K) (arguments : List (Value K)) : Result K (Value K) := do
  return number (g (← numbersOf f arguments))

/-- The average of a list. -/
def average (values : List K) : K := Scalar.sum values / Scalar.ofInt values.length

/-- An operation on integers over all arguments from the left. -/
def foldIntegers (f : Builtin) (g : Int → Int → Int) (arguments : List (Value K)) :
    Result K (Value K) :=
  match arguments with
  | [] => .error (unsupportedCall f [])
  | first :: rest => do
    let start ← first.asInteger f.name
    let result ← rest.foldlM (fun acc v => return g acc (← v.asInteger f.name)) start
    ofInteger f.name result

/-- An operation on exactly two vectors. -/
def ofTwoVectors {α : Type} (f : Builtin) (g : List K → List K → Result K α)
    (arguments : List (Value K)) : Result K α :=
  match arguments with
  | [a, b] => do g (← a.asVector f.name) (← b.asVector f.name)
  | _ => .error (unsupportedCall f arguments)

/-- A matrix with rows and columns exchanged; a vector becomes a column. -/
def transposed (arguments : List (Value K)) : Value K → Result K (Value K)
  | matrix m => .ok (matrix (Matrix.transpose m))
  | vector v => .ok (matrix (v.map fun a => [a]))
  | _ => .error (unsupportedCall .transpose arguments)

/-! ## The table -/

/-- A built-in function on its first argument and on all arguments. -/
def callWith (f : Builtin) (first : Value K) (arguments : List (Value K)) : Result K (Value K) :=
  match f with
  | .abs => absolute first
  | .sqrt => squareRoot first
  | .root => do
    let a ← first.asNumber f.name
    return root a (← secondNumber f arguments)
  | .exp => ofComplex f (elementary .exp) Complex.exp first
  | .ln => logarithm f (elementary .ln) one first
  | .lg => logarithm f (elementary .log10) Scalar.ln10 first
  | .lb => logarithm f (elementary .log2) Scalar.ln2 first
  | .log => do
    let base ← secondNumber f arguments
    let lnBase := elementary .ln base
    logarithm f (fun x => elementary .ln x / lnBase) lnBase first
  | .sin => trigonometric f (elementary .sin) Complex.sin first
  | .cos => trigonometric f (elementary .cos) Complex.cos first
  | .tan => trigonometric f (elementary .tan) Complex.tan first
  | .cot => trigonometric f (fun x => recip (elementary .tan x)) (fun z => z.tan.recip) first
  | .sec => trigonometric f (fun x => recip (elementary .cos x)) (fun z => z.cos.recip) first
  | .csc => trigonometric f (fun x => recip (elementary .sin x)) (fun z => z.sin.recip) first
  | .arcsin => ofReal f (elementary .arcsin) first
  | .arccos => ofReal f (elementary .arccos) first
  | .arctan => ofReal f (elementary .arctan) first
  | .arccot => ofReal f (fun x => elementary .arctan (recip x)) first
  | .arcsec => ofReal f (fun x => elementary .arccos (recip x)) first
  | .arccsc => ofReal f (fun x => elementary .arcsin (recip x)) first
  | .sinh => trigonometric f (elementary .sinh) Complex.sinh first
  | .cosh => trigonometric f (elementary .cosh) Complex.cosh first
  | .tanh => trigonometric f (elementary .tanh) Complex.tanh first
  | .coth => trigonometric f (fun x => recip (elementary .tanh x)) (fun z => z.tanh.recip) first
  | .sech => trigonometric f (fun x => recip (elementary .cosh x)) (fun z => z.cosh.recip) first
  | .csch => trigonometric f (fun x => recip (elementary .sinh x)) (fun z => z.sinh.recip) first
  | .arsinh => ofReal f (elementary .arsinh) first
  | .arcosh => ofReal f (elementary .arcosh) first
  | .artanh => ofReal f (elementary .artanh) first
  | .arcoth => ofReal f (fun x => elementary .artanh (recip x)) first
  | .arsech => ofReal f (fun x => elementary .arcosh (recip x)) first
  | .arcsch => ofReal f (fun x => elementary .arsinh (recip x)) first
  | .floor => ofAngle f (elementary .floor) first
  | .ceil => ofAngle f (elementary .ceil) first
  | .trunc => ofAngle f (elementary .trunc) first
  | .frac => ofAngle f Scalar.frac first
  | .round => do
    let places ← match arguments[1]? with
      | some v => v.asInteger f.name
      | none => .ok 0
    roundTo (← first.asNumber f.name) places
  | .sign => ofReal f (fun x => if Scalar.eq x zero then zero else Scalar.signum x) first
  | .re => partOf f Complex.re first
  | .im => partOf f Complex.im first
  | .phase => partOf f Complex.arg first
  | .conjugate => ofComplex f id Complex.conj first
  | .reciprocal => ofComplex f recip Complex.recip first
  | .toDegree => inUnit f .degree first
  | .toRadian => inUnit f .radian first
  | .toGradian => inUnit f .gradian first
  | .toNumber =>
    match first with
    | angle a => .ok (number a.value)
    | v => ofReal f id v
  | .toBinary => inBase f 2 "0b" first
  | .toOctal => inBase f 8 "0o" first
  | .toHex => inBase f 16 "0x" first
  | .max => statistic f (List.foldl Scalar.max (-Scalar.infinity)) arguments
  | .min => statistic f (List.foldl Scalar.min Scalar.infinity) arguments
  | .average => statistic f average arguments
  | .sum => statistic f Scalar.sum arguments
  | .product => statistic f Scalar.product arguments
  | .gcd => foldIntegers f commonDivisor arguments
  | .lcm => foldIntegers f commonMultiple arguments
  | .transpose => transposed arguments first
  | .determinant => do return number (← Matrix.determinant (← first.asMatrix f.name))
  | .inverse => do return matrix (← Matrix.inverse (← first.asMatrix f.name))
  | .dotProduct => number <$> ofTwoVectors f (Matrix.dot f.name) arguments
  | .crossProduct => vector <$> ofTwoVectors f Matrix.cross arguments
  | .derivative | .simplify => .error (unsupportedCall f arguments)

/-- A built-in function on evaluated arguments. -/
def applyBuiltin (f : Builtin) (arguments : List (Value K)) : Result K (Value K) :=
  match arguments with
  | [] => .error (unsupportedCall f [])
  | first :: _ => callWith f first arguments

end Formula.Value

import Formula.Scalar

/-!
# Doubles

A double is its sixty-four bits. A finite one is `± mantissa * 2 ^ exponent`: `parts?` reads that
form off the bits and `ofParts` rounds any such form back to the nearest double, ties to the even
mantissa. The operations that machine numbers lack (a fused multiply-add, the remainder of a
truncated division, the length of a hypotenuse, rounding to an integer) are computed here in
exact natural arithmetic between the two.

Comparisons go by the bits as well. The other operations are those of the machine's `Float`, which
has a single undefined number. A double keeps the sign of an undefined number too: an undefined
result is the first operand that is undefined, and if there is none it is negative.
-/

namespace Formula

/-- A double by its bits: the sign, eleven bits of exponent and fifty-two bits of fraction. -/
structure Binary64 where
  bits : UInt64
  deriving DecidableEq, Repr

namespace Binary64

/-! ## Bits -/

/-- The bit of the sign. -/
def signMask : UInt64 := 0x8000000000000000

/-- The bits of infinity. Undefined numbers have larger magnitudes. -/
def infinityBits : UInt64 := 0x7ff0000000000000

/-- The larger bound of the number line. -/
def infinity : Binary64 := ⟨infinityBits⟩

/-- The undefined number of a sign. -/
def undefined (negative : Bool) : Binary64 :=
  ⟨if negative then 0xfff8000000000000 else 0x7ff8000000000000⟩

/-- The bits without the sign. -/
def magnitude (x : Binary64) : UInt64 := x.bits &&& 0x7fffffffffffffff

/-- Whether the sign is minus, also for a zero and for an undefined number. -/
def isNegative (x : Binary64) : Bool := signMask ≤ x.bits

/-- Neither infinite nor undefined. -/
def isFinite (x : Binary64) : Bool := x.magnitude < infinityBits

/-- One of the two bounds of the number line. -/
def isInfinite (x : Binary64) : Bool := x.magnitude == infinityBits

/-- Stands for no number. -/
def isUndefined (x : Binary64) : Bool := infinityBits < x.magnitude

/-- The double with the other sign. -/
def negate (x : Binary64) : Binary64 := ⟨x.bits ^^^ signMask⟩

/-- The double without its sign. -/
def abs (x : Binary64) : Binary64 := ⟨x.magnitude⟩

/-- The magnitude of `x` under the sign of `y`. -/
def copySign (x y : Binary64) : Binary64 := if y.isNegative then x.abs.negate else x.abs

/-- A double's place among all doubles: negative ones first, and the undefined ones at the ends. -/
def place (x : Binary64) : Int :=
  let magnitude : Nat := x.magnitude.toNat
  if x.isNegative then -(magnitude : Int) - 1 else magnitude

/-! ## Machine operations -/

/-- The machine number with these bits. -/
def toFloat (x : Binary64) : Float := Float.ofBits x.bits

/-- The first of two doubles that is undefined; if neither is, the undefined number that arises. -/
def firstUndefined (x y : Binary64) : Binary64 :=
  if x.isUndefined then x else if y.isUndefined then y else undefined true

/-- A machine operation on one double. -/
def map (f : Float → Float) (x : Binary64) : Binary64 :=
  let result := f x.toFloat
  if result.isNaN then firstUndefined x x else ⟨result.toBits⟩

/-- A machine operation on two doubles. -/
def map₂ (f : Float → Float → Float) (x y : Binary64) : Binary64 :=
  let result := f x.toFloat y.toFloat
  if result.isNaN then firstUndefined x y else ⟨result.toBits⟩

instance : Add Binary64 := ⟨map₂ (· + ·)⟩
instance : Sub Binary64 := ⟨map₂ (· - ·)⟩
instance : Mul Binary64 := ⟨map₂ (· * ·)⟩
instance : Div Binary64 := ⟨map₂ (· / ·)⟩
instance : Neg Binary64 := ⟨negate⟩

/-- The place of a double on the number line, where a zero is its own negative. -/
def ordinal (x : Binary64) : Int :=
  let magnitude : Nat := x.magnitude.toNat
  if x.isNegative then -(magnitude : Int) else magnitude

/-- Numeric equality: a zero equals its negative, and an undefined number equals nothing. -/
def eq (x y : Binary64) : Bool :=
  !x.isUndefined && !y.isUndefined && decide (x.ordinal = y.ordinal)

/-- Strict numeric order. -/
def lt (x y : Binary64) : Bool :=
  !x.isUndefined && !y.isUndefined && decide (x.ordinal < y.ordinal)

/-- Numeric order. -/
def le (x y : Binary64) : Bool :=
  !x.isUndefined && !y.isUndefined && decide (x.ordinal ≤ y.ordinal)

/-! ## Exact values -/

/-- The exact value `± mantissa * 2 ^ exponent` of a finite double. -/
structure Parts where
  negative : Bool
  mantissa : Nat
  exponent : Int
  deriving DecidableEq, Repr

/-- The exponent of the smallest positive double. -/
def minExponent : Int := -1074

/-- The exact value of a double, if it is finite. -/
def parts? (x : Binary64) : Option Parts :=
  let magnitude := x.magnitude.toNat
  let field : Nat := magnitude / 2 ^ 52
  let fraction := magnitude % 2 ^ 52
  if field = 2047 then none
  else if field = 0 then some ⟨x.isNegative, fraction, minExponent⟩
  else some ⟨x.isNegative, fraction + 2 ^ 52, (field : Int) - 1075⟩

/-- The number of binary digits of `m`. -/
def bitLength (m : Nat) : Nat := if m = 0 then 0 else m.log2 + 1

/-- `m / 2 ^ shift` to the nearest integer, a half to the even neighbour. -/
def shiftRightEven (m shift : Nat) : Nat :=
  let quotient := m >>> shift
  let doubled := 2 * (m % 2 ^ shift)
  if doubled > 2 ^ shift ∨ (doubled = 2 ^ shift ∧ quotient % 2 = 1) then quotient + 1 else quotient

/-- The bits of `mantissa * 2 ^ exponent` rounded to the nearest double, without the sign. A
mantissa that rounds up to the next power of two carries into the exponent field by itself. -/
def magnitudeBits (mantissa : Nat) (exponent : Int) : Nat :=
  let unit := max (exponent + bitLength mantissa - 53) minExponent
  let rounded :=
    if unit ≤ exponent then mantissa <<< (exponent - unit).toNat
    else shiftRightEven mantissa (unit - exponent).toNat
  min ((unit - minExponent).toNat * 2 ^ 52 + rounded) (2047 * 2 ^ 52)

/-- The double nearest to an exact value, a tie going to the even mantissa. -/
def ofParts (p : Parts) : Binary64 :=
  let magnitude := if p.mantissa = 0 then 0 else magnitudeBits p.mantissa p.exponent
  ⟨UInt64.ofNat (if p.negative then magnitude + 2 ^ 63 else magnitude)⟩

/-- `mantissa * 2 ^ (exponent - unit)` as a natural number, for a unit not above the exponent. -/
def Parts.scaled (p : Parts) (unit : Int) : Nat := p.mantissa <<< (p.exponent - unit).toNat

/-- The value of `p` in multiples of `2 ^ unit`, for a unit not above the exponent. -/
def Parts.signed (p : Parts) (unit : Int) : Int :=
  if p.negative then -(p.scaled unit : Int) else p.scaled unit

/-! ## Integers -/

/-- The double nearest to an integer. -/
def ofInt (n : Int) : Binary64 := ofParts ⟨decide (n < 0), n.natAbs, 0⟩

/-- The integer a double denotes, if it is finite and has no fractional part. -/
def toInt? (x : Binary64) : Option Int := do
  let p ← x.parts?
  if 0 ≤ p.exponent then some (p.signed 0)
  else
    let unit := 2 ^ (-p.exponent).toNat
    if p.mantissa % unit = 0 then
      let n := (p.mantissa / unit : Nat)
      some (if p.negative then -(n : Int) else n)
    else none

/-- Which way a fractional part is rounded. -/
inductive Rounding where
  | down | up | towardZero | halfAway
  deriving DecidableEq, Repr

/-- Whether a magnitude with fractional part `rest / unit` is rounded away from zero. -/
def Rounding.away (r : Rounding) (negative : Bool) (rest unit : Nat) : Bool :=
  match r with
  | .down => negative && rest != 0
  | .up => !negative && rest != 0
  | .towardZero => false
  | .halfAway => decide (unit ≤ 2 * rest)

/-- A double rounded to an integer. The sign is kept, also that of a zero. -/
def roundToInt (r : Rounding) (x : Binary64) : Binary64 :=
  match x.parts? with
  | none => x
  | some p =>
    if 0 ≤ p.exponent then x
    else
      let unit := 2 ^ (-p.exponent).toNat
      let away := r.away p.negative (p.mantissa % unit) unit
      ofParts ⟨p.negative, p.mantissa / unit + if away then 1 else 0, 0⟩

/-! ## Exactly rounded operations -/

/-- The remainder of `x / y` rounded toward zero; it has the sign of `x` and is exact. -/
def rem (x y : Binary64) : Binary64 :=
  match x.parts?, y.parts? with
  | some p, some q =>
    if q.mantissa = 0 then undefined true
    else
      let unit := min p.exponent q.exponent
      ofParts ⟨p.negative, p.scaled unit % q.scaled unit, unit⟩
  | some _, none => if y.isInfinite then x else y
  | none, _ => firstUndefined x y

/-- `a * b + c` rounded once. -/
def mulAdd (a b c : Binary64) : Binary64 :=
  match a.parts?, b.parts?, c.parts? with
  | some p, some q, some r =>
    let product : Parts := ⟨p.negative != q.negative, p.mantissa * q.mantissa,
      p.exponent + q.exponent⟩
    let unit := min product.exponent r.exponent
    let total := product.signed unit + r.signed unit
    let negative := if total = 0 then product.negative && r.negative else decide (total < 0)
    ofParts ⟨negative, total.natAbs, unit⟩
  | some _, some _, none => c
  | _, _, _ => a * b + c

/-- The integer part of the square root; `fuel` bounds the number of base-four digits. -/
def sqrtFloor : Nat → Nat → Nat
  | 0, _ => 0
  | fuel + 1, n =>
    if n = 0 then 0
    else
      let root := 2 * sqrtFloor fuel (n / 4)
      if (root + 1) * (root + 1) ≤ n then root + 1 else root

/-- The square root of `square * 2 ^ exponent`, rounded once. The radicand is widened until its
root has more digits than a double holds; a last digit then records that the root was inexact. -/
def sqrtOfScaled (square : Nat) (exponent : Int) : Binary64 :=
  let widened := if (exponent - 120) % 2 = 0 then 120 else 121
  let radicand := square <<< widened
  let root := sqrtFloor (bitLength radicand) radicand
  let inexact := if root * root = radicand then 0 else 1
  ofParts ⟨false, 2 * root + inexact, (exponent - widened) / 2 - 1⟩

/-- The length of the hypotenuse over two legs. An infinite leg decides it. -/
def hypot (x y : Binary64) : Binary64 :=
  match x.parts?, y.parts? with
  | some p, some q =>
    let unit := min p.exponent q.exponent
    let a := p.scaled unit
    let b := q.scaled unit
    sqrtOfScaled (a * a + b * b) (2 * unit)
  | _, _ => if x.isInfinite || y.isInfinite then infinity else firstUndefined x y

end Binary64

end Formula

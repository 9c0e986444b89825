import Formula.Binary64.Basic

/-!
# Decimal texts of doubles

Two ways to write a finite double in decimal, both computed from its exact value. `shortest`
finds the fewest significant digits that read back as the same double, and of those the digits
nearest to it; `text` writes them positionally. `scientific` rounds to a fixed number of
significant digits, a tie to the even digit. `ofDecimal` reads a decimal mantissa and exponent as
the nearest double.

A double owns an interval of reals, the ones that round to it; its ends belong to it iff the
mantissa is even. Below a power of two the interval is half as long on its lower side. A decimal
grid meets the interval iff one of the two grid points around the value does.
-/

namespace Formula.Binary64

/-- The decimal number `digits * 10 ^ exponent`. -/
structure Decimal where
  digits : Nat
  exponent : Int
  deriving DecidableEq, Repr, Inhabited

/-- A positive rational as a quotient of natural numbers. -/
structure Quotient where
  num : Nat
  den : Nat

/-- The quotient `mantissa * 2 ^ exponent`. -/
def Quotient.ofDyadic (mantissa : Nat) (exponent : Int) : Quotient :=
  ⟨mantissa <<< exponent.toNat, 1 <<< (-exponent).toNat⟩

/-- The quotient in multiples of `10 ^ exponent`. -/
def Quotient.inUnits (q : Quotient) (exponent : Int) : Quotient :=
  ⟨q.num * 10 ^ (-exponent).toNat, q.den * 10 ^ exponent.toNat⟩

/-- The nearest integer to the quotient, a half going to the even neighbour. -/
def Quotient.nearest (q : Quotient) : Nat :=
  let below := q.num / q.den
  let doubled := 2 * (q.num % q.den)
  if q.den < doubled ∨ (doubled = q.den ∧ below % 2 = 1) then below + 1 else below

/-- Whether the quotient is at least `10 ^ exponent`. -/
def Quotient.reaches (q : Quotient) (exponent : Int) : Bool :=
  let scaled := q.inUnits exponent
  decide (scaled.den ≤ scaled.num)

/-- The number of digits before the decimal point: `10 ^ (n - 1) ≤ q < 10 ^ n`. The binary
lengths give an estimate that is off by at most one, mended by at most `fuel` steps. -/
def Quotient.pointPosition (q : Quotient) : Int :=
  mend 4 (((bitLength q.num : Int) - bitLength q.den) * 30103 / 100000)
where
  /-- Moves the estimate until the quotient lies under its power of ten and not one place lower. -/
  mend : Nat → Int → Int
    | 0, n => n
    | fuel + 1, n =>
      if q.reaches n then mend fuel (n + 1)
      else if q.reaches (n - 1) then n
      else mend fuel (n - 1)

/-! ## Shortest digits -/

/-- The reals that round to a positive double, from `low * 2 ^ unit` to `high * 2 ^ unit`. -/
structure Interval where
  unit : Int
  low : Nat
  high : Nat
  /-- Whether the two ends belong to the interval. -/
  closed : Bool

/-- The interval of the double `mantissa * 2 ^ exponent`, in quarters of its last place. -/
def Interval.around (mantissa : Nat) (exponent : Int) : Interval where
  unit := exponent - 2
  low := if mantissa = 2 ^ 52 ∧ exponent > minExponent then 4 * mantissa - 1 else 4 * mantissa - 2
  high := 4 * mantissa + 2
  closed := mantissa % 2 = 0

/-- Whether `digits * 10 ^ exponent` lies in the interval. -/
def Interval.has (i : Interval) (digits : Nat) (exponent : Int) : Bool :=
  let low := (Quotient.ofDyadic i.low i.unit).inUnits exponent
  let high := (Quotient.ofDyadic i.high i.unit).inUnits exponent
  if i.closed then decide (low.num ≤ digits * low.den) && decide (digits * high.den ≤ high.num)
  else decide (low.num < digits * low.den) && decide (digits * high.den < high.num)

/-- The same number with a last digit zero moved into the exponent. -/
def Decimal.trimmed (d : Decimal) : Decimal :=
  if d.digits % 10 = 0 then ⟨d.digits / 10, d.exponent + 1⟩ else d

/-- The point of the grid `10 ^ exponent` that reads back as the double, if there is one: of the
two around the value the nearer, an exact tie going up. Going up from the largest number of a grid
gives a power of ten, which needs a digit less. -/
def gridPoint? (value : Quotient) (interval : Interval) (exponent : Int) : Option Decimal :=
  let scaled := value.inUnits exponent
  let below := scaled.num / scaled.den
  let rest := scaled.num % scaled.den
  let takesBelow := interval.has below exponent && below != 0
  let takesAbove := interval.has (below + 1) exponent
  if takesBelow && (!takesAbove || decide (2 * rest < scaled.den)) then some ⟨below, exponent⟩
  else if takesAbove then some (Decimal.trimmed ⟨below + 1, exponent⟩)
  else none

/-- The fewest digits that read back as the positive double `mantissa * 2 ^ exponent`. Seventeen
are always enough. -/
def shortest (mantissa : Nat) (exponent : Int) : Decimal :=
  let value := Quotient.ofDyadic mantissa exponent
  let point := value.pointPosition
  let interval := Interval.around mantissa exponent
  let shortest? := (List.range 17).findSome? fun (n : Nat) =>
    gridPoint? value interval (point - (n + 1))
  shortest?.getD ⟨0, 0⟩

/-! ## Texts -/

/-- The decimal digits of a natural number. -/
def digitText (n : Nat) : String := String.ofList (Nat.toDigits 10 n)

/-- A decimal number written without an exponent. -/
def Decimal.positional (d : Decimal) : String :=
  let digits := Nat.toDigits 10 d.digits
  if 0 ≤ d.exponent then String.ofList (digits ++ List.replicate d.exponent.toNat '0')
  else
    let places := (-d.exponent).toNat
    let padded := List.replicate (places + 1 - digits.length) '0' ++ digits
    let whole := padded.length - places
    String.ofList (padded.take whole ++ '.' :: padded.drop whole)

/-- The sign and magnitude text of a double, or the name of one that is not finite. -/
def render (magnitude : Nat → Int → String) (zero : String) (x : Binary64) : String :=
  match x.parts? with
  | some p =>
    (if p.negative then "-" else "") ++
      if p.mantissa = 0 then zero else magnitude p.mantissa p.exponent
  | none => if x.isUndefined then "NaN" else if x.isNegative then "-inf" else "inf"

/-- The fewest digits that read back, without an exponent; an integral value has no point. -/
def text (x : Binary64) : String := render (fun m e => (shortest m e).positional) "0" x

/-- `mantissa * 2 ^ exponent` rounded to `places` significant digits, a tie to the even digit. -/
def significant (places : Nat) (mantissa : Nat) (exponent : Int) : Decimal :=
  let value := Quotient.ofDyadic mantissa exponent
  let unit := value.pointPosition - places
  let digits := (value.inUnits unit).nearest
  if digits = 10 ^ places then ⟨10 ^ (places - 1), unit + 1⟩ else ⟨digits, unit⟩

/-- A decimal number with one digit before the point and an exponent. -/
def Decimal.exponential (d : Decimal) : String :=
  let digits := Nat.toDigits 10 d.digits
  let exponent := d.exponent + (digits.length - 1 : Nat)
  String.ofList (digits.take 1) ++ "." ++ String.ofList (digits.drop 1) ++ "e" ++
    (if exponent < 0 then "-" else "") ++ digitText exponent.natAbs

/-- A double with `places` significant digits and an exponent. -/
def scientific (places : Nat) (x : Binary64) : String :=
  render (fun m e => (significant places m e).exponential) "0" x

/-! ## Reading -/

/-- The quotient in multiples of `2 ^ exponent`. -/
def Quotient.inBinaryUnits (q : Quotient) (exponent : Int) : Quotient :=
  ⟨q.num <<< (-exponent).toNat, q.den <<< exponent.toNat⟩

/-- The exponent of the last place of a double near a positive quotient. The smallest positive
double is far above `2 ^ (-1100)`, so the integer part of a multiple tells the binary length. -/
def Quotient.lastPlace (q : Quotient) : Int :=
  max ((bitLength ((q.num <<< 1100) / q.den) : Int) - 1153) minExponent

/-- The double nearest to a positive quotient, a tie going to the even mantissa. A mantissa that
rounds up to the next power of two carries into the exponent field by itself. -/
def ofQuotient (q : Quotient) : Binary64 :=
  let unit := q.lastPlace
  let magnitude := (unit - minExponent).toNat * 2 ^ 52 + (q.inBinaryUnits unit).nearest
  ⟨UInt64.ofNat (min magnitude (2047 * 2 ^ 52))⟩

/-- The double nearest to `mantissa * 10 ^ exponent`. Past four hundred places from the point
every double is infinite or zero, so that a huge exponent costs no huge power. -/
def ofDecimal (mantissa : Nat) (exponent : Int) : Binary64 :=
  let point := exponent + (bitLength mantissa : Int) * 30103 / 100000
  if mantissa = 0 ∨ point < -400 then ⟨0⟩
  else if 400 < point then infinity
  else ofQuotient ⟨mantissa * 10 ^ exponent.toNat, 10 ^ (-exponent).toNat⟩

end Formula.Binary64

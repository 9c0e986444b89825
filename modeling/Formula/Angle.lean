import Formula.Scalar

/-!
# Angles

A number with a unit. Units are compared by the number of them in a full turn, and a conversion
goes through turns; to its own unit an angle converts unchanged, so that no digit is lost.
-/

namespace Formula

/-- Units of angle. -/
inductive AngleUnit where
  | degree | radian | gradian
  deriving DecidableEq, Repr

/-- A number in a unit of angle. -/
structure Angle (K : Type) where
  value : K
  unit : AngleUnit

variable {K : Type} [Scalar K]

/-- How many units make a full turn. -/
def AngleUnit.fullTurn : AngleUnit → K
  | degree => Scalar.ofInt 360
  | radian => Scalar.two * Scalar.pi
  | gradian => Scalar.ofInt 400

namespace Angle

/-- The same angle in another unit. -/
def convert (a : Angle K) (unit : AngleUnit) : Angle K :=
  if a.unit = unit then a else ⟨a.value / a.unit.fullTurn * unit.fullTurn, unit⟩

/-- The angle's value in radians. -/
def radians (a : Angle K) : K := (a.convert .radian).value

/-- The angle with its value changed and its unit kept. -/
def map (f : K → K) (a : Angle K) : Angle K := ⟨f a.value, a.unit⟩

/-- Structural equality: one unit and the same value. -/
def same (a b : Angle K) : Bool := a.unit = b.unit && Scalar.same a.value b.value

/-- The angle as it is written. -/
def text (a : Angle K) : String :=
  match a.unit with
  | .degree => Scalar.text a.value ++ "°"
  | .radian => Scalar.text a.value ++ " rad"
  | .gradian => Scalar.text a.value ++ " grad"

end Angle

end Formula

import Formula.Scalar

/-!
# Complex numbers

Complex numbers over any scalar, in rectangular form. Products and reciprocals round the sum of
two products once where the scalars can. Powers and logarithms take the principal branch.
-/

namespace Formula

/-- A complex number by its parts. -/
structure Complex (K : Type) where
  re : K
  im : K

namespace Complex

variable {K : Type} [Scalar K]

open Scalar (zero one two elementary mulAdd)

/-- A real number as a complex one. -/
def ofReal (a : K) : Complex K := ⟨a, zero⟩

/-- The imaginary unit. -/
def imaginaryUnit : Complex K := ⟨zero, one⟩

/-- The number of a magnitude and a phase in radians. -/
def ofPolar (magnitude phase : K) : Complex K :=
  ⟨magnitude * elementary .cos phase, magnitude * elementary .sin phase⟩

instance : Add (Complex K) := ⟨fun z w => ⟨z.re + w.re, z.im + w.im⟩⟩
instance : Sub (Complex K) := ⟨fun z w => ⟨z.re - w.re, z.im - w.im⟩⟩
instance : Neg (Complex K) := ⟨fun z => ⟨-z.re, -z.im⟩⟩
instance : Mul (Complex K) :=
  ⟨fun z w => ⟨mulAdd z.re w.re (-(z.im * w.im)), mulAdd z.re w.im (z.im * w.re)⟩⟩

/-- The magnitude. -/
def abs (z : Complex K) : K := Scalar.hypot z.re z.im

/-- The phase in radians. -/
def arg (z : Complex K) : K := Scalar.atan2 z.im z.re

/-- The mirror image across the real line. -/
def conj (z : Complex K) : Complex K := ⟨z.re, -z.im⟩

/-- One over `z`. -/
def recip (z : Complex K) : Complex K :=
  let norm := mulAdd z.re z.re (z.im * z.im)
  ⟨z.re / norm, -z.im / norm⟩

instance : Div (Complex K) := ⟨fun z w => z * w.recip⟩

/-- Lies on the real line. -/
def isReal (z : Complex K) : Bool := Scalar.eq z.im zero

/-- Structural equality, part by part. -/
def same (z w : Complex K) : Bool := Scalar.same z.re w.re && Scalar.same z.im w.im

/-- The square root with non-negative real part. -/
def sqrt (z : Complex K) : Complex K :=
  let magnitude := z.abs
  ⟨elementary .sqrt (Scalar.midpoint magnitude z.re),
    Scalar.copySign (elementary .sqrt ((magnitude - z.re) / two)) z.im⟩

/-- The exponential. -/
def exp (z : Complex K) : Complex K := ofPolar (elementary .exp z.re) z.im

/-- The principal logarithm. -/
def ln (z : Complex K) : Complex K := ⟨elementary .ln z.abs, z.arg⟩

/-- The principal power. A power of zero is zero, except that its zeroth power is one. -/
def pow (z w : Complex K) : Complex K :=
  if Scalar.eq z.re zero && Scalar.eq z.im zero then
    if Scalar.eq w.re zero && Scalar.eq w.im zero then ⟨one, zero⟩ else ⟨zero, zero⟩
  else (z.ln * w).exp

/-- The sine. -/
def sin (z : Complex K) : Complex K :=
  ⟨elementary .sin z.re * elementary .cosh z.im, elementary .cos z.re * elementary .sinh z.im⟩

/-- The cosine. -/
def cos (z : Complex K) : Complex K :=
  ⟨elementary .cos z.re * elementary .cosh z.im, -elementary .sin z.re * elementary .sinh z.im⟩

/-- The tangent. -/
def tan (z : Complex K) : Complex K := z.sin / z.cos

/-- The hyperbolic sine. -/
def sinh (z : Complex K) : Complex K :=
  ⟨elementary .sinh z.re * elementary .cos z.im, elementary .cosh z.re * elementary .sin z.im⟩

/-- The hyperbolic cosine. -/
def cosh (z : Complex K) : Complex K :=
  ⟨elementary .cosh z.re * elementary .cos z.im, elementary .sinh z.re * elementary .sin z.im⟩

/-- The hyperbolic tangent. -/
def tanh (z : Complex K) : Complex K := z.sinh / z.cosh

/-- The number as a sum of its parts; a part equal to zero is left out. -/
def text (z : Complex K) : String :=
  if Scalar.eq z.im zero then Scalar.text z.re
  else if Scalar.eq z.re zero then Scalar.text z.im ++ "i"
  else if Scalar.lt zero z.im then Scalar.text z.re ++ " + " ++ Scalar.text z.im ++ "i"
  else Scalar.text z.re ++ " - " ++ Scalar.text (-z.im) ++ "i"

end Complex

end Formula

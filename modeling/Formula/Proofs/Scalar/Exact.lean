import Formula.Complex
import Formula.Proofs.Scalar.Order
import Mathlib.Algebra.Ring.MinimalAxioms

/-!
# Exact numbers

The operations of `Scalar` come without laws, and at double precision they have few: sums round,
zero carries a sign. Where a statement reads arithmetic exactly, it is about scalars with the laws
of this module. `Scalar.ExactRing` says that sums, differences and products are those of a
commutative ring, `Scalar.Exact` adds quotients, comparisons, integers, and the laws of powers and
of the complex logarithm.
-/

namespace Formula

namespace Scalar

/-- Sums, differences and products are exact. -/
class ExactRing (K : Type) [Scalar K] : Prop where
  add_assoc (a b c : K) : a + b + c = a + (b + c)
  add_comm (a b : K) : a + b = b + a
  zero_add (a : K) : zero + a = a
  neg_add (a : K) : -a + a = zero
  sub_eq (a b : K) : a - b = a + -b
  mul_assoc (a b c : K) : a * b * c = a * (b * c)
  mul_comm (a b : K) : a * b = b * a
  one_mul (a : K) : one * a = a
  add_mul (a b c : K) : (a + b) * c = a * c + b * c
  mulAdd_eq (a b c : K) : mulAdd a b c = a * b + c

/-- All of arithmetic is exact. -/
class Exact (K : Type) [Scalar K] : Prop extends ExactRing K, LawfulOrder K where
  mul_recip {a : K} (ha : a ≠ zero) : a * recip a = one
  div_eq (a b : K) : a / b = a * recip b
  one_ne_zero : (one : K) ≠ zero
  not_one_lt_zero : lt (one : K) zero = false
  eq_iff {a b : K} : eq a b = true ↔ a = b
  identical_iff {a b : K} : identical a b = true ↔ a = b
  toInt?_ofInt (n : Int) : toInt? (ofInt n : K) = some n
  ofInt_of_toInt? {a : K} {n : Int} (h : toInt? a = some n) : ofInt n = a
  pow_zero (a : K) : pow a zero = one
  pow_one (a : K) : pow a one = a
  one_pow (a : K) : pow one a = one
  /-- The exponential undoes the principal logarithm. -/
  exp_ln {z : Complex K} (hz : ¬(z.re = zero ∧ z.im = zero)) : z.ln.exp = z

variable {K : Type} [Scalar K]

/-- The commutative ring of exact numbers. -/
@[reducible] def commRing [ExactRing K] : CommRing K :=
  letI : Zero K := ⟨zero⟩
  letI : One K := ⟨one⟩
  { CommRing.ofMinimalAxioms (R := K) ExactRing.add_assoc ExactRing.zero_add ExactRing.neg_add
      ExactRing.mul_assoc ExactRing.mul_comm ExactRing.one_mul fun a b c => by
        rw [ExactRing.mul_comm, ExactRing.add_mul, ExactRing.mul_comm b, ExactRing.mul_comm c] with
    sub := (· - ·)
    sub_eq_add_neg := ExactRing.sub_eq }

section

variable [ExactRing K] (a : K)

/-- Nothing is added. -/
@[simp] theorem zero_add_eq : zero + a = a := ExactRing.zero_add a

/-- Nothing is added. -/
@[simp] theorem add_zero_eq : a + zero = a :=
  letI := commRing (K := K)
  add_zero a

/-- Nothing is taken away. -/
@[simp] theorem sub_zero_eq : a - zero = a :=
  letI := commRing (K := K)
  sub_zero a

/-- What is taken from nothing. -/
@[simp] theorem zero_sub_eq : zero - a = -a :=
  letI := commRing (K := K)
  zero_sub a

/-- Two signs. -/
@[simp] theorem neg_neg_eq : - -a = a :=
  letI := commRing (K := K)
  neg_neg a

/-- The negative of zero is zero. -/
@[simp] theorem neg_zero_eq : -(zero : K) = zero :=
  letI := commRing (K := K)
  neg_zero

/-- One times a number. -/
@[simp] theorem one_mul_eq : one * a = a := ExactRing.one_mul a

/-- A number times one. -/
@[simp] theorem mul_one_eq : a * one = a :=
  letI := commRing (K := K)
  mul_one a

/-- Zero times a number. -/
@[simp] theorem zero_mul_eq : zero * a = zero :=
  letI := commRing (K := K)
  zero_mul a

/-- A number times zero. -/
@[simp] theorem mul_zero_eq : a * zero = zero :=
  letI := commRing (K := K)
  mul_zero a

end

/-- One is its own reciprocal. -/
@[simp] theorem recip_one [Exact K] : recip (one : K) = one := by
  rw [← one_mul_eq (recip one), Exact.mul_recip Exact.one_ne_zero]

/-- A number divided by one. -/
@[simp] theorem div_one_eq [Exact K] (a : K) : a / one = a := by
  rw [Exact.div_eq, recip_one, mul_one_eq]

/-- Zero divided by a number. -/
@[simp] theorem zero_div_eq [Exact K] (a : K) : zero / a = zero := by
  rw [Exact.div_eq, zero_mul_eq]

end Scalar

/-! ## Complex numbers -/

namespace Complex

open Scalar (zero one)

variable {K : Type} [Scalar K]

omit [Scalar K] in
@[ext] theorem ext : ∀ {z w : Complex K}, z.re = w.re → z.im = w.im → z = w
  | ⟨_, _⟩, ⟨_, _⟩, rfl, rfl => rfl

@[simp] theorem add_def (z w : Complex K) : z + w = ⟨z.re + w.re, z.im + w.im⟩ := rfl

@[simp] theorem sub_def (z w : Complex K) : z - w = ⟨z.re - w.re, z.im - w.im⟩ := rfl

@[simp] theorem neg_def (z : Complex K) : -z = ⟨-z.re, -z.im⟩ := rfl

@[simp] theorem mul_def (z w : Complex K) : z * w =
    ⟨Scalar.mulAdd z.re w.re (-(z.im * w.im)), Scalar.mulAdd z.re w.im (z.im * w.re)⟩ := rfl

@[simp] theorem div_def (z w : Complex K) : z / w = z * w.recip := rfl

section

variable [Scalar.ExactRing K] (z : Complex K)

/-- A complex number times one. -/
theorem mul_one_eq : z * ofReal one = z := by
  simp [ofReal, Scalar.ExactRing.mulAdd_eq]

/-- One times a complex number. -/
theorem one_mul_eq : ofReal one * z = z := by
  simp [ofReal, Scalar.ExactRing.mulAdd_eq]

end

variable [Scalar.Exact K] (z : Complex K)

/-- A complex number divided by one. -/
theorem div_one_eq : z / ofReal one = z := by
  have hrecip : (ofReal one : Complex K).recip = ofReal one := by
    simp [recip, ofReal, Scalar.ExactRing.mulAdd_eq]
  rw [div_def, hrecip, mul_one_eq]

/-- The first power of a complex number. -/
theorem pow_one_eq : z.pow (ofReal one) = z := by
  have hone : Scalar.eq (one : K) zero = false :=
    Bool.eq_false_iff.2 fun h => Scalar.Exact.one_ne_zero (Scalar.Exact.eq_iff.1 h)
  by_cases hz : z.re = zero ∧ z.im = zero
  · have hzero : (Scalar.eq z.re zero && Scalar.eq z.im zero) = true := by
      simpa [Scalar.Exact.eq_iff] using hz
    rw [pow, if_pos hzero, if_neg (by simp [ofReal, hone])]
    exact Complex.ext hz.1.symm hz.2.symm
  · have hzero : ¬(Scalar.eq z.re zero && Scalar.eq z.im zero) = true := by
      simpa [Scalar.Exact.eq_iff] using hz
    rw [pow, if_neg hzero, mul_one_eq, Scalar.Exact.exp_ln hz]

end Complex

end Formula

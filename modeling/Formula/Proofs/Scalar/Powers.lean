import Formula.Proofs.Scalar.Real
import Formula.Scalar.Integer

/-!
# Exact powers

A power divided by its base is the power with an exponent one less, wherever both are real: the base
is not negative, or the exponent is an integer. `Scalar.ExactPowers` adds this law to those of exact
numbers, together with what it takes to move between an exponent and its predecessor.
-/

namespace Formula.Scalar

/-- Powers are exact. -/
class ExactPowers (K : Type) [Scalar K] : Prop extends Exact K where
  isFinite_eq (a : K) : isFinite a = true
  ofInt_add (m n : Int) : (ofInt (m + n) : K) = ofInt m + ofInt n
  ln_one : elementary .ln (one : K) = zero
  pow_sub_one {a b : K} : a ≠ zero → lt a zero = false ∨ isIntegral b = true →
    pow a (b - one) * a = pow a b

/-- **The laws of exact powers hold** for real numbers. -/
instance : ExactPowers ℝ where
  isFinite_eq _ := rfl
  ofInt_add m n := Int.cast_add m n
  ln_one := by
    rw [one_real, zero_real]
    exact Real.log_one
  pow_sub_one {a b} ha _ := by
    rw [zero_real] at ha
    rw [one_real]
    change a ^ (b - 1) * a = a ^ b
    rw [Real.rpow_sub_one ha, div_mul_cancel₀ _ ha]

variable {K : Type} [Scalar K] [ExactPowers K]

/-- A number is an integer if its predecessor is one. -/
theorem isIntegral_sub_one (a : K) : isIntegral (a - one) = isIntegral a := by
  let := commRing (K := K)
  have hone : ofInt (-1) = (-one : K) := by
    have hsum : (ofInt (-1 + 1) : K) = ofInt (-1) + one := ExactPowers.ofInt_add (-1) 1
    exact eq_neg_of_add_eq_zero_left hsum.symm
  have hintegral (m : Int) (b : K) (hb : ofInt m = b) : isIntegral b = true := by
    rw [isIntegral, ← hb, Exact.toInt?_ofInt]
    rfl
  refine Bool.eq_iff_iff.2 ⟨fun h => ?_, fun h => ?_⟩
  · obtain ⟨n, hn⟩ := Option.isSome_iff_exists.1 h
    refine hintegral (n + 1) a ?_
    rw [ExactPowers.ofInt_add, Exact.ofInt_of_toInt? hn]
    exact sub_add_cancel a one
  · obtain ⟨n, hn⟩ := Option.isSome_iff_exists.1 h
    refine hintegral (n + -1) (a - one) ?_
    rw [ExactPowers.ofInt_add, Exact.ofInt_of_toInt? hn, hone]
    exact (sub_eq_add_neg a one).symm

end Formula.Scalar

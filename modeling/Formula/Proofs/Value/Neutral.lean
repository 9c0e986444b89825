import Formula.Proofs.Result
import Formula.Proofs.Scalar.Exact
import Formula.Value.Operators

/-!
# Neutral operands

Zero and one are neutral operands of the arithmetic operators, for operands of every type that the
operator takes beside a number: where numbers are exact, the result is the other operand. A sum
with a string is a text, and so zero is neutral in a sum only beside numbers. Two signs and two
complements undo each other.
-/

namespace Formula.Value

open Scalar (zero one)

variable {K : Type} [Scalar K] {a b : K} {u v w : Value K}

/-! ## Sums and differences -/

section

variable [Scalar.ExactRing K]

/-- Zero added to a number. -/
theorem add_zero (hv : v.type = .number ∨ v.type = .complex)
    (h : v.applyBinary .add (number zero) = .ok w) : w = v := by
  cases v with
  | number a =>
    cases h
    exact congrArg number (Scalar.add_zero_eq a)
  | complex z =>
    cases h
    simp [Complex.ofReal]
  | _ => simp [type] at hv

/-- A number added to zero. -/
theorem zero_add (hv : v.type = .number ∨ v.type = .complex)
    (h : (number zero).applyBinary .add v = .ok w) : w = v := by
  cases v with
  | number a =>
    cases h
    exact congrArg number (Scalar.zero_add_eq a)
  | complex z =>
    cases h
    simp [Complex.ofReal]
  | _ => simp [type] at hv

/-- Zero taken from a value. -/
theorem sub_zero (h : v.applyBinary .sub (number zero) = .ok w) : w = v := by
  cases v with
  | number a =>
    cases h
    exact congrArg number (Scalar.sub_zero_eq a)
  | complex z =>
    cases h
    simp [Complex.ofReal]
  | angle a =>
    cases h
    simp [Angle.map, realArithmetic]
  | _ => cases h

/-- A value taken from zero. -/
theorem zero_sub (h : (number zero).applyBinary .sub v = .ok w) : v.applyUnary .minus = .ok w := by
  cases v with
  | number a =>
    cases h
    exact congrArg (Except.ok ∘ number) (Scalar.zero_sub_eq a).symm
  | complex z =>
    cases h
    simp [applyUnary, negate, Complex.ofReal]
  | _ => cases h

/-- The negative of the negative of a value. -/
theorem minus_minus (hu : v.applyUnary .minus = .ok u) (hw : u.applyUnary .minus = .ok w) :
    w = v := by
  cases v with
  | number a | complex z | angle a | vector elements | matrix rows =>
    cases hu
    cases hw
    simp [Angle.map, Function.comp_def]
  | _ => cases hu

end

/-! ## Products and quotients -/

/-- A value times one. -/
theorem mul_one [Scalar.ExactRing K] (h : v.applyBinary .mul (number one) = .ok w) : w = v := by
  cases v with
  | number a =>
    cases h
    exact congrArg number (Scalar.mul_one_eq a)
  | complex z =>
    cases h
    exact congrArg complex (Complex.mul_one_eq z)
  | angle a | vector elements | matrix rows =>
    cases h
    simp [Angle.map, realArithmetic, Matrix.scale]
  | _ => cases h

/-- One times a value. -/
theorem one_mul [Scalar.ExactRing K] (h : (number one).applyBinary .mul v = .ok w) : w = v := by
  cases v with
  | number a =>
    cases h
    exact congrArg number (Scalar.one_mul_eq a)
  | complex z =>
    cases h
    exact congrArg complex (Complex.one_mul_eq z)
  | angle a | vector elements | matrix rows =>
    cases h
    simp [Angle.map, realArithmetic, Matrix.scale]
  | _ => cases h

/-- A number times zero. -/
theorem mul_zero [Scalar.ExactRing K] (h : (number a).applyBinary .mul (number zero) = .ok w) :
    w = number zero := by
  cases h
  exact congrArg number (Scalar.mul_zero_eq a)

/-- Zero times a number. -/
theorem zero_mul [Scalar.ExactRing K] (h : (number zero).applyBinary .mul (number a) = .ok w) :
    w = number zero := by
  cases h
  exact congrArg number (Scalar.zero_mul_eq a)

/-- A value divided by one. -/
theorem div_one [Scalar.Exact K] (h : v.applyBinary .div (number one) = .ok w) : w = v := by
  cases v with
  | number a =>
    cases h
    exact congrArg number (Scalar.div_one_eq a)
  | complex z =>
    cases h
    exact congrArg complex (Complex.div_one_eq z)
  | angle a | vector elements | matrix rows =>
    cases h
    simp [Angle.map, realArithmetic, Matrix.scale]
  | _ => cases h

/-! ## Powers -/

section

variable [Scalar.Exact K]

/-- An integer is integral. -/
theorem isIntegral_ofInt (n : Int) : Scalar.isIntegral (Scalar.ofInt n : K) = true := by
  rw [Scalar.isIntegral, Scalar.Exact.toInt?_ofInt]
  rfl

/-- A power with an integral exponent stays real. -/
theorem arithmeticReal_pow_ofInt (a : K) (n : Int) :
    arithmeticReal .pow a (Scalar.ofInt n) = number (Scalar.pow a (Scalar.ofInt n)) := by
  simp [arithmeticReal, leavesReals, isIntegral_ofInt, realArithmetic]

/-- The first power of a number. -/
theorem pow_one (hv : v.type = .number ∨ v.type = .complex)
    (h : v.applyBinary .pow (number one) = .ok w) : w = v := by
  cases v with
  | number a =>
    cases h
    exact (arithmeticReal_pow_ofInt a 1).trans (congrArg number (Scalar.Exact.pow_one a))
  | complex z =>
    cases h
    exact congrArg complex (Complex.pow_one_eq z)
  | _ => simp [type] at hv

/-- The zeroth power of a number. -/
theorem pow_zero (h : (number a).applyBinary .pow (number zero) = .ok w) : w = number one := by
  cases h
  exact (arithmeticReal_pow_ofInt a 0).trans (congrArg number (Scalar.Exact.pow_zero a))

/-- A power of one. -/
theorem one_pow (h : (number one).applyBinary .pow (number a) = .ok w) : w = number one := by
  cases h
  simp [arithmeticReal, leavesReals, realArithmetic, Scalar.Exact.not_one_lt_zero,
    Scalar.Exact.one_pow]

end

/-! ## Complements -/

/-- The complement of an integer is the integer that differs from it in every bit. -/
theorem complement_number (h : (number a).applyUnary .not = .ok u) :
    ∃ n, Scalar.toInt? a = some n ∧ u = number (Scalar.ofInt (-n - 1)) := by
  obtain ⟨n, hn, h⟩ := Result.bind_ok h
  unfold integerOf at hn
  split at hn
  · next m hm =>
    cases hn
    refine ⟨n, (Option.filter_eq_some_iff.1 hm).1, ?_⟩
    split at h
    · next result hresult =>
      unfold Scalar.ofSafeInt? at hresult
      split at hresult <;> cases hresult
      cases h
      rfl
    · cases h
  · cases hn

/-- The complement of the complement of a value. -/
theorem not_not [Scalar.Exact K] (hu : v.applyUnary .not = .ok u)
    (hw : u.applyUnary .not = .ok w) : w = v := by
  cases v with
  | bool b =>
    cases hu
    cases hw
    simp
  | number a =>
    obtain ⟨n, hn, rfl⟩ := complement_number hu
    obtain ⟨m, hm, rfl⟩ := complement_number hw
    rw [Scalar.Exact.toInt?_ofInt] at hm
    cases hm
    rw [show -(-n - 1) - 1 = n by omega, Scalar.Exact.ofInt_of_toInt? hn]
  | _ => cases hu

end Formula.Value

import Formula.Proofs.Scalar.Exact
import Mathlib.Analysis.SpecialFunctions.Arcosh
import Mathlib.Analysis.SpecialFunctions.Arsinh
import Mathlib.Analysis.SpecialFunctions.Artanh
import Mathlib.Analysis.SpecialFunctions.Complex.Arg
import Mathlib.Analysis.SpecialFunctions.Log.Base
import Mathlib.Analysis.SpecialFunctions.Pow.Real
import Mathlib.Analysis.SpecialFunctions.Trigonometric.Arctan

/-!
# Real numbers as scalars

The real numbers with their own operations and functions are exact scalars, so that the laws of
`Scalar.Exact` hold together. Real numbers have no largest one and no finite text: in place of
infinity stands zero, in place of a text that of the integer part.
-/

namespace Formula

open Classical in
/-- The operations of real numbers. -/
noncomputable instance : Scalar ℝ where
  ofInt n := n
  ofDecimal mantissa exponent := mantissa * 10 ^ exponent
  infinity := 0
  pi := Real.pi
  euler := Real.exp 1
  ln2 := Real.log 2
  ln10 := Real.log 10
  text a := toString ⌊a⌋
  toInt? a := if (⌊a⌋ : ℝ) = a then some ⌊a⌋ else none
  isFinite _ := true
  isNegative a := decide (a < 0)
  eq a b := decide (a = b)
  lt a b := decide (a < b)
  identical a b := decide (a = b)
  rank a b := compare a b
  abs a := |a|
  rem a b := a - b * truncated (a / b)
  mulAdd a b c := a * b + c
  pow a b := a ^ b
  hypot a b := ‖(⟨a, b⟩ : ℂ)‖
  atan2 y x := (⟨x, y⟩ : ℂ).arg
  midpoint a b := (a + b) / 2
  elementary
    | .sqrt => Real.sqrt
    | .exp => Real.exp
    | .ln => Real.log
    | .log10 => Real.logb 10
    | .log2 => Real.logb 2
    | .sin => Real.sin
    | .cos => Real.cos
    | .tan => Real.tan
    | .arcsin => Real.arcsin
    | .arccos => Real.arccos
    | .arctan => Real.arctan
    | .sinh => Real.sinh
    | .cosh => Real.cosh
    | .tanh => Real.tanh
    | .arsinh => Real.arsinh
    | .arcosh => Real.arcosh
    | .artanh => Real.artanh
    | .floor => fun a => ⌊a⌋
    | .ceil => fun a => ⌈a⌉
    | .round => fun a => truncated (a + (if a < 0 then -1 else 1) / 2)
    | .trunc => fun a => truncated a
where
  /-- The integer part of a number, cut off toward zero. -/
  truncated (a : ℝ) : ℝ := if a < 0 then ⌈a⌉ else ⌊a⌋

namespace Scalar

/-- The number zero. -/
@[simp] theorem zero_real : (zero : ℝ) = 0 := Int.cast_zero

/-- The number one. -/
@[simp] theorem one_real : (one : ℝ) = 1 := Int.cast_one

/-- Sums, differences and products of real numbers. -/
instance : ExactRing ℝ where
  add_assoc := add_assoc
  add_comm := add_comm
  zero_add a := by rw [zero_real]; exact zero_add a
  neg_add a := by rw [zero_real]; exact neg_add_cancel a
  sub_eq := sub_eq_add_neg
  mul_assoc := mul_assoc
  mul_comm := mul_comm
  one_mul a := by rw [one_real]; exact one_mul a
  add_mul := add_mul
  mulAdd_eq _ _ _ := rfl

/-- **The laws of exact numbers hold** for real numbers. -/
instance : Exact ℝ where
  not_lt_of_le {a b} h := by
    have h : a < b ∨ a = b := by simpa [le, lt, eq] using h
    exact decide_eq_false (not_lt.2 (le_iff_lt_or_eq.2 h))
  mul_recip {a} ha := by
    rw [zero_real] at ha
    rw [recip, one_real]
    exact mul_one_div_cancel ha
  div_eq a b := by
    rw [recip, one_real]
    exact div_eq_mul_one_div a b
  one_ne_zero := by
    rw [one_real, zero_real]
    exact one_ne_zero
  not_one_lt_zero := by
    rw [one_real, zero_real]
    exact decide_eq_false (not_lt.2 zero_le_one)
  eq_iff := decide_eq_true_iff
  identical_iff := decide_eq_true_iff
  toInt?_ofInt n := by simp [toInt?, ofInt]
  ofInt_of_toInt? {a n} h := by
    have h : (⌊a⌋ : ℝ) = a ∧ ⌊a⌋ = n := by simpa [toInt?] using h
    exact h.2 ▸ h.1
  pow_zero a := by
    rw [one_real, zero_real]
    exact Real.rpow_zero a
  pow_one a := by
    rw [one_real]
    exact Real.rpow_one a
  one_pow a := by
    rw [one_real]
    exact Real.one_rpow a
  exp_ln {z} hz := by
    have hpos : 0 < ‖(⟨z.re, z.im⟩ : ℂ)‖ := norm_pos_iff.2 fun h => hz <| by
      rw [zero_real]
      exact ⟨congrArg (·.re) h, congrArg (·.im) h⟩
    have habs : Real.exp (Real.log ‖(⟨z.re, z.im⟩ : ℂ)‖) = ‖(⟨z.re, z.im⟩ : ℂ)‖ :=
      Real.exp_log hpos
    refine Complex.ext ?_ ?_
    · change Real.exp (Real.log ‖(⟨z.re, z.im⟩ : ℂ)‖) * Real.cos (⟨z.re, z.im⟩ : ℂ).arg = z.re
      rw [habs, Complex.norm_mul_cos_arg]
    · change Real.exp (Real.log ‖(⟨z.re, z.im⟩ : ℂ)‖) * Real.sin (⟨z.re, z.im⟩ : ℂ).arg = z.im
      rw [habs, Complex.norm_mul_sin_arg]

end Scalar

end Formula

import Mathlib
import Formula.Proofs.Scalar.Real

/-!
# Ordered fields

Elimination divides by pivots and compares their magnitudes with a threshold, and asks for nothing
else. `Scalar.OrderedField` says that this arithmetic is exact: the laws of an ordered field, with
magnitudes, integers and decimals that are what they say. No elementary function has a law here, so
that any ordered field will do.
-/

namespace Formula.Scalar

/-- Arithmetic, order, integers and decimals are those of an ordered field. -/
class OrderedField (K : Type) [Scalar K] : Prop extends ExactRing K where
  one_ne_zero : (one : K) ≠ zero
  div_mul_cancel (a : K) {b : K} (hb : b ≠ zero) : a / b * b = a
  lt_irrefl (a : K) : lt a a = false
  lt_trans {a b c : K} : lt a b = true → lt b c = true → lt a c = true
  lt_trichotomy (a b : K) : lt a b = true ∨ a = b ∨ lt b a = true
  add_lt_add_right {a b : K} (c : K) : lt a b = true → lt (a + c) (b + c) = true
  mul_pos {a b : K} : lt zero a = true → lt zero b = true → lt zero (a * b) = true
  abs_eq (a : K) : abs a = if lt a zero then -a else a
  ofInt_add (m n : Int) : (ofInt (m + n) : K) = ofInt m + ofInt n
  ofDecimal_mul (mantissa places : Nat) :
    (ofDecimal mantissa (-places) : K) * ofInt (10 ^ places : Nat) = ofInt mantissa

/-- **The laws of an ordered field hold** for real numbers. -/
instance : OrderedField ℝ where
  one_ne_zero := Exact.one_ne_zero
  div_mul_cancel a {b} hb := by
    rw [zero_real] at hb
    exact div_mul_cancel₀ a hb
  lt_irrefl a := decide_eq_false (lt_irrefl a)
  lt_trans hab hbc := decide_eq_true ((of_decide_eq_true hab).trans (of_decide_eq_true hbc))
  lt_trichotomy a b := by simpa [lt] using lt_trichotomy a b
  add_lt_add_right c h := decide_eq_true (add_lt_add_left (of_decide_eq_true h) c)
  mul_pos := by
    simp only [lt, zero_real, decide_eq_true_eq]
    exact mul_pos
  abs_eq a := by
    simp only [lt, zero_real, decide_eq_true_eq]
    split
    · next h => exact abs_of_neg h
    · next h => exact abs_of_nonneg (le_of_not_gt h)
  ofInt_add m n := Int.cast_add m n
  ofDecimal_mul mantissa places := by
    change (mantissa : ℝ) * 10 ^ (-places : Int) * ((10 ^ places : Nat) : Int) = (mantissa : Int)
    simp

/-- The magnitude of a real number. -/
theorem abs_real (a : ℝ) : abs a = |a| := rfl

/-- The rank of a real number. -/
theorem rank_real {a b : ℝ} : rank a b = .gt ↔ b < a := compare_gt_iff_gt

variable {K : Type} [Scalar K] [OrderedField K] {a b : K}

attribute [local instance] commRing

/-- A number other than zero and its reciprocal. -/
theorem one_div_mul_cancel (ha : a ≠ zero) : one / a * a = one :=
  OrderedField.div_mul_cancel one ha

/-- Products of numbers other than zero. -/
theorem mul_ne_zero_of_ne (ha : a ≠ zero) (hb : b ≠ zero) : a * b ≠ zero := by
  intro h
  refine ha ?_
  calc a = a * b * (one / b) := by
        rw [mul_assoc, mul_comm b, one_div_mul_cancel hb, mul_one_eq]
    _ = zero := by rw [h, zero_mul_eq]

/-- The negative of a number other than zero. -/
theorem neg_ne_zero_of_ne (ha : a ≠ zero) : -a ≠ zero := by
  intro h
  exact ha (by rw [← neg_neg_eq a, h, neg_zero_eq])

/-- A factor can be taken out of a numerator. -/
theorem div_mul_eq_mul_div (a c : K) (hb : b ≠ zero) : a / b * c = a * (c / b) := by
  calc a / b * c = a / b * (c / b * b) := by rw [OrderedField.div_mul_cancel c hb]
    _ = a / b * b * (c / b) := by ring
    _ = a * (c / b) := by rw [OrderedField.div_mul_cancel a hb]

/-- A quotient is a multiple of its numerator. -/
theorem div_eq_mul_one_div (a : K) (hb : b ≠ zero) : a / b = a * (one / b) := by
  rw [← div_mul_eq_mul_div a one hb, mul_one_eq]

/-! ## Positive numbers -/

/-- The negative of a negative number. -/
theorem neg_pos_of_lt (h : lt a zero = true) : lt zero (-a) = true := by
  have hadd := OrderedField.add_lt_add_right (-a) h
  rwa [add_neg_cancel, zero_add_eq] at hadd

/-- Not both a number and its negative are positive. -/
theorem not_neg_pos (h : lt zero a = true) : lt zero (-a) = false := by
  refine Bool.eq_false_iff.2 fun hneg => ?_
  have hadd := OrderedField.add_lt_add_right a hneg
  rw [zero_add_eq, ExactRing.neg_add] at hadd
  exact Bool.noConfusion ((OrderedField.lt_irrefl a).symm.trans (OrderedField.lt_trans hadd h))

/-- One is positive. -/
theorem zero_lt_one : lt (zero : K) one = true := by
  rcases OrderedField.lt_trichotomy (zero : K) one with h | h | h
  · exact h
  · exact absurd h.symm OrderedField.one_ne_zero
  · have hneg := neg_pos_of_lt h
    have hsquare := OrderedField.mul_pos hneg hneg
    rwa [neg_mul_neg, one_mul_eq] at hsquare

/-- Natural numbers other than zero are positive. -/
theorem ofInt_pos (n : Nat) : lt (zero : K) (ofInt ((n + 1 : Nat) : Int)) = true := by
  induction n with
  | zero => exact zero_lt_one
  | succ n ih =>
    have hadd := OrderedField.add_lt_add_right one ih
    rw [zero_add_eq] at hadd
    rw [Int.natCast_add, OrderedField.ofInt_add]
    exact OrderedField.lt_trans zero_lt_one hadd

/-- A number is positive if a positive multiple of it is. -/
theorem pos_of_mul_pos (hb : lt zero b = true) (hab : lt zero (a * b) = true) :
    lt zero a = true := by
  rcases OrderedField.lt_trichotomy zero a with h | h | h
  · exact h
  · rw [← h, zero_mul_eq, OrderedField.lt_irrefl] at hab
    cases hab
  · have hneg := OrderedField.mul_pos (neg_pos_of_lt h) hb
    rw [neg_mul, not_neg_pos hab] at hneg
    cases hneg

/-- A decimal fraction is positive if its digits are no zero. -/
theorem ofDecimal_pos (mantissa places : Nat) :
    lt (zero : K) (ofDecimal (mantissa + 1) (-places)) = true := by
  obtain ⟨n, hn⟩ := Nat.exists_eq_add_one_of_ne_zero (pow_ne_zero places (by decide : 10 ≠ 0))
  refine pos_of_mul_pos (b := ofInt (10 ^ places : Nat)) ?_ ?_
  · rw [hn]
    exact ofInt_pos n
  · rw [OrderedField.ofDecimal_mul]
    exact ofInt_pos mantissa

/-- Zero has no magnitude. -/
theorem abs_zero_eq : abs (zero : K) = zero := by
  rw [OrderedField.abs_eq, OrderedField.lt_irrefl]
  rfl

end Formula.Scalar

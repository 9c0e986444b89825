import Formula.Proofs.Eval
import Formula.Proofs.Value.Integers
import Mathlib.Data.Rat.Floor

/-!
# Shifts of integers

A shift of integers by less than sixty-four places is exact or refused, but for the left shifts
whose product leaves sixty-four bits and comes back into the safe range: these give what is left of
the product (`execute_shift`). A product that stays within sixty-four bits is never cut, and so
no shift by ten places or less is (`not_cutsShift_of_le`).
-/

namespace Formula

namespace Value

variable {K : Type} [Scalar K] {op : BinaryOp} {a b : K} {v n : Int}

/-- The integer that `v` shifted by `n` places stands for, if there is one in the safe range: `v`
times two to the `n`, or the integer part of `v` divided by two to the `n`. -/
def exactShift? (op : BinaryOp) (v n : Int) : Option Int :=
  if 0 ≤ n ∧ n < 64 then
    if op = .shiftLeft then
      if isSafeInt (v * 2 ^ n.toNat) then some (v * 2 ^ n.toNat) else none
    else some ⌊(v : ℚ) / 2 ^ n.toNat⌋
  else none

/-- The outcome of a shift that is exact, or refused where no exact result exists. -/
def IsExactShift (op : BinaryOp) (v n : Int) (outcome : Except (Failure K) (Value K)) : Prop :=
  match exactShift? op v n with
  | some m => ∃ r : K, outcome = .ok (number r) ∧ Scalar.toInt? r = some m
  | none => ∃ details, outcome = .error (.error (.invalidArgument op.symbol details))

/-- Whether a left shift has no exact result in the safe range, and the sixty-four bits that are
left of its product are those of an integer that lies there. -/
def cutsShift (v n : Int) : Bool :=
  decide (0 ≤ n ∧ n < 64) && !isSafeInt (v * 2 ^ n.toNat) &&
    isSafeInt ((v * 2 ^ n.toNat).bmod (2 ^ 64))

/-- **A left shift by at most ten places is never cut.** -/
theorem not_cutsShift_of_le (hv : v.natAbs ≤ maxSafeInt) (hn : n ≤ 10) : cutsShift v n = false := by
  rw [maxSafeInt] at hv
  have hplaces : (2 : Nat) ^ n.toNat ≤ 2 ^ 10 := Nat.pow_le_pow_right (by decide) (by omega)
  have hproduct : (v * 2 ^ n.toNat).natAbs < 2 ^ 63 := by
    rw [Int.natAbs_mul, Int.natAbs_pow]
    exact (Nat.mul_le_mul hv hplaces).trans_lt (by decide)
  rw [cutsShift, bmod_of_natAbs_lt hproduct]
  cases isSafeInt (v * 2 ^ n.toNat) <;> simp

/-- A right shift is the floor of a quotient, and it stays in the safe range. -/
theorem shiftRight_eq_floor (v : Int) (k : Nat) : v >>> k = ⌊(v : ℚ) / 2 ^ k⌋ := by
  have hfloor := Rat.floor_intCast_div_natCast v (2 ^ k)
  rw [Nat.cast_pow, Nat.cast_ofNat] at hfloor
  rw [Int.shiftRight_eq_div_pow, hfloor]

theorem isSafeInt_shiftRight (hv : isSafeInt v = true) (k : Nat) : isSafeInt (v >>> k) = true := by
  rw [isSafeInt_iff] at hv ⊢
  rw [Int.shiftRight_eq_div_pow]
  exact (Int.natAbs_ediv_le_natAbs _ _).trans_lt hv

/-- A shift of two numbers that stand for integers of the safe range. -/
theorem shift_number (ha : Scalar.toInt? a = some v) (hv : isSafeInt v = true)
    (hb : Scalar.toInt? b = some n) (hn : isSafeInt n = true) :
    shift op (number a) (number b) =
      if 0 ≤ n ∧ n < 64 then ofInteger op.symbol (shiftBits op v n.toNat)
      else .error (.invalidArgument op.symbol s!"cannot shift by {n}") := by
  rw [shift, integerOf_eq_ok ha hv, integerOf_eq_ok hb hn]
  rfl

end Value

namespace Binary64

open Value

variable {op : BinaryOp} {x y : Binary64} {v n : Int}

/-- What a left shift gives is what it should give unless it is cut. -/
theorem shiftLeft_isExact (hx : x.toInt? = some v) (hv : isSafeInt v = true)
    (hy : y.toInt? = some n) (hn : isSafeInt n = true) {env : Environment Binary64} :
    IsExactShift .shiftLeft v n
      ((Eval.ofResult ((number x).applyBinary .shiftLeft (number y))).run env).1 ↔
        cutsShift v n = false := by
  rw [applyBinary, shift_number hx hv hy hn, IsExactShift, exactShift?, cutsShift, shiftBits]
  simp only [if_true]
  by_cases hrange : 0 ≤ n ∧ n < 64
  · rw [if_pos hrange, if_pos hrange, decide_eq_true hrange]
    generalize v * 2 ^ n.toNat = product
    cases hproduct : isSafeInt product with
    | true =>
      have hsmall := isSafeInt_iff.1 hproduct
      have hresult := ofInteger_of_isSafeInt hproduct BinaryOp.shiftLeft.symbol
      rw [bmod_of_natAbs_lt (by omega), hresult.1]
      exact iff_of_true ⟨_, rfl, hresult.2⟩ rfl
    | false =>
      cases hrest : isSafeInt (product.bmod (2 ^ 64)) with
      | true =>
        rw [(ofInteger_of_isSafeInt hrest _).1]
        exact iff_of_false (fun ⟨_, h⟩ => nomatch h) (by decide)
      | false =>
        rw [ofInteger_of_not_isSafeInt hrest]
        exact iff_of_true ⟨_, rfl⟩ rfl
  · rw [if_neg hrange, if_neg hrange, decide_eq_false hrange]
    exact iff_of_true ⟨_, rfl⟩ rfl

/-- What a right shift gives is what it should give. -/
theorem shiftRight_isExact (hx : x.toInt? = some v) (hv : isSafeInt v = true)
    (hy : y.toInt? = some n) (hn : isSafeInt n = true) {env : Environment Binary64} :
    IsExactShift .shiftRight v n
      ((Eval.ofResult ((number x).applyBinary .shiftRight (number y))).run env).1 := by
  rw [applyBinary, shift_number hx hv hy hn, IsExactShift, exactShift?, shiftBits]
  simp only [reduceCtorEq, if_false]
  by_cases hrange : 0 ≤ n ∧ n < 64
  · have hresult := ofInteger_of_isSafeInt (isSafeInt_shiftRight hv n.toNat)
      BinaryOp.shiftRight.symbol
    rw [if_pos hrange, if_pos hrange, ← shiftRight_eq_floor, hresult.1]
    exact ⟨_, rfl, hresult.2⟩
  · rw [if_neg hrange, if_neg hrange]
    exact ⟨_, rfl⟩

end Binary64

namespace Expr

open Eval Value

variable {K : Type} [Scalar K]

/-- **A shift of two integers is exact or refused, but for the left shifts that are cut.** The
operands are any two trees whose values are integers of the safe range; the left one is evaluated
first. -/
theorem execute_shift {a b : Expr Binary64} {x y : Binary64} {v n : Int}
    {env env₁ env₂ : Environment Binary64} (ha : a.execute env = (.ok (.number x), env₁))
    (hb : b.execute env₁ = (.ok (.number y), env₂)) (hx : x.toInt? = some v)
    (hv : v.natAbs ≤ maxSafeInt) (hy : y.toInt? = some n) (hn : n.natAbs ≤ maxSafeInt) :
    (IsExactShift .shiftLeft v n ((binary .shiftLeft a b).execute env).1 ↔
      cutsShift v n = false) ∧
        IsExactShift .shiftRight v n ((binary .shiftRight a b).execute env).1 := by
  have hv := decide_eq_true hv
  have hn := decide_eq_true hn
  rw [execute_binary rfl ha hb, execute_binary rfl ha hb]
  exact ⟨Binary64.shiftLeft_isExact hx hv hy hn, Binary64.shiftRight_isExact hx hv hy hn⟩

/-- Five thousand below zero, shifted by ten places. -/
theorem execute_shift_ten :
    let a : Expr Binary64 := unary .minus (number (Binary64.ofInt 5000))
    let b : Expr Binary64 := number (Binary64.ofInt 10)
    cutsShift (-5000) 10 = false ∧
      IsExactShift .shiftLeft (-5000) 10 ((binary .shiftLeft a b).execute .initial).1 ∧
        IsExactShift .shiftRight (-5000) 10 ((binary .shiftRight a b).execute .initial).1 := by
  intro a b
  have ha : a.execute .initial = (.ok (.number (-Binary64.ofInt 5000)), .initial) := rfl
  have hb : b.execute .initial = (.ok (.number (Binary64.ofInt 10)), .initial) := rfl
  have hcut : cutsShift (-5000) 10 = false := not_cutsShift_of_le (by decide) (by decide)
  have h := execute_shift ha hb
    (by decide +kernel : (Binary64.ofInt 5000).negate.toInt? = some (-5000)) (by decide)
    (Binary64.toInt?_ofInt (by decide)) (by decide)
  exact ⟨hcut, h.1.2 hcut, h.2⟩

/-- Two shifted by sixty-three places should be refused; but no digit of the product is left, and
it is zero. -/
theorem execute_shift_cut :
    let shifted := (binary .shiftLeft (number (Binary64.ofInt 2))
      (number (Binary64.ofInt 63))).execute .initial
    cutsShift 2 63 = true ∧ shifted.1 = .ok (.number (Binary64.ofInt 0)) ∧
      ¬IsExactShift .shiftLeft 2 63 shifted.1 := by
  have hcut : cutsShift 2 63 = true := by decide
  refine ⟨hcut, rfl, fun h => ?_⟩
  obtain ⟨details, h⟩ := h
  cases h

end Expr

end Formula

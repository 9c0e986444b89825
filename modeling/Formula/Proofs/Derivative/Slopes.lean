import Formula.Proofs.Derivative
import Formula.Proofs.Simplify.Meaning
import Mathlib.Tactic.Ring

/-!
# Slopes

The value of a derivative is computed from the meanings and the slopes of the operands by the rules
of calculus. `Reads ρ d w` says that the derivative `d` has the real meaning `w`, if its
simplification is defined: a derivative that is simplified may have lost a denominator together with
a factor zero, so nothing is known of a factor that was dropped, except that it does not count.
`HasSlope ρ x e w` says so of the derivative of `e`.

Derivatives of literals and of trees without the variable are zero. The rules for operators agree
with what the simplifier does to them: a neutral operand that is dropped contributes nothing to the
slope.
-/

namespace Formula.Expr

open Scalar (zero one)

variable {K : Type} [Scalar K] {ρ : Valuation K} {x : String} {a b d d' e : Expr K} {w w' : K}

/-! ## Real numbers -/

/-- The meaning of a tree as a real number. -/
def realMeaning (ρ : Valuation K) (e : Expr K) : K := (meaning ρ e).real

@[simp] theorem realMeaning_number (c : K) : realMeaning ρ (number c) = c := rfl

/-- The real meaning of a call. -/
theorem realMeaning_builtin {f : Builtin} {as : List (Expr K)} : realMeaning ρ (builtin f as) =
    ((Value.applyBuiltin f (meanings ρ as)).toOption.getD .empty).real := rfl

section

variable [Scalar.Exact K]

@[simp] theorem realMeaning_opposite : realMeaning ρ (opposite a) = -realMeaning ρ a :=
  Value.real_opposite _

@[simp] theorem realMeaning_plus :
    realMeaning ρ (plus a b) = realMeaning ρ a + realMeaning ρ b := Value.real_combine rfl

@[simp] theorem realMeaning_minus :
    realMeaning ρ (minus a b) = realMeaning ρ a - realMeaning ρ b := Value.real_combine rfl

@[simp] theorem realMeaning_times :
    realMeaning ρ (times a b) = realMeaning ρ a * realMeaning ρ b := Value.real_combine rfl

@[simp] theorem realMeaning_quotient :
    realMeaning ρ (quotient a b) = realMeaning ρ a / realMeaning ρ b := Value.real_combine rfl

@[simp] theorem realMeaning_pow : realMeaning ρ (binary .pow a b) =
    Value.realOperation .pow (realMeaning ρ a) (realMeaning ρ b) := Value.real_combine rfl

@[simp] theorem realMeaning_square : realMeaning ρ (square a) =
    Value.realOperation .pow (realMeaning ρ a) (Scalar.ofInt 2) := realMeaning_pow

/-- Simplification keeps the real meaning. -/
@[simp] theorem realMeaning_simplifyWith (assumed : TypeGuess) (e : Expr K) :
    realMeaning ρ (e.simplifyWith assumed) = realMeaning ρ e :=
  congrArg Value.real (meaning_simplifyWith e)

/-- A tree that simplifies to a number means that number. -/
theorem meaning_of_simplifyReal {c : K} (h : e.simplifyReal = number c) :
    meaning ρ e = .number c := by
  rw [← meaning_simplifyWith e]
  exact congrArg (meaning ρ) h

/-- A tree that simplifies to a number means that real number. -/
theorem realMeaning_of_simplifyReal {c : K} (h : e.simplifyReal = number c) :
    realMeaning ρ e = c := congrArg Value.real (meaning_of_simplifyReal h)

end

/-! ## Operands of a simplified operator -/

omit [Scalar K] in
/-- A literal mentions no variable. -/
theorem hasVariable_of_literal? (h : (literal? e).isSome = true) : e.hasVariable x = false := by
  cases e with
  | number | bool => rfl
  | _ => cases h

/-- What a variable is missing from after a sign is pulled in. -/
theorem hasVariable_negated : a.negated.hasVariable x = a.hasVariable x := by
  unfold negated
  split <;> rfl

/-- A literal, or the tree it would have replaced. -/
theorem literalOr_cases (e : Expr K) (r : Result K (Value K)) :
    literalOr e r = e ∨ (literal? (literalOr e r)).isSome = true := by
  unfold literalOr
  split
  · split
    · exact .inr rfl
    · exact .inl rfl
  · exact .inr rfl
  · exact .inl rfl

/-- Evaluation of literals gives a literal, and otherwise leaves the operator as it is. -/
theorem foldBinary_cases (op : BinaryOp) (a b : Expr K) : foldBinary op a b = binary op a b ∨
    ((literal? a).isSome = true ∧ (literal? b).isSome = true) ∧
      (literal? (foldBinary op a b)).isSome = true := by
  unfold foldBinary
  split
  · next v w ha hb =>
    have hboth : (literal? a).isSome = true ∧ (literal? b).isSome = true := by
      rw [ha, hb]
      exact ⟨rfl, rfl⟩
    exact (literalOr_cases _ _).imp_right fun h => ⟨hboth, h⟩
  · exact .inl rfl

omit [Scalar K] in
/-- The trees of a list with values are literals. -/
theorem forall_literal_of_mapM : ∀ {as : List (Expr K)} {vs : List (Value K)},
    as.mapM literal? = some vs → ∀ a ∈ as, (literal? a).isSome = true
  | [], _, _ => nofun
  | a :: as, _, h => by
    rw [List.mapM_cons] at h
    obtain ⟨v, hv, h⟩ := Option.bind_eq_some_iff.1 h
    obtain ⟨vs, hvs, -⟩ := Option.bind_eq_some_iff.1 h
    exact List.forall_mem_cons.2 ⟨Option.isSome_of_eq_some hv, forall_literal_of_mapM hvs⟩

/-- The same for a function of literals. -/
theorem foldBuiltin_cases (f : Builtin) (as : List (Expr K)) : foldBuiltin f as = builtin f as ∨
    (∀ a ∈ as, (literal? a).isSome = true) ∧ (literal? (foldBuiltin f as)).isSome = true := by
  unfold foldBuiltin
  split
  · next vs hvs =>
    exact (literalOr_cases _ _).imp_right fun h => ⟨forall_literal_of_mapM hvs, h⟩
  · exact .inl rfl

/-- What is evaluated to a literal has literals for its operands. -/
theorem literal_of_foldBinary {op : BinaryOp} (h : (literal? (foldBinary op a b)).isSome = true) :
    (literal? a).isSome = true ∧ (literal? b).isSome = true := by
  obtain heq | ⟨hboth, -⟩ := foldBinary_cases op a b
  · rw [heq] at h
    cases h
  · exact hboth

/-- One operand decides the result, whatever the other one is. -/
def Absorbs (op : BinaryOp) (a b : Expr K) : Prop :=
  op = .mul ∧ (a = number zero ∨ b = number zero) ∨ op = .pow ∧ (b = number zero ∨ a = number one)

/-- **What holds for a simplified operator holds for its operands**, unless one of them was dropped:
for a property of literals that passes from an operator to its operands. -/
theorem operands_of_simplifyBinary [Scalar.Exact K] {P : Expr K → Prop} {assumed : TypeGuess}
    {op : BinaryOp} (hliteral : ∀ {e}, (literal? e).isSome = true → P e)
    (hnegated : P b.negated → P b) (hnode : P (binary op a b) → P a ∧ P b)
    (h : P (simplifyBinary assumed op a b)) : P a ∧ P b ∨ Absorbs op a b := by
  have hnumber {value : K} {e : Expr K} (he : isLiteral value e = true) : P e :=
    hliteral (by rw [eq_of_isLiteral he]; rfl)
  generalize hrule : simplifyBinary assumed op a b = e at h
  cases simplifyBinary_rule hrule with
  | addZero hb | subZero hb | mulOne hb | divOne hb | powOne hb => exact .inl ⟨h, hnumber hb⟩
  | zeroAdd ha | oneMul ha => exact .inl ⟨hnumber ha, h⟩
  | zeroSub ha => exact .inl ⟨hnumber ha, hnegated h⟩
  | zeroMul ha => exact .inr (.inl ⟨rfl, .inl (eq_of_isLiteral ha)⟩)
  | mulZero hb => exact .inr (.inl ⟨rfl, .inr (eq_of_isLiteral hb)⟩)
  | powZero hb => exact .inr (.inr ⟨rfl, .inl (eq_of_isLiteral hb)⟩)
  | onePow ha => exact .inr (.inr ⟨rfl, .inr (eq_of_isLiteral ha)⟩)
  | fold =>
    obtain heq | ⟨⟨ha, hb⟩, -⟩ := foldBinary_cases op a b
    · exact .inl (hnode (heq ▸ h))
    · exact .inl ⟨hliteral ha, hliteral hb⟩

/-! ## Denominators -/

/-- In the arithmetic at the top of the tree no denominator means zero. -/
def HasQuotients (ρ : Valuation K) : Expr K → Prop
  | unary .minus a => HasQuotients ρ a
  | binary .add a b | binary .sub a b | binary .mul a b => HasQuotients ρ a ∧ HasQuotients ρ b
  | binary .div a b => HasQuotients ρ a ∧ HasQuotients ρ b ∧ realMeaning ρ b ≠ zero
  | _ => True

/-- A literal has no denominators. -/
theorem hasQuotients_of_literal? (h : (literal? e).isSome = true) : e.HasQuotients ρ := by
  cases e with
  | number | bool => trivial
  | _ => cases h

/-- A sign that is pulled in. -/
theorem hasQuotients_negated : a.negated.HasQuotients ρ ↔ a.HasQuotients ρ := by
  unfold negated
  split <;> rfl

section

variable [Scalar.Exact K]

/-- **Where a tree has a value, no denominator is zero.** -/
theorem hasQuotients_of_value? {v : Value K} (h : e.value? ρ = some v) : e.HasQuotients ρ := by
  induction e using Expr.induction generalizing v with
  | unary op a iha =>
    obtain ⟨u, hu, -⟩ := Option.bind_eq_some_iff.1 h
    cases op with
    | minus => exact iha hu
    | _ => trivial
  | binary op a b iha ihb =>
    obtain ⟨u, hu, h⟩ := Option.bind_eq_some_iff.1 h
    cases op with
    | add | sub | mul =>
      obtain ⟨w, hw, -⟩ := Option.bind_eq_some_iff.1 h
      exact ⟨iha hu, ihb hw⟩
    | div =>
      obtain ⟨w, hw, h⟩ := Option.bind_eq_some_iff.1 h
      refine ⟨iha hu, ihb hw, fun hzero => ?_⟩
      rw [realMeaning, meaning_of_value? hw] at hzero
      change Value.analytic? .div u w = some v at h
      unfold Value.analytic? at h
      split at h
      · next c d =>
        rw [Value.real_number] at hzero
        rw [hzero, Scalar.Exact.identical_iff.2 rfl] at h
        cases h
      · cases h
    | _ => trivial
  | _ => trivial

/-- The operands of a sum, a difference, a product or a quotient, unless one of them was dropped. -/
theorem hasQuotients_of_simplifyReal (op : BinaryOp) (hop : op ∈ [.add, .sub, .mul, .div])
    (h : (binary op a b).simplifyReal.HasQuotients ρ) :
    a.simplifyReal.HasQuotients ρ ∧ b.simplifyReal.HasQuotients ρ ∨
      Absorbs op a.simplifyReal b.simplifyReal := by
  rw [simplifyReal, simplifyWith] at h
  refine operands_of_simplifyBinary hasQuotients_of_literal? hasQuotients_negated.1 (fun h => ?_) h
  simp only [List.mem_cons, List.not_mem_nil, or_false] at hop
  rcases hop with rfl | rfl | rfl | rfl
  · exact h
  · exact h
  · exact h
  · exact ⟨h.1, h.2.1⟩

/-! ## What derivatives read -/

/-- The simplified tree has this real meaning, if none of its denominators is zero. -/
def Reads (ρ : Valuation K) (d : Expr K) (w : K) : Prop :=
  d.simplifyReal.HasQuotients ρ → realMeaning ρ d = w

namespace Reads

omit [Scalar.Exact K] in
theorem self : Reads ρ d (realMeaning ρ d) := fun _ => rfl

omit [Scalar.Exact K] in
theorem number_eq {c : K} (h : Reads ρ (number c) w) : c = w := h trivial

theorem opposite (h : Reads ρ d w) : Reads ρ (opposite d) (-w) := fun hq => by
  rw [realMeaning_opposite, h (hasQuotients_negated.1 hq)]

theorem plus (h : Reads ρ d w) (h' : Reads ρ d' w') : Reads ρ (plus d d') (w + w') := fun hq => by
  obtain ⟨hd, hd'⟩ | habsorbs := hasQuotients_of_simplifyReal .add (by simp) hq
  · rw [realMeaning_plus, h hd, h' hd']
  · simp [Absorbs] at habsorbs

theorem minus (h : Reads ρ d w) (h' : Reads ρ d' w') : Reads ρ (minus d d') (w - w') := fun hq => by
  obtain ⟨hd, hd'⟩ | habsorbs := hasQuotients_of_simplifyReal .sub (by simp) hq
  · rw [realMeaning_minus, h hd, h' hd']
  · simp [Absorbs] at habsorbs

theorem quotient (h : Reads ρ d w) (h' : Reads ρ d' w') : Reads ρ (quotient d d') (w / w') :=
  fun hq => by
  obtain ⟨hd, hd'⟩ | habsorbs := hasQuotients_of_simplifyReal .div (by simp) hq
  · rw [realMeaning_quotient, h hd, h' hd']
  · simp [Absorbs] at habsorbs

/-- A factor that was dropped does not count. -/
theorem times (h : Reads ρ d w) (h' : Reads ρ d' w') : Reads ρ (times d d') (w * w') := fun hq => by
  have hzero {c : Expr K} {u : K} (hc : Reads ρ c u) (heq : c.simplifyReal = number zero) :
      realMeaning ρ c = zero ∧ u = zero := by
    have hmeaning : realMeaning ρ c = zero := realMeaning_of_simplifyReal heq
    exact ⟨hmeaning, (hc (heq ▸ trivial)).symm.trans hmeaning⟩
  rw [realMeaning_times]
  obtain ⟨hd, hd'⟩ | habsorbs := hasQuotients_of_simplifyReal .mul (by simp) hq
  · rw [h hd, h' hd']
  · obtain heq | heq : d.simplifyReal = number zero ∨ d'.simplifyReal = number zero := by
      simpa [Absorbs] using habsorbs
    · obtain ⟨hd, hw⟩ := hzero h heq
      rw [hd, hw, Scalar.zero_mul_eq, Scalar.zero_mul_eq]
    · obtain ⟨hd, hw⟩ := hzero h' heq
      rw [hd, hw, Scalar.mul_zero_eq, Scalar.mul_zero_eq]

end Reads

/-! ## Slopes -/

/-- The derivative of the tree, if it has one, reads this number. -/
def HasSlope (ρ : Valuation K) (x : String) (e : Expr K) (w : K) : Prop :=
  ∀ d, derivative x e = .ok d → Reads ρ d w

namespace HasSlope

variable {du dv : K}

omit [Scalar.Exact K] in
/-- The slope of a constant. -/
theorem constant (h : e.hasVariable x = false) : HasSlope ρ x e zero := by
  intro d hd
  rw [derivative_of_not_hasVariable h] at hd
  cases hd
  exact Reads.self

omit [Scalar.Exact K] in
/-- A constant has no other slope. -/
theorem eq_zero (h : HasSlope ρ x e w) (hx : e.hasVariable x = false) : w = zero :=
  ((h _ (derivative_of_not_hasVariable hx)).number_eq).symm

omit [Scalar.Exact K] in
/-- A literal. -/
theorem literal (h : (literal? e).isSome = true) : HasSlope ρ x e zero :=
  constant (hasVariable_of_literal? h)

omit [Scalar.Exact K] in
/-- A literal has no other slope. -/
theorem eq_zero_of_literal (h : HasSlope ρ x e w) (he : (literal? e).isSome = true) : w = zero :=
  h.eq_zero (hasVariable_of_literal? he)

/-- A sign. -/
theorem minus (h : HasSlope ρ x a w) : HasSlope ρ x (unary .minus a) (-w) := by
  cases hx : (unary .minus a).hasVariable x with
  | false =>
    rw [h.eq_zero hx, Scalar.neg_zero_eq]
    exact constant hx
  | true =>
    intro d hd
    rw [derivative, hx] at hd
    obtain ⟨da, hda, hd⟩ := Result.bind_ok hd
    cases hd
    exact (h da hda).opposite

/-- A sign that is pulled in. -/
theorem negated (h : HasSlope ρ x a w) : HasSlope ρ x a.negated (-w) := by
  unfold Expr.negated
  split
  · next b =>
    cases hx : (unary .minus b).hasVariable x with
    | false =>
      rw [h.eq_zero hx, Scalar.neg_zero_eq]
      exact constant hx
    | true =>
      intro d hd hq
      have hopposite : derivative x (unary .minus b) = .ok (opposite d) := by
        rw [derivative, hx, hd]
        rfl
      have hread := h _ hopposite (hasQuotients_negated.2 hq)
      rw [realMeaning_opposite] at hread
      rw [← hread, Scalar.neg_neg_eq]
  · next c =>
    rw [h.eq_zero_of_literal rfl, Scalar.neg_zero_eq]
    exact literal rfl
  · exact h.minus

/-! The rules for sums, differences, products and quotients differ in the number they make of the
meanings and the slopes of the operands. -/

/-- The slope of an arithmetic operator from the meanings and the slopes of its operands. -/
def arithmetic (op : BinaryOp) (u v du dv : K) : K :=
  match op with
  | .add => du + dv
  | .sub => du - dv
  | .mul => du * v + u * dv
  | .div => (du * v - u * dv) / Value.realOperation .pow v (Scalar.ofInt 2)
  | _ => zero

/-- Operators on constants. -/
theorem arithmetic_zero {op : BinaryOp} {u v : K} : arithmetic op u v zero zero = zero := by
  cases op <;> simp [arithmetic]

/-- The slope of an arithmetic operator. -/
theorem binary {op : BinaryOp} (hop : op ∈ [.add, .sub, .mul, .div]) (ha : HasSlope ρ x a du)
    (hb : HasSlope ρ x b dv) : HasSlope ρ x (binary op a b)
      (arithmetic op (realMeaning ρ a) (realMeaning ρ b) du dv) := by
  simp only [List.mem_cons, List.not_mem_nil, or_false] at hop
  cases hx : (Expr.binary op a b).hasVariable x with
  | false =>
    obtain ⟨hxa, hxb⟩ := Bool.or_eq_false_iff.1 hx
    rw [ha.eq_zero hxa, hb.eq_zero hxb, arithmetic_zero]
    exact constant hx
  | true =>
    intro d hd
    rcases hop with rfl | rfl | rfl | rfl <;>
      rw [derivative, hx] at hd <;>
      obtain ⟨da, hda, hd⟩ := Result.bind_ok hd <;>
      obtain ⟨db, hdb, hd⟩ := Result.bind_ok hd <;>
      cases hd
    · exact (ha da hda).plus (hb db hdb)
    · exact (ha da hda).minus (hb db hdb)
    · exact ((ha da hda).times .self).plus (.times .self (hb db hdb))
    · have hsquare : Reads ρ (square b) (Value.realOperation .pow (realMeaning ρ b)
          (Scalar.ofInt 2)) := fun _ => realMeaning_square
      exact ((((ha da hda).times .self).minus (.times .self (hb db hdb))).quotient hsquare)

/-- The slope of a simplified operator. -/
theorem simplifyBinary {assumed : TypeGuess} {op : BinaryOp} (hop : op ∈ [.add, .sub, .mul, .div])
    (ha : HasSlope ρ x a du) (hb : HasSlope ρ x b dv) :
    HasSlope ρ x (simplifyBinary assumed op a b)
      (arithmetic op (realMeaning ρ a) (realMeaning ρ b) du dv) := by
  generalize hrule : Expr.simplifyBinary assumed op a b = e
  cases simplifyBinary_rule hrule with
  | addZero h | subZero h | mulOne h | divOne h =>
    obtain rfl := eq_of_isLiteral h
    simpa [arithmetic, hb.eq_zero_of_literal rfl] using ha
  | zeroAdd h | oneMul h =>
    obtain rfl := eq_of_isLiteral h
    simpa [arithmetic, ha.eq_zero_of_literal rfl] using hb
  | zeroSub h =>
    obtain rfl := eq_of_isLiteral h
    simpa [arithmetic, ha.eq_zero_of_literal rfl] using hb.negated
  | zeroMul h =>
    obtain rfl := eq_of_isLiteral h
    simpa [arithmetic, ha.eq_zero_of_literal rfl] using literal rfl
  | mulZero h =>
    obtain rfl := eq_of_isLiteral h
    simpa [arithmetic, hb.eq_zero_of_literal rfl] using literal rfl
  | powOne | powZero | onePow => simp at hop
  | fold =>
    obtain heq | ⟨⟨hla, hlb⟩, hliteral⟩ := foldBinary_cases op a b
    · rw [heq]
      exact HasSlope.binary hop ha hb
    · rw [ha.eq_zero_of_literal hla, hb.eq_zero_of_literal hlb, arithmetic_zero]
      exact literal hliteral

/-! ### Powers -/

/-- The slope of a power with a constant exponent. -/
def power (u v du : K) : K := v * Value.realOperation .pow u (v - one) * du

/-- The slope of a power through the logarithm of its base. -/
def exponential (u : Value K) (v du dv : K) : K :=
  Value.realOperation .pow u.real v *
    (dv * ((Value.applyBuiltin .ln [u]).toOption.getD .empty).real + v * du / u.real)

@[simp] theorem power_zero {u v : K} : power u v zero = zero := by simp [power]

/-- A power of a constant. -/
theorem exponential_zero {u : Value K} {v : K} :
    exponential u v zero dv = Value.realOperation .pow u.real v *
      ((Value.applyBuiltin .ln [u]).toOption.getD .empty).real * dv := by
  let := Scalar.commRing (K := K)
  rw [exponential, Scalar.mul_zero_eq, Scalar.zero_div_eq, Scalar.add_zero_eq]
  ring

/-- The slope of a power with a constant exponent. -/
theorem pow_constant (ha : HasSlope ρ x a du) (hb : b.hasVariable x = false) :
    HasSlope ρ x (Expr.binary .pow a b) (power (realMeaning ρ a) (realMeaning ρ b) du) := by
  cases hx : (Expr.binary .pow a b).hasVariable x with
  | false =>
    rw [ha.eq_zero (Bool.or_eq_false_iff.1 hx).1, power_zero]
    exact constant hx
  | true =>
    intro d hd
    obtain ⟨da, db, hda, -, hd⟩ := derivative_pow_ok hx hd
    rw [powerRule, hb] at hd
    cases hd
    have hpow : Reads ρ (Expr.binary .pow a (Expr.minus b (integer 1))) _ :=
      fun _ => realMeaning_pow
    rw [realMeaning_minus] at hpow
    exact (Reads.self.times hpow).times (ha da hda)

omit [Scalar.Exact K] in
/-- The derivative of a power with the variable in its base and in its exponent. -/
theorem derivative_pow (hxa : a.hasVariable x = true) (hxb : b.hasVariable x = true)
    (hd : derivative x (Expr.binary .pow a b) = .ok d) :
    ∃ da db, derivative x a = .ok da ∧ derivative x b = .ok db ∧
      d = times (Expr.binary .pow a b)
        (plus (times db (Expr.builtin .ln [a])) (quotient (times b da) a)) := by
  obtain ⟨da, db, hda, hdb, hd⟩ := derivative_pow_ok (by simp [hasVariable, hxb]) hd
  rw [powerRule, hxb, hxa] at hd
  cases hd
  exact ⟨da, db, hda, hdb, rfl⟩

/-- The slope of a power with a variable exponent. -/
theorem pow_variable (ha : HasSlope ρ x a du) (hb : HasSlope ρ x b dv)
    (hxb : b.hasVariable x = true) : HasSlope ρ x (Expr.binary .pow a b)
      (exponential (meaning ρ a) (realMeaning ρ b) du dv) := by
  have hpow : Reads ρ (Expr.binary .pow a b) _ := fun _ => realMeaning_pow
  have hln : Reads ρ (Expr.builtin .ln [a]) _ := .self
  intro d hd
  cases hxa : a.hasVariable x with
  | false =>
    obtain ⟨da, db, hda, hdb, hd⟩ := derivative_pow_ok (by simp [hasVariable, hxb]) hd
    rw [powerRule, hxb, hxa] at hd
    cases hd
    rw [ha.eq_zero hxa, exponential_zero]
    exact (hpow.times hln).times (hb db hdb)
  | true =>
    obtain ⟨da, db, hda, hdb, rfl⟩ := derivative_pow hxa hxb hd
    exact hpow.times (((hb db hdb).times hln).plus ((Reads.self.times (ha da hda)).quotient .self))

end HasSlope

/-! ## The denominator in the derivative of a power -/

/-- Where the simplified tree is defined, the other tree is not zero, unless it is a literal. -/
structure Guards (ρ : Valuation K) (d u : Expr K) : Prop where
  literal : (literal? d.simplifyReal).isSome = true → (literal? u.simplifyReal).isSome = true
  nonzero : d.simplifyReal.HasQuotients ρ →
    realMeaning ρ u ≠ zero ∨ (literal? u.simplifyReal).isSome = true

namespace Guards

variable {c u v : Expr K}

/-- A quotient guards its denominator. -/
theorem quotient : Guards ρ (quotient c u) u where
  literal h := by
    rw [Expr.quotient, simplifyReal, simplifyWith] at h
    generalize hrule : simplifyBinary _ .div (c.simplifyWith _) (u.simplifyWith _) = e at h
    cases simplifyBinary_rule hrule with
    | divOne hone =>
      rw [simplifyReal, eq_of_isLiteral hone]
      rfl
    | fold => exact (literal_of_foldBinary h).2
  nonzero h := by
    rw [Expr.quotient, simplifyReal, simplifyWith] at h
    generalize hrule : simplifyBinary _ .div (c.simplifyWith _) (u.simplifyWith _) = e at h
    cases simplifyBinary_rule hrule with
    | divOne hone =>
      right
      rw [simplifyReal, eq_of_isLiteral hone]
      rfl
    | fold =>
      obtain heq | ⟨⟨-, hu⟩, -⟩ := foldBinary_cases .div
        (c.simplifyWith (some .number)) (u.simplifyWith (some .number))
      · rw [heq] at h
        left
        rw [← realMeaning_simplifyWith (some .number) u]
        exact h.2.2
      · exact .inr hu

/-- So does a sum with it. -/
theorem plus (h : Guards ρ d u) : Guards ρ (plus c d) u where
  literal hl := by
    refine h.literal ?_
    rw [Expr.plus, simplifyReal, simplifyWith] at hl
    generalize hrule : simplifyBinary _ .add (c.simplifyWith _) (d.simplifyWith _) = e at hl
    cases simplifyBinary_rule hrule with
    | addZero hzero =>
      rw [simplifyReal, eq_of_isLiteral hzero]
      rfl
    | zeroAdd => exact hl
    | fold => exact (literal_of_foldBinary hl).2
  nonzero hq := by
    obtain ⟨-, hd⟩ | habsorbs := hasQuotients_of_simplifyReal .add (by simp) hq
    · exact h.nonzero hd
    · simp [Absorbs] at habsorbs

/-- So does a product with a factor that is not zero. -/
theorem times (h : Guards ρ d u)
    (hc : c.simplifyReal = number zero → (literal? u.simplifyReal).isSome = true)
    (hq : (times c d).simplifyReal.HasQuotients ρ) :
    realMeaning ρ u ≠ zero ∨ (literal? u.simplifyReal).isSome = true := by
  obtain ⟨-, hd⟩ | habsorbs := hasQuotients_of_simplifyReal .mul (by simp) hq
  · exact h.nonzero hd
  · obtain heq | heq : c.simplifyReal = number zero ∨ d.simplifyReal = number zero := by
      simpa [Absorbs] using habsorbs
    · exact .inr (hc heq)
    · exact .inr (h.literal (by rw [heq]; rfl))

end Guards

/-- A power that simplifies to zero has a literal base. -/
theorem literal_of_pow_eq_zero (h : (binary .pow a b).simplifyReal = number zero) :
    (literal? a.simplifyReal).isSome = true := by
  rw [simplifyReal, simplifyWith] at h
  generalize hrule : simplifyBinary _ .pow (a.simplifyWith _) (b.simplifyWith _) = e at h
  cases simplifyBinary_rule hrule with
  | powOne =>
    rw [simplifyReal, h]
    rfl
  | powZero | onePow => exact absurd (Expr.number.inj h) Scalar.Exact.one_ne_zero
  | fold => exact (literal_of_foldBinary (congrArg (fun e => (literal? e).isSome) h)).1

end

end Formula.Expr

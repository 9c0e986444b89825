import Mathlib.Algebra.DualNumber
import Mathlib.Algebra.Order.Archimedean.Real.Basic
import Mathlib.RingTheory.Localization.FractionRing
import Mathlib.RingTheory.PowerSeries.Exp
import Mathlib.RingTheory.PowerSeries.Inverse

/-!
# Quotients of formal power series

A field with a derivation in which a variable, negative powers and an exponential live together: the
quotients of formal power series. A derivation of a domain extends to its fractions, because an
element and its derivative together are a homomorphism into the dual numbers, and that extends to
fractions. The exponential of a series without a constant term is a series again, and obeys the
chain rule.
-/

namespace Formula

/-! ## Derivations of fractions -/

section Fractions

open TrivSqZeroExt

variable {R A F : Type} [CommRing R] [CommRing A] [Algebra R A] [Field F] [Algebra A F]
  (D : Derivation R A A)

/-- An element with its derivative, as a dual number. -/
def withDerivative : A →+* DualNumber F where
  toFun a := (algebraMap A F a, algebraMap A F (D a))
  map_one' := ext (map_one _) <| by
    show algebraMap A F (D 1) = 0
    simp
  map_zero' := ext (map_zero _) <| by
    show algebraMap A F (D 0) = 0
    simp
  map_add' a b := ext (map_add _ a b) <| by
    show algebraMap A F (D (a + b)) = algebraMap A F (D a) + algebraMap A F (D b)
    simp
  map_mul' a b := ext (map_mul _ a b) <| by
    show algebraMap A F (D (a * b)) = algebraMap A F a * algebraMap A F (D b) +
      algebraMap A F (D a) * algebraMap A F b
    simp [mul_comm]

theorem fst_withDerivative (a : A) : (withDerivative (F := F) D a).fst = algebraMap A F a := rfl

theorem snd_withDerivative (a : A) :
    (withDerivative (F := F) D a).snd = algebraMap A F (D a) := rfl

variable [IsDomain A] [IsFractionRing A F]

/-- A fraction with its derivative. -/
noncomputable def fractionWithDerivative : F →+* DualNumber F :=
  IsLocalization.lift (M := nonZeroDivisors A) (g := withDerivative (F := F) D) fun a => by
    rw [isUnit_iff_isUnit_fst, fst_withDerivative, isUnit_iff_ne_zero]
    exact IsFractionRing.to_map_ne_zero_of_mem_nonZeroDivisors a.2

theorem fractionWithDerivative_algebraMap (a : A) :
    fractionWithDerivative D (algebraMap A F a) = withDerivative D a :=
  IsLocalization.lift_eq _ a

theorem fst_fractionWithDerivative (u : F) : (fractionWithDerivative D u).fst = u := by
  have hid : (fstHom ℤ F F : DualNumber F →+* F).comp (fractionWithDerivative D) =
      RingHom.id F := by
    refine IsLocalization.ringHom_ext (nonZeroDivisors A) (RingHom.ext fun a => ?_)
    simp [fractionWithDerivative_algebraMap, fst_withDerivative]
  exact congrArg (· u) hid

/-- **A derivation extends to fractions.** -/
noncomputable def fractionDerivation : Derivation ℤ F F :=
  Derivation.mk'
    (AddMonoidHom.toIntLinearMap
      ⟨⟨fun u => (fractionWithDerivative D u).snd, by simp⟩, fun u v => by simp⟩)
    fun u v => by simp [fst_fractionWithDerivative, mul_comm]

theorem fractionDerivation_algebraMap (a : A) :
    fractionDerivation D (algebraMap A F a) = algebraMap A F (D a) := by
  show (fractionWithDerivative D (algebraMap A F a)).snd = algebraMap A F (D a)
  rw [fractionWithDerivative_algebraMap, snd_withDerivative]

end Fractions

/-! ## Power series -/

open PowerSeries

/-- The quotients of formal power series. -/
def SeriesFraction : Type := FractionRing (PowerSeries ℝ)

noncomputable instance : Field SeriesFraction :=
  inferInstanceAs (Field (FractionRing (PowerSeries ℝ)))

noncomputable instance : Algebra (PowerSeries ℝ) SeriesFraction :=
  inferInstanceAs (Algebra (PowerSeries ℝ) (FractionRing (PowerSeries ℝ)))

instance : IsFractionRing (PowerSeries ℝ) SeriesFraction :=
  inferInstanceAs (IsFractionRing (PowerSeries ℝ) (FractionRing (PowerSeries ℝ)))

namespace SeriesFraction

/-- A power series. -/
noncomputable def ofSeries : PowerSeries ℝ →+* SeriesFraction := algebraMap _ _

/-- The variable is not zero. -/
theorem ofSeries_X_ne_zero : ofSeries X ≠ 0 :=
  (map_ne_zero_iff ofSeries (IsFractionRing.injective _ _)).2 X_ne_zero

/-- The derivation by the variable. -/
noncomputable def derivation : Derivation ℤ SeriesFraction SeriesFraction :=
  fractionDerivation (PowerSeries.derivative ℝ)

theorem derivation_ofSeries (f : PowerSeries ℝ) :
    derivation (ofSeries f) = ofSeries (PowerSeries.derivative ℝ f) :=
  fractionDerivation_algebraMap _ f

open Classical in
/-- The exponential of a power series without a constant term. -/
noncomputable def exp? (u : SeriesFraction) : Option SeriesFraction :=
  if h : ∃ f, constantCoeff f = 0 ∧ ofSeries f = u then
    some (ofSeries ((PowerSeries.exp ℝ).subst h.choose))
  else none

theorem exp?_eq_some {u v : SeriesFraction} (hv : exp? u = some v) :
    ∃ f, constantCoeff f = 0 ∧ ofSeries f = u ∧ ofSeries ((PowerSeries.exp ℝ).subst f) = v := by
  unfold exp? at hv
  split at hv
  · next h => exact ⟨h.choose, h.choose_spec.1, h.choose_spec.2, Option.some.inj hv⟩
  · cases hv

/-- The exponential obeys the chain rule. -/
theorem derivation_exp {u v : SeriesFraction} (hv : exp? u = some v) :
    derivation v = v * derivation u := by
  obtain ⟨f, hf, rfl, rfl⟩ := exp?_eq_some hv
  have hsubst : HasSubst f := .of_constantCoeff_zero' hf
  rw [derivation_ofSeries, derivation_ofSeries, derivative_subst hsubst, derivative_exp, map_mul]

/-- A series without a constant term has an exponential. -/
theorem exp?_isSome {f : PowerSeries ℝ} (hf : constantCoeff f = 0) :
    (exp? (ofSeries f)).isSome = true := by
  rw [exp?, dif_pos ⟨f, hf, rfl⟩]
  rfl

end SeriesFraction

end Formula

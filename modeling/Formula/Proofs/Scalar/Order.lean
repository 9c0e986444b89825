import Formula.Binary64.Scalar

/-!
# The order of numbers

The operations of `Scalar` come without laws. The one law about their order that a prediction
without evaluation relies on is stated here as a class, and double precision numbers satisfy it.
-/

namespace Formula

/-- A number that is at least another is not below it. -/
class Scalar.LawfulOrder (K : Type) [Scalar K] : Prop where
  not_lt_of_le {a b : K} : Scalar.le a b = true → Scalar.lt b a = false

/-- Double precision numbers are ordered by their ordinals; the undefined ones by nothing. -/
instance : Scalar.LawfulOrder Binary64 where
  not_lt_of_le {a b} h := by
    simp only [Scalar.le, Scalar.lt, Scalar.eq, Binary64.lt, Binary64.eq, Bool.or_eq_true,
      Bool.and_eq_true, Bool.not_eq_true', decide_eq_true_eq] at h
    simp only [Scalar.lt, Binary64.lt, Bool.and_eq_false_iff, decide_eq_false_iff_not]
    omega

end Formula

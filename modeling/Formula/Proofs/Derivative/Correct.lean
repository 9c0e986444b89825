import Mathlib.RingTheory.Derivation.Basic
import Mathlib.Tactic.FieldSimp
import Mathlib.Tactic.Ring
import Formula.Proofs.Denotation
import Formula.Proofs.Derivative
import Formula.Proofs.Derivative.Series
import Formula.Proofs.Expr
import Formula.Proofs.Scalar.Real

/-!
# Derivatives denote derivatives

A derivation of a field reads "the derivative by `x`" without limits: it is additive, obeys the
product rule, and is one at `x` and zero at numbers and other variables. Where functions obey their
chain rules, the derivative of a tree denotes the derivation of what the tree denotes, wherever both
denote something.

The derivative of a tree without `x` is zero, whatever the tree is, so the induction needs that such
a tree denotes a constant (`derivation_denote_of_not_hasVariable`).
-/

namespace Formula

open Scalar

variable {K F : Type} [Scalar K] [Field F]

/-- The derivation acts on numbers, variables and functions as a derivative by `x` does. -/
structure Reading.Differentiates (ρ : Reading K F) (D : Derivation ℤ F F) (x : String) : Prop where
  integers : ρ.ReadsIntegers
  toInt?_ofInt (n : ℤ) : n ∈ [0, 1, 2] → toInt? (ofInt n : K) = some n
  number (a : K) : D (ρ.number a) = 0
  var_self : D (ρ.var x) = 1
  var {y : String} : y ≠ x → D (ρ.var y) = 0
  sin {u v : F} : ρ.apply .sin u = some v → ∃ w, ρ.apply .cos u = some w ∧ D v = w * D u
  cos {u v : F} : ρ.apply .cos u = some v → ∃ w, ρ.apply .sin u = some w ∧ D v = -w * D u
  exp {u v : F} : ρ.apply .exp u = some v → D v = v * D u
  ln {u v : F} : ρ.apply .ln u = some v → D v = D u / u
  sqrt {u v : F} : ρ.apply .sqrt u = some v → D v = D u / (2 * v)

/-- A function of a constant. -/
theorem Reading.Differentiates.apply_constant {ρ : Reading K F} {D : Derivation ℤ F F}
    {x : String} (h : ρ.Differentiates D x) {f : Builtin} {u v : F}
    (hf : f ∈ [.sin, .cos, .exp, .ln, .sqrt])
    (hv : ρ.apply f u = some v) (hu : D u = 0) : D v = 0 := by
  simp only [List.mem_cons, List.not_mem_nil, or_false] at hf
  rcases hf with rfl | rfl | rfl | rfl | rfl
  · obtain ⟨w, -, hw⟩ := h.sin hv
    rw [hw, hu, mul_zero]
  · obtain ⟨w, -, hw⟩ := h.cos hv
    rw [hw, hu, mul_zero]
  · rw [h.exp hv, hu, mul_zero]
  · rw [h.ln hv, hu, zero_div]
  · rw [h.sqrt hv, hu, zero_div]

/-! ## A reading by power series -/

open SeriesFraction in
/-- Numbers and one variable as power series, with the exponential as the only function. -/
noncomputable def Reading.series (x : String) : Reading ℝ SeriesFraction where
  number a := ofSeries (PowerSeries.C a)
  var y := if y = x then ofSeries PowerSeries.X else 0
  apply
    | .exp => exp?
    | _ => fun _ => none

/-- The derivation of power series is a derivative by the variable. -/
theorem Reading.series_differentiates (x : String) :
    (Reading.series x).Differentiates SeriesFraction.derivation x where
  integers a n hn := by
    rw [← Exact.ofInt_of_toInt? hn]
    show SeriesFraction.ofSeries (PowerSeries.C (n : ℝ)) = n
    simp
  toInt?_ofInt n _ := Exact.toInt?_ofInt n
  number a := by
    show SeriesFraction.derivation (SeriesFraction.ofSeries _) = 0
    simp [SeriesFraction.derivation_ofSeries]
  var_self := by
    simp [Reading.series, SeriesFraction.derivation_ofSeries]
  var hy := by simp [Reading.series, hy]
  sin h := by cases h
  cos h := by cases h
  exp h := SeriesFraction.derivation_exp h
  ln h := by cases h
  sqrt h := by cases h

namespace Expr

/-- An integer literal, perhaps with a sign in front. -/
def isIntegerLiteral : Expr K → Bool
  | number a | unary .minus (number a) => (toInt? a).isSome
  | _ => false

/-- Built from numbers, variables, signs, arithmetic, powers with an integer literal for their
exponent, and the functions whose chain rules `Reading.Differentiates` states. -/
inductive IsElementary : Expr K → Prop
  | number (value : K) : IsElementary (number value)
  | var (y : String) : IsElementary (var y)
  | minus {a : Expr K} : IsElementary a → IsElementary (unary .minus a)
  | arithmetic {op : BinaryOp} {a b : Expr K} : op ∈ [.add, .sub, .mul, .div] → IsElementary a →
    IsElementary b → IsElementary (binary op a b)
  | pow {a b : Expr K} : IsElementary a → isIntegerLiteral b = true → IsElementary (binary .pow a b)
  | builtin {f : Builtin} {a : Expr K} : f ∈ [.sin, .cos, .exp, .ln, .sqrt] → IsElementary a →
    IsElementary (builtin f [a])

variable {ρ : Reading K F} {D : Derivation ℤ F F} {x : String} {a b d da db e t : Expr K}
  {f : Builtin} {u v w : F} {n : ℤ}

omit [Field F] in
/-- An integer literal writes an integer and mentions no variable. -/
theorem integer?_of_isIntegerLiteral (h : b.isIntegerLiteral = true) :
    (∃ n, integer? b = some n) ∧ b.hasVariable x = false := by
  unfold isIntegerLiteral at h
  split at h
  · exact ⟨Option.isSome_iff_exists.1 h, rfl⟩
  · obtain ⟨n, hn⟩ := Option.isSome_iff_exists.1 h
    exact ⟨⟨-n, integer?_minus.2 ⟨n, hn, rfl⟩⟩, rfl⟩
  · cases h

/-! ## The rules

`Derives` leaves open whether the trees denote anything, so each rule takes apart what the derived
tree denotes. -/

/-- Where both denote something, the second tree denotes the derivative of what the first one
denotes. -/
def Derives (ρ : Reading K F) (D : Derivation ℤ F F) (e d : Expr K) : Prop :=
  ∀ ⦃u v⦄, denote ρ e = some u → denote ρ d = some v → v = D u

namespace Derives

/-- The derivative of a negative. -/
theorem opposite (ha : Derives ρ D a da) : Derives ρ D (unary .minus a) (opposite da) := by
  intro u v hu hv
  obtain ⟨ua, hua, rfl⟩ := denote_minus.1 hu
  obtain ⟨va, hva, rfl⟩ := denote_minus.1 hv
  rw [ha hua hva, map_neg]

/-- The derivative of a sum. -/
theorem plus (ha : Derives ρ D a da) (hb : Derives ρ D b db) :
    Derives ρ D (binary .add a b) (plus da db) := by
  intro u v hu hv
  obtain ⟨ua, ub, hua, hub, rfl⟩ := denote_add.1 hu
  obtain ⟨va, vb, hva, hvb, rfl⟩ := denote_add.1 hv
  rw [ha hua hva, hb hub hvb, map_add]

/-- The derivative of a difference. -/
theorem minus (ha : Derives ρ D a da) (hb : Derives ρ D b db) :
    Derives ρ D (binary .sub a b) (minus da db) := by
  intro u v hu hv
  obtain ⟨ua, ub, hua, hub, rfl⟩ := denote_sub.1 hu
  obtain ⟨va, vb, hva, hvb, rfl⟩ := denote_sub.1 hv
  rw [ha hua hva, hb hub hvb, map_sub]

/-- The derivative of a product. -/
theorem product (ha : Derives ρ D a da) (hb : Derives ρ D b db) :
    Derives ρ D (binary .mul a b) (Expr.plus (times da b) (times a db)) := by
  intro u v hu hv
  obtain ⟨ua, ub, hua, hub, rfl⟩ := denote_mul.1 hu
  obtain ⟨_, _, hl, hr, rfl⟩ := denote_add.1 hv
  obtain ⟨va, _, hva, hub', rfl⟩ := denote_mul.1 hl
  obtain ⟨_, vb, hua', hvb, rfl⟩ := denote_mul.1 hr
  cases hua.symm.trans hua'
  cases hub.symm.trans hub'
  rw [ha hua hva, hb hub hvb, D.leibniz, smul_eq_mul, smul_eq_mul]
  ring

end Derives

/-- An operator on constants. -/
theorem derivation_combine? {op : BinaryOp} (hw : combine? op u v = some w) (hu : D u = 0)
    (hv : D v = 0) : D w = 0 := by
  cases op with
  | add =>
    cases hw
    rw [map_add, hu, hv, add_zero]
  | sub =>
    cases hw
    rw [map_sub, hu, hv, sub_zero]
  | mul =>
    cases hw
    rw [D.leibniz, hu, hv, smul_zero, smul_zero, add_zero]
  | div =>
    obtain ⟨-, rfl⟩ : v ≠ 0 ∧ u / v = w := by simpa [combine?, ite_eq_iff] using hw
    rw [D.leibniz_div_const u v hv, hu, smul_zero]
  | _ => cases hw

section

variable (h : ρ.Differentiates D x)

include h

namespace Derives

/-- The derivative of a quotient. -/
theorem quotient (ha : Derives ρ D a da) (hb : Derives ρ D b db) :
    Derives ρ D (binary .div a b)
      (Expr.quotient (Expr.minus (times da b) (times a db)) (square b)) := by
  intro u v hu hv
  obtain ⟨ua, ub, hua, hub, hzero, rfl⟩ := denote_div.1 hu
  obtain ⟨_, _, hnumerator, hsquare, -, rfl⟩ := denote_div.1 hv
  obtain ⟨_, _, hl, hr, rfl⟩ := denote_sub.1 hnumerator
  obtain ⟨va, _, hva, hub₁, rfl⟩ := denote_mul.1 hl
  obtain ⟨_, vb, hua', hvb, rfl⟩ := denote_mul.1 hr
  obtain ⟨_, n, hub₂, hn, -, rfl⟩ := denote_pow.1 hsquare
  cases hua.symm.trans hua'
  cases hub.symm.trans hub₁
  cases hub.symm.trans hub₂
  cases (h.toInt?_ofInt 2 (by simp)).symm.trans hn
  rw [ha hua hva, hb hub hvb, D.leibniz_div]
  simp only [smul_eq_mul]
  field_simp

/-- The derivative of an integer power. -/
theorem power (ha : Derives ρ D a da) (hn : integer? b = some n) :
    Derives ρ D (binary .pow a b)
      (times (times b (binary .pow a (Expr.minus b (integer 1)))) da) := by
  intro u v hu hv
  obtain ⟨ua, m, hua, hm, -, rfl⟩ := denote_pow.1 hu
  obtain ⟨_, va, hleft, hva, rfl⟩ := denote_mul.1 hv
  obtain ⟨_, _, hb, hpow, rfl⟩ := denote_mul.1 hleft
  obtain ⟨_, k, hua', hk, -, rfl⟩ := denote_pow.1 hpow
  obtain ⟨_, l, hm', hl, rfl⟩ := integer?_sub.1 hk
  cases hua.symm.trans hua'
  cases hn.symm.trans hm
  cases hn.symm.trans hm'
  cases (h.toInt?_ofInt 1 (by simp)).symm.trans hl
  cases hb.symm.trans (denote_of_integer? h.integers hn)
  rw [ha hua hva, D.leibniz_zpow, smul_eq_mul, zsmul_eq_mul, mul_assoc]

/-- The derivative of a sine. -/
theorem sin (ha : Derives ρ D a da) :
    Derives ρ D (builtin .sin [a]) (times da (builtin .cos [a])) := by
  intro u v hu hv
  obtain ⟨-, ua, hua, hu⟩ := denote_builtin.1 hu
  obtain ⟨va, vcos, hva, hcos, rfl⟩ := denote_mul.1 hv
  obtain ⟨-, _, hua', hcos⟩ := denote_builtin.1 hcos
  cases hua.symm.trans hua'
  obtain ⟨w, hw, hD⟩ := h.sin hu
  cases hw.symm.trans hcos
  rw [ha hua hva, hD, mul_comm]

/-- The derivative of a cosine. -/
theorem cos (ha : Derives ρ D a da) :
    Derives ρ D (builtin .cos [a]) (Expr.opposite (times da (builtin .sin [a]))) := by
  intro u v hu hv
  obtain ⟨-, ua, hua, hu⟩ := denote_builtin.1 hu
  obtain ⟨_, hproduct, rfl⟩ := denote_minus.1 hv
  obtain ⟨va, vsin, hva, hsin, rfl⟩ := denote_mul.1 hproduct
  obtain ⟨-, _, hua', hsin⟩ := denote_builtin.1 hsin
  cases hua.symm.trans hua'
  obtain ⟨w, hw, hD⟩ := h.cos hu
  cases hw.symm.trans hsin
  rw [ha hua hva, hD, neg_mul, mul_comm]

/-- The derivative of an exponential. -/
theorem exp (ha : Derives ρ D a da) :
    Derives ρ D (builtin .exp [a]) (times da (builtin .exp [a])) := by
  intro u v hu hv
  obtain ⟨va, _, hva, hu', rfl⟩ := denote_mul.1 hv
  cases hu.symm.trans hu'
  obtain ⟨-, ua, hua, hu⟩ := denote_builtin.1 hu
  rw [ha hua hva, h.exp hu, mul_comm]

/-- The derivative of a natural logarithm. -/
theorem ln (ha : Derives ρ D a da) : Derives ρ D (builtin .ln [a]) (Expr.quotient da a) := by
  intro u v hu hv
  obtain ⟨-, ua, hua, hu⟩ := denote_builtin.1 hu
  obtain ⟨va, _, hva, hua', -, rfl⟩ := denote_div.1 hv
  cases hua.symm.trans hua'
  rw [ha hua hva, h.ln hu]

/-- The derivative of a square root. -/
theorem sqrt (ha : Derives ρ D a da) :
    Derives ρ D (builtin .sqrt [a]) (Expr.quotient da (times (integer 2) (builtin .sqrt [a]))) := by
  intro u v hu hv
  obtain ⟨va, _, hva, hproduct, -, rfl⟩ := denote_div.1 hv
  obtain ⟨_, _, htwo, hu', rfl⟩ := denote_mul.1 hproduct
  cases hu.symm.trans hu'
  cases htwo.symm.trans (denote_of_integer? h.integers (h.toInt?_ofInt 2 (by simp)))
  obtain ⟨-, ua, hua, hu⟩ := denote_builtin.1 hu
  rw [ha hua hva, h.sqrt hu, Int.cast_two]

/-- The chain rule. -/
theorem chainRule (hf : f ∈ [.sin, .cos, .exp, .ln, .sqrt]) (ha : Derives ρ D a da) :
    ∃ d, Expr.chainRule f a da none = .ok d ∧ Derives ρ D (builtin f [a]) d := by
  simp only [List.mem_cons, List.not_mem_nil, or_false] at hf
  rcases hf with rfl | rfl | rfl | rfl | rfl
  · exact ⟨_, rfl, ha.sin h⟩
  · exact ⟨_, rfl, ha.cos h⟩
  · exact ⟨_, rfl, ha.exp h⟩
  · exact ⟨_, rfl, ha.ln h⟩
  · exact ⟨_, rfl, ha.sqrt h⟩

end Derives

/-! ## Constants -/

/-- **A tree that does not mention the variable denotes a constant.** -/
theorem derivation_denote_of_not_hasVariable (ht : t.IsElementary) (hx : t.hasVariable x = false)
    (hu : denote ρ t = some u) : D u = 0 := by
  induction ht generalizing u with
  | number value =>
    cases hu
    exact h.number value
  | var y =>
    cases hu
    exact h.var (by simpa [hasVariable] using hx)
  | minus _ ih =>
    obtain ⟨v, hv, rfl⟩ := denote_minus.1 hu
    rw [map_neg, ih hx hv, neg_zero]
  | arithmetic hop _ _ iha ihb =>
    obtain ⟨hxa, hxb⟩ := Bool.or_eq_false_iff.1 hx
    obtain ⟨v, w, hv, hw, hu⟩ := (denote_binary (by rintro rfl; simp at hop)).1 hu
    exact derivation_combine? hu (iha hxa hv) (ihb hxb hw)
  | pow _ _ ih =>
    obtain ⟨v, n, hv, -, -, rfl⟩ := denote_pow.1 hu
    rw [D.leibniz_zpow, ih (Bool.or_eq_false_iff.1 hx).1 hv, smul_zero, smul_zero]
  | builtin hf _ ih =>
    obtain ⟨-, v, hv, hw⟩ := denote_builtin.1 hu
    exact h.apply_constant hf hw (ih (Bool.or_eq_false_iff.1 hx).1 hv)

/-- A tree that does not mention the variable has the derivative zero. -/
theorem derives_zero (ht : t.IsElementary) (hx : t.hasVariable x = false) :
    Derives ρ D t (integer 0) := by
  intro u v hu hv
  cases hv.symm.trans (denote_of_integer? h.integers (h.toInt?_ofInt 0 (by simp)))
  rw [derivation_denote_of_not_hasVariable h ht hx hu, Int.cast_zero]

/-- A derivative need only be found where the variable is mentioned. -/
theorem exists_derives_of_hasVariable (ht : t.IsElementary)
    (hd : t.hasVariable x = true → ∃ d, derivative x t = .ok d ∧ Derives ρ D t d) :
    ∃ d, derivative x t = .ok d ∧ Derives ρ D t d := by
  cases hx : t.hasVariable x with
  | true => exact hd hx
  | false => exact ⟨integer 0, derivative_of_not_hasVariable hx, derives_zero h ht hx⟩

/-- An elementary tree has a derivative, built by the rules. -/
theorem IsElementary.exists_derives (ht : t.IsElementary) :
    ∃ d, derivative x t = .ok d ∧ Derives ρ D t d := by
  induction ht with
  | number value => exact exists_derives_of_hasVariable h (.number value) nofun
  | var y =>
    refine exists_derives_of_hasVariable h (.var y) fun hx => ?_
    refine ⟨integer 1, by simp [derivative, hx], ?_⟩
    intro u v hu hv
    obtain rfl : y = x := by simpa [hasVariable] using hx
    cases hu
    cases hv.symm.trans (denote_of_integer? h.integers (h.toInt?_ofInt 1 (by simp)))
    rw [h.var_self, Int.cast_one]
  | minus ha ih =>
    obtain ⟨da, hda, hderives⟩ := ih
    refine exists_derives_of_hasVariable h ha.minus fun hx => ?_
    exact ⟨_, by rw [derivative, hx, hda]; rfl, hderives.opposite⟩
  | @arithmetic op a b hop ha hb iha ihb =>
    refine exists_derives_of_hasVariable h (.arithmetic hop ha hb) fun hx => ?_
    obtain ⟨da, hda, iha⟩ := iha
    obtain ⟨db, hdb, ihb⟩ := ihb
    simp only [List.mem_cons, List.not_mem_nil, or_false] at hop
    rcases hop with rfl | rfl | rfl | rfl
    · exact ⟨_, by rw [derivative, hx, hda, hdb]; rfl, iha.plus ihb⟩
    · exact ⟨_, by rw [derivative, hx, hda, hdb]; rfl, iha.minus ihb⟩
    · exact ⟨_, by rw [derivative, hx, hda, hdb]; rfl, iha.product ihb⟩
    · exact ⟨_, by rw [derivative, hx, hda, hdb]; rfl, iha.quotient h ihb⟩
  | @pow a b ha hb ih =>
    obtain ⟨da, hda, ih⟩ := ih
    obtain ⟨⟨n, hn⟩, hxb⟩ := integer?_of_isIntegerLiteral (x := x) hb
    have hdb : derivative x b = .ok (integer 0) := derivative_of_not_hasVariable hxb
    have hrule : powerRule x a b da (integer 0) =
        .ok (times (times b (binary .pow a (Expr.minus b (integer 1)))) da) := by
      rw [powerRule, hxb]
      rfl
    refine exists_derives_of_hasVariable h (.pow ha hb) fun hx => ⟨_, ?_, ih.power h hn⟩
    rw [derivative, hx, hda, hdb]
    exact hrule
  | @builtin f a hf ha ih =>
    obtain ⟨da, hda, ih⟩ := ih
    obtain ⟨d, hd, hderives⟩ := ih.chainRule h hf
    refine exists_derives_of_hasVariable h (.builtin hf ha) fun hx => ⟨d, ?_, hderives⟩
    rw [derivative, hx, hda]
    exact hd

end

/-- **Differentiation is correct**: an elementary tree has a derivative, and where both denote
something the derivative denotes the derivative of what the tree denotes. -/
theorem derivative_denotes (h : ρ.Differentiates D x) (ht : t.IsElementary) :
    ∃ d, derivative x t = .ok d ∧ ∀ u v, denote ρ t = some u → denote ρ d = some v → v = D u :=
  ht.exists_derives h

/-- The derivative of `exp(x) * x ^ -2`, read in the fractions of power series. -/
theorem derivative_denotes_series :
    let t : Expr ℝ := binary .mul (builtin .exp [var "x"])
      (binary .pow (var "x") (unary .minus (integer 2)))
    ∃ d u v, derivative "x" t = .ok d ∧ denote (Reading.series "x") t = some u ∧
      denote (Reading.series "x") d = some v ∧ v = SeriesFraction.derivation u := by
  intro t
  have htwo : integer? (unary .minus (integer 2 : Expr ℝ)) = some (-2) :=
    integer?_minus.2 ⟨2, Exact.toInt?_ofInt 2, rfl⟩
  have hone : integer? (integer 1 : Expr ℝ) = some 1 := Exact.toInt?_ofInt 1
  have ht : t.IsElementary :=
    .arithmetic (by simp) (.builtin (by simp) (.var "x"))
      (.pow (.var "x") (Option.isSome_of_eq_some (Exact.toInt?_ofInt 2)))
  obtain ⟨d, hd, hcorrect⟩ := derivative_denotes (Reading.series_differentiates "x") ht
  have hx : denote (Reading.series "x") (var "x") =
      some (SeriesFraction.ofSeries PowerSeries.X) := by
    simp [Reading.series]
  obtain ⟨e, he⟩ := Option.isSome_iff_exists.1
    (SeriesFraction.exp?_isSome PowerSeries.constantCoeff_X)
  have hexp : denote (Reading.series "x") (builtin .exp [var "x"]) = some e :=
    denote_builtin.2 ⟨rfl, _, hx, he⟩
  have hpow {n : ℤ} {b : Expr ℝ} (hb : integer? b = some n) :=
    denote_pow.2 ⟨_, n, hx, hb, fun h => absurd h SeriesFraction.ofSeries_X_ne_zero, rfl⟩
  have hinteger {n : ℤ} {b : Expr ℝ} (hb : integer? b = some n) :=
    denote_of_integer? (Reading.series_differentiates "x").integers hb
  have hu := denote_mul.2 ⟨_, _, hexp, hpow htwo, rfl⟩
  have hleft := denote_mul.2 ⟨_, _, denote_mul.2 ⟨_, _, hinteger hone, hexp, rfl⟩, hpow htwo, rfl⟩
  have hpower := denote_mul.2 ⟨_, _, denote_mul.2 ⟨_, _, hinteger htwo,
    hpow (integer?_sub.2 ⟨_, _, htwo, hone, rfl⟩), rfl⟩, hinteger hone, rfl⟩
  have hv := denote_add.2 ⟨_, _, hleft, denote_mul.2 ⟨_, _, hexp, hpower, rfl⟩, rfl⟩
  cases hd
  exact ⟨_, _, _, rfl, hu, hv, hcorrect _ _ hu hv⟩

end Expr

end Formula

import Formula.Proofs.Denotation
import Formula.Proofs.Scalar.Real
import Formula.Proofs.Simplify.Pruning
import Formula.Proofs.Typing.Functions

/-!
# Simplification keeps what a tree denotes

Where numbers are read exactly in a field, a simplified tree denotes what the tree denotes, provided
that the tree denotes something. This holds whatever the variables stand for and whatever the
functions of one argument are, as long as they agree with the table on the literals the simplifier
evaluates. Whether the type of a dropped operand is predicted plays no part here: every operand of a
tree that denotes something is a number.

A power is read by the integer in its exponent, so the induction carries along that a simplified
tree writes the integer the tree writes.
-/

namespace Formula

open Formula.Expr Scalar

variable {K F : Type} [Scalar K] [Field F] {ρ : Reading K F}

/-- Numbers are read exactly: arithmetic on numbers is that of the field, and a function of a number
is what the table makes of it. -/
structure Reading.IsExact (ρ : Reading K F) : Prop where
  identical {a b : K} : identical a b = true → a = b
  toInt?_ofInt (n : ℤ) : toInt? (ofInt n : K) = some n
  toInt?_neg {a : K} {n : ℤ} : toInt? a = some n → toInt? (-a) = some (-n)
  toInt?_sub {a b : K} {m n : ℤ} : toInt? a = some m → toInt? b = some n →
    toInt? (a - b) = some (m - n)
  integers : ρ.ReadsIntegers
  number_neg (a : K) : ρ.number (-a) = -ρ.number a
  number_add (a b : K) : ρ.number (a + b) = ρ.number a + ρ.number b
  number_sub (a b : K) : ρ.number (a - b) = ρ.number a - ρ.number b
  number_mul (a b : K) : ρ.number (a * b) = ρ.number a * ρ.number b
  number_div {a b : K} : ρ.number b ≠ 0 → ρ.number (a / b) = ρ.number a / ρ.number b
  number_pow {a b : K} {n : ℤ} : toInt? b = some n → (ρ.number a = 0 → 0 ≤ n) →
    ρ.number (pow a b) = ρ.number a ^ n
  apply_number {f : Builtin} {a b : K} : f.arity.accepts 1 = true →
    Value.applyBuiltin f [.number a] = .ok (.number b) →
      ρ.apply f (ρ.number a) = some (ρ.number b)

/-- The second tree denotes what the first one does and writes the integer the first one writes. -/
structure Reading.Keeps (ρ : Reading K F) (e e' : Expr K) : Prop where
  denote {w : F} : denote ρ e = some w → denote ρ e' = some w
  integer {n : ℤ} : integer? e = some n → integer? e' = some n

namespace Reading

variable {assumed : TypeGuess} {op : BinaryOp} {f : Builtin} {a a' b b' e e' e'' : Expr K}
  {u v w : F} {m n : ℤ}

/-! ## Nodes -/

namespace Keeps

theorem refl (e : Expr K) : ρ.Keeps e e := ⟨id, id⟩

theorem trans (h : ρ.Keeps e e') (h' : ρ.Keeps e' e'') : ρ.Keeps e e'' :=
  ⟨h'.denote ∘ h.denote, h'.integer ∘ h.integer⟩

/-- A tree that denotes nothing may become any other. -/
theorem of_none (hdenote : Expr.denote ρ e = none) (hinteger : integer? e = none) :
    ρ.Keeps e e' :=
  ⟨fun h => by simp [hdenote] at h, fun h => by simp [hinteger] at h⟩

/-- A sign. -/
theorem minus (h : ρ.Keeps a a') : ρ.Keeps (unary .minus a) (unary .minus a') where
  denote hw := by
    obtain ⟨u, hu, hw⟩ := denote_minus.1 hw
    exact denote_minus.2 ⟨u, h.denote hu, hw⟩
  integer hn := by
    obtain ⟨m, hm, hn⟩ := integer?_minus.1 hn
    exact integer?_minus.2 ⟨m, h.integer hm, hn⟩

/-- A binary operator. -/
theorem binary (ha : ρ.Keeps a a') (hb : ρ.Keeps b b') :
    ρ.Keeps (binary op a b) (binary op a' b') where
  denote hw := by
    by_cases hop : op = .pow
    · subst hop
      obtain ⟨u, n, hu, hn, hw⟩ := denote_pow.1 hw
      exact denote_pow.2 ⟨u, n, ha.denote hu, hb.integer hn, hw⟩
    · obtain ⟨u, v, hu, hv, hw⟩ := (denote_binary hop).1 hw
      exact (denote_binary hop).2 ⟨u, v, ha.denote hu, hb.denote hv, hw⟩
  integer hn := by
    cases op with
    | sub =>
      obtain ⟨l, m, hl, hm, hn⟩ := integer?_sub.1 hn
      exact integer?_sub.2 ⟨l, m, ha.integer hl, hb.integer hm, hn⟩
    | _ => cases hn

/-- A function of one argument. -/
theorem builtin (h : ρ.Keeps a a') : ρ.Keeps (builtin f [a]) (builtin f [a']) where
  denote hw := by
    obtain ⟨hone, u, hu, hw⟩ := denote_builtin.1 hw
    exact denote_builtin.2 ⟨hone, u, h.denote hu, hw⟩
  integer hn := by cases hn

end Keeps

/-! ## Literals -/

/-- A number in place of a tree, if it is finite. -/
theorem Keeps.literalOr_number {r : K} (h : ρ.Keeps e (.number r)) :
    ρ.Keeps e (literalOr e (.ok (.number r))) := by
  unfold literalOr
  dsimp only
  split
  · exact h
  · exact .refl e

/-- Only differences write integers. -/
theorem Keeps.of_denote (hop : op ≠ .sub)
    (hw : ∀ {w}, Expr.denote ρ (.binary op a b) = some w → Expr.denote ρ e = some w) :
    ρ.Keeps (.binary op a b) e where
  denote := hw
  integer hn := by cases op <;> first | exact absurd rfl hop | cases hn

/-- An operator with an operand that denotes nothing. -/
theorem Keeps.of_operand_none (ha : Expr.denote ρ a = none ∧ integer? a = none ∨
    Expr.denote ρ b = none ∧ integer? b = none) : ρ.Keeps (.binary op a b) e where
  denote hw := by
    exfalso
    by_cases hop : op = .pow
    · subst hop
      obtain ⟨u, n, hu, hn, -⟩ := denote_pow.1 hw
      simp [hu, hn] at ha
    · obtain ⟨u, v, hu, hv, -⟩ := (denote_binary hop).1 hw
      simp [hu, hv] at ha
  integer hn := by
    cases op with
    | sub =>
      obtain ⟨l, m, hl, hm, -⟩ := integer?_sub.1 hn
      simp [hl, hm] at ha
    | _ => cases hn

namespace IsExact

variable (h : ρ.IsExact)

include h

/-- A tree taken for an integer literal. -/
theorem integer?_of_isLiteral (hl : isLiteral (ofInt n) e = true) : integer? e = some n := by
  cases e with
  | number value =>
    obtain rfl := h.identical hl
    exact h.toInt?_ofInt n
  | _ => cases hl

/-- An operand taken for an integer literal denotes the integer. -/
theorem eq_of_isLiteral (hl : isLiteral (ofInt n) e = true) (hu : denote ρ e = some u) :
    u = n := by
  have hn := denote_of_integer? h.integers (h.integer?_of_isLiteral hl)
  exact Option.some.inj (hu.symm.trans hn)

/-- The number zero. -/
theorem number_zero : ρ.number zero = 0 := by
  rw [zero, h.integers (h.toInt?_ofInt 0), Int.cast_zero]

/-- The number one. -/
theorem number_one : ρ.number one = 1 := by
  rw [one, h.integers (h.toInt?_ofInt 1), Int.cast_one]

/-- An operand taken for zero. -/
theorem eq_zero (hl : isLiteral zero e = true) (hu : denote ρ e = some u) : u = 0 := by
  rw [h.eq_of_isLiteral hl hu, Int.cast_zero]

/-- An operand taken for one. -/
theorem eq_one (hl : isLiteral one e = true) (hu : denote ρ e = some u) : u = 1 := by
  rw [h.eq_of_isLiteral hl hu, Int.cast_one]

/-- An operator on two numbers. -/
theorem foldBinary_number {c d : K} :
    ρ.Keeps (binary op (.number c) (.number d)) (foldBinary op (.number c) (.number d)) := by
  cases op with
  | add =>
    have hsum : ρ.Keeps (binary .add (.number c) (.number d)) (.number (c + d)) := by
      refine .of_denote (by simp) fun hw => ?_
      obtain ⟨_, _, ⟨⟩, ⟨⟩, rfl⟩ := denote_add.1 hw
      rw [denote_number, h.number_add]
    exact hsum.literalOr_number
  | sub =>
    have hdifference : ρ.Keeps (binary .sub (.number c) (.number d)) (.number (c - d)) := by
      constructor
      · intro w hw
        obtain ⟨_, _, ⟨⟩, ⟨⟩, rfl⟩ := denote_sub.1 hw
        rw [denote_number, h.number_sub]
      · intro n hn
        obtain ⟨l, m, hl, hm, rfl⟩ := integer?_sub.1 hn
        exact h.toInt?_sub hl hm
    exact hdifference.literalOr_number
  | mul =>
    have hproduct : ρ.Keeps (binary .mul (.number c) (.number d)) (.number (c * d)) := by
      refine .of_denote (by simp) fun hw => ?_
      obtain ⟨_, _, ⟨⟩, ⟨⟩, rfl⟩ := denote_mul.1 hw
      rw [denote_number, h.number_mul]
    exact hproduct.literalOr_number
  | div =>
    have hquotient : ρ.Keeps (binary .div (.number c) (.number d)) (.number (c / d)) := by
      refine .of_denote (by simp) fun hw => ?_
      obtain ⟨_, _, ⟨⟩, ⟨⟩, hd, rfl⟩ := denote_div.1 hw
      rw [denote_number, h.number_div hd]
    exact hquotient.literalOr_number
  | pow =>
    have hpower : ρ.Keeps (binary .pow (.number c) (.number d)) (.number (pow c d)) := by
      refine .of_denote (by simp) fun hw => ?_
      obtain ⟨_, n, ⟨⟩, hn, hzero, rfl⟩ := denote_pow.1 hw
      rw [denote_number, h.number_pow hn hzero]
    by_cases hreal : Value.leavesReals c d = true
    · have hcomplex : foldBinary .pow (.number c) (.number d) =
          binary .pow (.number c) (.number d) := by
        simp [Expr.foldBinary, literal?, applyDeciding, BinaryOp.decidedBy?, Value.applyBinary,
          Value.arithmetic, Value.arithmeticReal, hreal, literalOr]
      rw [hcomplex]
      exact .refl _
    · have hnumber : foldBinary .pow (.number c) (.number d) =
          literalOr (binary .pow (.number c) (.number d)) (.ok (.number (pow c d))) := by
        simp [Expr.foldBinary, literal?, applyDeciding, BinaryOp.decidedBy?, Value.applyBinary,
          Value.arithmetic, Value.arithmeticReal, hreal, Value.realArithmetic]
      rw [hnumber]
      exact hpower.literalOr_number
  | _ => exact .of_none rfl rfl

/-- An operator evaluated on literals. -/
theorem foldBinary : ρ.Keeps (binary op a b) (foldBinary op a b) := by
  cases a with
  | number =>
    cases b with
    | number => exact h.foldBinary_number
    | bool => exact .of_operand_none (.inr ⟨rfl, rfl⟩)
    | _ => exact .refl _
  | bool => exact .of_operand_none (.inl ⟨rfl, rfl⟩)
  | _ => exact .refl _

/-- A function evaluated on literals. -/
theorem foldBuiltin : ρ.Keeps (builtin f [a]) (foldBuiltin f [a]) := by
  cases a with
  | number c =>
    have hfold : foldBuiltin f [.number c] =
        literalOr (builtin f [.number c]) (Value.applyBuiltin f [.number c]) := rfl
    rw [hfold]
    cases hvalue : Value.applyBuiltin f [.number c] with
    | error => exact .refl _
    | ok value =>
      cases value with
      | number d =>
        refine Keeps.literalOr_number ⟨fun hw => ?_, fun hn => by cases hn⟩
        obtain ⟨hone, _, ⟨⟩, hw⟩ := denote_builtin.1 hw
        rw [denote_number, ← h.apply_number hone hvalue, hw]
      | bool => exact absurd hvalue Value.applyBuiltin_ne_bool
      | _ => exact .refl _
  | bool =>
    refine ⟨fun hw => ?_, fun hn => by cases hn⟩
    obtain ⟨-, u, ⟨⟩, -⟩ := denote_builtin.1 hw
  | _ => exact .refl _

/-! ## Rules at one node -/

/-- A sign in front of a simplified tree. -/
theorem negated : ρ.Keeps (unary .minus a) a.negated := by
  unfold Expr.negated
  split
  · next a =>
    constructor
    · intro w hw
      obtain ⟨u, hu, rfl⟩ := denote_minus.1 hw
      obtain ⟨v, hv, rfl⟩ := denote_minus.1 hu
      rwa [neg_neg]
    · intro n hn
      obtain ⟨l, hl, rfl⟩ := integer?_minus.1 hn
      obtain ⟨m, hm, rfl⟩ := integer?_minus.1 hl
      rwa [neg_neg]
  · next c =>
    constructor
    · intro w hw
      obtain ⟨u, hu, rfl⟩ := denote_minus.1 hw
      cases hu
      rw [denote_number, h.number_neg]
    · intro n hn
      obtain ⟨l, hl, rfl⟩ := integer?_minus.1 hn
      exact h.toInt?_neg hl
  · exact .refl _

/-- A unary operator on a simplified tree. -/
theorem simplifyUnary {op : UnaryOp} : ρ.Keeps (unary op a) (simplifyUnary op a) := by
  cases op with
  | minus => exact h.negated
  | _ => exact .of_none rfl rfl

/-- The rules for sums. -/
theorem simplifyBinary_add : ρ.Keeps (binary .add a b) (simplifyBinary assumed .add a b) := by
  refine .of_denote (by simp) fun hw => ?_
  obtain ⟨u, v, hu, hv, rfl⟩ := denote_add.1 hw
  generalize hrule : Expr.simplifyBinary assumed .add a b = e
  cases simplifyBinary_rule hrule with
  | addZero hb => rw [hu, h.eq_zero hb hv, add_zero]
  | zeroAdd ha => rw [hv, h.eq_zero ha hu, zero_add]
  | fold => exact h.foldBinary.denote hw

/-- A difference from zero. -/
theorem zero_sub_keeps (ha : isLiteral zero a = true) :
    ρ.Keeps (binary .sub a b) (unary .minus b) where
  denote hw := by
    obtain ⟨u, v, hu, hv, rfl⟩ := denote_sub.1 hw
    exact denote_minus.2 ⟨v, hv, by rw [h.eq_zero ha hu, zero_sub]⟩
  integer hn := by
    obtain ⟨l, m, hl, hm, rfl⟩ := integer?_sub.1 hn
    cases hl.symm.trans (h.integer?_of_isLiteral ha)
    exact integer?_minus.2 ⟨m, hm, (zero_sub m).symm⟩

/-- The rules for differences. -/
theorem simplifyBinary_sub : ρ.Keeps (binary .sub a b) (simplifyBinary assumed .sub a b) := by
  generalize hrule : Expr.simplifyBinary assumed .sub a b = e
  cases simplifyBinary_rule hrule with
  | subZero hb =>
    constructor
    · intro w hw
      obtain ⟨u, v, hu, hv, rfl⟩ := denote_sub.1 hw
      rw [hu, h.eq_zero hb hv, sub_zero]
    · intro n hn
      obtain ⟨l, m, hl, hm, rfl⟩ := integer?_sub.1 hn
      cases hm.symm.trans (h.integer?_of_isLiteral hb)
      rw [hl, sub_zero]
  | zeroSub ha => exact (h.zero_sub_keeps ha).trans h.negated
  | fold => exact h.foldBinary

/-- The rules for products. -/
theorem simplifyBinary_mul : ρ.Keeps (binary .mul a b) (simplifyBinary assumed .mul a b) := by
  refine .of_denote (by simp) fun hw => ?_
  obtain ⟨u, v, hu, hv, rfl⟩ := denote_mul.1 hw
  generalize hrule : Expr.simplifyBinary assumed .mul a b = e
  cases simplifyBinary_rule hrule with
  | mulOne hb => rw [hu, h.eq_one hb hv, mul_one]
  | oneMul ha => rw [hv, h.eq_one ha hu, one_mul]
  | zeroMul ha => rw [denote_number, h.number_zero, h.eq_zero ha hu, zero_mul]
  | mulZero hb => rw [denote_number, h.number_zero, h.eq_zero hb hv, mul_zero]
  | fold => exact h.foldBinary.denote hw

/-- The rule for quotients. -/
theorem simplifyBinary_div : ρ.Keeps (binary .div a b) (simplifyBinary assumed .div a b) := by
  refine .of_denote (by simp) fun hw => ?_
  obtain ⟨u, v, hu, hv, -, rfl⟩ := denote_div.1 hw
  generalize hrule : Expr.simplifyBinary assumed .div a b = e
  cases simplifyBinary_rule hrule with
  | divOne hb => rw [hu, h.eq_one hb hv, div_one]
  | fold => exact h.foldBinary.denote hw

/-- The rules for powers. -/
theorem simplifyBinary_pow : ρ.Keeps (binary .pow a b) (simplifyBinary assumed .pow a b) := by
  refine .of_denote (by simp) fun hw => ?_
  obtain ⟨u, n, hu, hn, -, rfl⟩ := denote_pow.1 hw
  generalize hrule : Expr.simplifyBinary assumed .pow a b = e
  cases simplifyBinary_rule hrule with
  | powOne hb =>
    cases hn.symm.trans (h.integer?_of_isLiteral hb)
    rw [hu, zpow_one]
  | powZero hb =>
    cases hn.symm.trans (h.integer?_of_isLiteral hb)
    rw [denote_number, h.number_one, zpow_zero]
  | onePow ha => rw [denote_number, h.number_one, h.eq_one ha hu, one_zpow]
  | fold => exact h.foldBinary.denote hw

/-- A binary operator on simplified trees. -/
theorem simplifyBinary : ρ.Keeps (binary op a b) (simplifyBinary assumed op a b) := by
  cases op with
  | add => exact h.simplifyBinary_add
  | sub => exact h.simplifyBinary_sub
  | mul => exact h.simplifyBinary_mul
  | div => exact h.simplifyBinary_div
  | pow => exact h.simplifyBinary_pow
  | _ => exact h.foldBinary

/-- **Simplification keeps what a tree denotes.** -/
theorem simplifyWith (e : Expr K) : ρ.Keeps e (e.simplifyWith assumed) := by
  induction e using Expr.induction with
  | number | var => exact .refl _
  | unary op a ha =>
    cases op with
    | minus => exact ha.minus.trans h.negated
    | _ => exact .of_none rfl rfl
  | binary op a b ha hb => exact (ha.binary hb).trans h.simplifyBinary
  | builtin f as has =>
    match as, has with
    | [a], has =>
      have ha := has a (.head _)
      rw [Expr.simplifyWith]
      split
      · exact ha.builtin
      · exact ha.builtin.trans h.foldBuiltin
    | [], _ | _ :: _ :: _, _ => exact .of_none rfl rfl
  | _ => exact .of_none rfl rfl

end IsExact

/-! ## Real numbers -/

/-- Real numbers as themselves, with the functions of the table. -/
noncomputable def real (values : String → ℝ) : Reading ℝ ℝ where
  number := id
  var := values
  apply f a :=
    match Value.applyBuiltin f [.number a] with
    | .ok (.number b) => some b
    | _ => none

/-- **Real numbers are read exactly.** -/
theorem real_isExact (values : String → ℝ) : (real values).IsExact where
  identical := Exact.identical_iff.1
  toInt?_ofInt := Exact.toInt?_ofInt
  toInt?_neg {a n} ha := by
    rw [← Exact.ofInt_of_toInt? ha, ← Exact.toInt?_ofInt (K := ℝ) (-n)]
    exact congrArg toInt? (Int.cast_neg n).symm
  toInt?_sub {a b m n} ha hb := by
    rw [← Exact.ofInt_of_toInt? ha, ← Exact.ofInt_of_toInt? hb,
      ← Exact.toInt?_ofInt (K := ℝ) (m - n)]
    exact congrArg toInt? (Int.cast_sub m n).symm
  integers _ _ ha := (Exact.ofInt_of_toInt? ha).symm
  number_neg _ := rfl
  number_add _ _ := rfl
  number_sub _ _ := rfl
  number_mul _ _ := rfl
  number_div _ := rfl
  number_pow {a b n} hb _ := by
    rw [← Exact.ofInt_of_toInt? hb]
    exact Real.rpow_intCast a n
  apply_number {f a b} _ hb := by
    show (match Value.applyBuiltin f [.number a] with
      | .ok (.number b) => some b
      | _ => none) = some b
    rw [hb]

end Reading

/-! ## Whole trees -/

/-- **Simplification for real variables keeps the value of a tree** that has one. -/
theorem Expr.denote_simplifyReal (h : ρ.IsExact) {t : Expr K} {v : F}
    (hv : denote ρ t = some v) : denote ρ t.simplifyReal = some v :=
  (h.simplifyWith t).denote hv

/-- Zero times the sine of a variable, added to a power of another one. -/
theorem Expr.denote_simplifyReal_sum :
    let t : Expr ℝ := binary .add (binary .mul (number zero) (builtin .sin [var "x"]))
      (binary .pow (var "y") (number (ofInt 2)))
    let ρ := Reading.real fun _ => 3
    denote ρ t = some 9 ∧ denote ρ t.simplifyReal = some 9 := by
  intro t ρ
  have hexact := Reading.real_isExact fun _ => 3
  have hsin : denote ρ (builtin .sin [var "x"]) = some (Real.sin 3) :=
    denote_builtin.2 ⟨rfl, 3, rfl, rfl⟩
  have hproduct : denote ρ (binary .mul (number zero) (builtin .sin [var "x"])) = some 0 :=
    denote_mul.2 ⟨0, _, by rw [denote_number, hexact.number_zero], hsin, zero_mul _⟩
  have hpower : denote ρ (binary .pow (var "y") (number (ofInt 2))) = some (3 ^ (2 : ℤ)) :=
    denote_pow.2 ⟨3, 2, rfl, hexact.toInt?_ofInt 2, by norm_num, rfl⟩
  have hv : denote ρ t = some 9 := denote_add.2 ⟨0, _, hproduct, hpower, by norm_num⟩
  exact ⟨hv, denote_simplifyReal hexact hv⟩

end Formula

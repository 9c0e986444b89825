import Formula.Proofs.Derivative.Slopes

/-!
# The derivative of a simplified tree

A tree that can be differentiated and its simplification have a slope in common
(`exists_sharedSlope`): their derivatives are different trees, but where both are defined they have
the same value. The induction carries along that the slope is zero if simplification for real
variables removes the variable.

One rule depends on more than the meanings and the slopes of the operands. If simplification removes
the variable from an exponent, the derivative of the tree divides by the base, and the derivative of
the simplified tree does not. The denominator is still there in the simplified derivative, unless
the base is a literal (`Guards`), so that the two agree.
-/

namespace Formula.Expr

open Scalar (zero one)

variable {K : Type} [Scalar K] {ρ : Valuation K} {x : String} {a b d e : Expr K} {du dv w : K}

/-! ## Powers -/

section

variable [Scalar.ExactPowers K]

/-- A power is its predecessor times its base. -/
theorem realOperation_pow_sub_one {u : K} (hu : u ≠ zero) (v : K) :
    Value.realOperation .pow u (v - one) * u = Value.realOperation .pow u v := by
  have hleaves : Value.leavesReals u (v - one) = Value.leavesReals u v := by
    rw [Value.leavesReals, Value.leavesReals, Scalar.isIntegral_sub_one,
      Scalar.ExactPowers.isFinite_eq, Scalar.ExactPowers.isFinite_eq]
  rw [Value.realOperation, Value.realOperation, hleaves]
  cases hreal : Value.leavesReals u v with
  | true => exact Scalar.zero_mul_eq u
  | false =>
    refine Scalar.ExactPowers.pow_sub_one hu ?_
    simpa [Value.leavesReals, Scalar.ExactPowers.isFinite_eq, Classical.or_iff_not_imp_left]
      using hreal

namespace HasSlope

/-- With a constant exponent both rules for powers agree, where the base is not zero. -/
theorem exponential_constant {u : Value K} {v : K} (hu : u.real ≠ zero) :
    exponential u v du zero = power u.real v du := by
  let := Scalar.commRing (K := K)
  have hcancel := Scalar.Exact.mul_recip hu
  rw [exponential, power, Scalar.zero_mul_eq, Scalar.zero_add_eq, Scalar.Exact.div_eq,
    ← realOperation_pow_sub_one hu]
  calc Value.realOperation .pow u.real (v - one) * u.real * (v * du * Scalar.recip u.real)
      = v * Value.realOperation .pow u.real (v - one) * du * (u.real * Scalar.recip u.real) := by
        ring
    _ = v * Value.realOperation .pow u.real (v - one) * du := by rw [hcancel, Scalar.mul_one_eq]

/-- The slope of a power whose exponent has the slope zero. -/
theorem pow_guarded (ha : HasSlope ρ x a du) (hb : HasSlope ρ x b zero)
    (hconstant : a.simplifyReal.hasVariable x = false → du = zero) :
    HasSlope ρ x (Expr.binary .pow a b) (power (realMeaning ρ a) (realMeaning ρ b) du) := by
  cases hxb : b.hasVariable x with
  | false => exact ha.pow_constant hxb
  | true =>
    have hvariable := ha.pow_variable hb hxb
    -- A base with the slope zero is no denominator that counts. Any other base has the variable
    -- after simplification, so that it is no literal, and the quotient guards it.
    by_cases hdu : du = zero
    · rw [hdu, exponential_zero, Scalar.mul_zero_eq] at hvariable
      rw [hdu, power_zero]
      exact hvariable
    have hxa : a.hasVariable x = true := by
      by_contra hxa
      exact hdu (ha.eq_zero (Bool.eq_false_of_not_eq_true hxa))
    intro d hd hq
    rw [hvariable d hd hq]
    refine exponential_constant ?_
    obtain ⟨da, db, -, -, rfl⟩ := derivative_pow hxa hxb hd
    obtain hbase | hliteral := Guards.quotient.plus.times literal_of_pow_eq_zero hq
    · exact hbase
    · exact absurd (hconstant (hasVariable_of_literal? hliteral)) hdu

/-- The slope of a simplified power whose exponent is constant. -/
theorem simplify_pow_constant {assumed : TypeGuess} (ha : HasSlope ρ x a du)
    (hxb : b.hasVariable x = false) : HasSlope ρ x (Expr.simplifyBinary assumed .pow a b)
      (power (realMeaning ρ a) (realMeaning ρ b) du) := by
  have hone : (one : K) - one = zero :=
    let := Scalar.commRing (K := K)
    sub_self one
  generalize hrule : Expr.simplifyBinary assumed .pow a b = e
  cases simplifyBinary_rule hrule with
  | powOne h =>
    obtain rfl := eq_of_isLiteral h
    simpa [power, hone] using ha
  | powZero h =>
    obtain rfl := eq_of_isLiteral h
    simpa [power] using literal rfl
  | onePow h =>
    obtain rfl := eq_of_isLiteral h
    rw [ha.eq_zero_of_literal rfl, power_zero]
    exact literal rfl
  | fold =>
    obtain heq | ⟨⟨hliteral, -⟩, hfold⟩ := foldBinary_cases .pow a b
    · rw [heq]
      exact ha.pow_constant hxb
    · rw [ha.eq_zero_of_literal hliteral, power_zero]
      exact literal hfold

/-- A power of one is constant. -/
theorem exponential_one {v : K} : exponential (.number one) v zero dv = zero := by
  have hln : Value.applyBuiltin .ln [.number (one : K)] = .ok (.number zero) := by
    rw [← Scalar.ExactPowers.ln_one]
    exact if_neg (by rw [Scalar.Exact.not_one_lt_zero]; exact Bool.false_ne_true)
  rw [exponential_zero, hln]
  simp [Except.toOption]

/-- The slope of a simplified power whose exponent is variable. -/
theorem simplify_pow_variable {assumed : TypeGuess} (ha : HasSlope ρ x a du)
    (hb : HasSlope ρ x b dv) (hxb : b.hasVariable x = true) :
    HasSlope ρ x (Expr.simplifyBinary assumed .pow a b)
      (exponential (meaning ρ a) (realMeaning ρ b) du dv) := by
  have hnumber {value : K} (h : isLiteral value b = true) : False := by
    rw [eq_of_isLiteral h] at hxb
    cases hxb
  generalize hrule : Expr.simplifyBinary assumed .pow a b = e
  cases simplifyBinary_rule hrule with
  | powOne h | powZero h => exact (hnumber h).elim
  | onePow h =>
    obtain rfl := eq_of_isLiteral h
    rw [ha.eq_zero_of_literal rfl, meaning, exponential_one]
    exact literal rfl
  | fold =>
    obtain heq | ⟨⟨-, hliteral⟩, -⟩ := foldBinary_cases .pow a b
    · rw [heq]
      exact ha.pow_variable hb hxb
    · rw [hasVariable_of_literal? hliteral] at hxb
      cases hxb

end HasSlope

/-! ## Functions -/

section

variable {f : Builtin} {u u' du' T T₀ : Expr K} {second? second?' : Option (Expr K)}

omit [Scalar.ExactPowers K] in
/-- Whether there is a rule depends on the function and on whether there is a second argument. -/
theorem exists_chainRule (u' du' : Expr K) (h : chainRule f u d second? = .ok T)
    (hsecond : second?'.isSome = second?.isSome) :
    ∃ T', chainRule f u' du' second?' = .ok T' := by
  cases f
  case root | log =>
    cases second? with
    | none => cases h
    | some s =>
      obtain ⟨s', rfl⟩ := Option.isSome_iff_exists.1 hsecond
      exact ⟨_, rfl⟩
  all_goals first | exact ⟨_, rfl⟩ | cases h

omit [Scalar.ExactPowers K] in
/-- Symbolic functions have no rule. -/
theorem isSymbolic_of_chainRule (h : chainRule f u d second? = .ok T) : f.isSymbolic = false := by
  cases f <;> first | rfl | cases h

omit [Scalar.ExactPowers K] in
/-- A simplified function with a rule: the function of the simplified arguments, or a literal that
comes from literals. -/
theorem simplifyWith_builtin_cases (assumed : TypeGuess) (rest : List (Expr K))
    (h : chainRule f a (number one) second? = .ok T) :
    (Expr.builtin f (a :: rest)).simplifyWith assumed =
        Expr.builtin f (a.simplifyWith assumed :: rest.map (simplifyWith assumed)) ∨
      (literal? (a.simplifyWith assumed)).isSome = true ∧
        (literal? ((Expr.builtin f (a :: rest)).simplifyWith assumed)).isSome = true := by
  rw [simplifyWith, isSymbolic_of_chainRule h, simplifyList_eq_map, List.map_cons,
    if_neg Bool.false_ne_true]
  exact (foldBuiltin_cases f _).imp_right fun h => ⟨h.1 _ (.head _), h.2⟩

/-- **The chain rule is linear**: the derivative of a call is that of its argument times what it is
for the derivative one. -/
theorem chainRule_reads (hT₀ : chainRule f u (number one) second? = .ok T₀)
    (hT : chainRule f u' du' second?' = .ok T) (hu : meaning ρ u' = meaning ρ u)
    (hsecond : second?'.map (meaning ρ) = second?.map (meaning ρ)) (hdu : Reads ρ du' w) :
    Reads ρ T (w * realMeaning ρ T₀) := by
  let := Scalar.commRing (K := K)
  have hdiv (r t : K) : w * (r / t) = w * r / t := by
    rw [Scalar.Exact.div_eq, Scalar.Exact.div_eq (w * r)]
    exact (mul_assoc w r _).symm
  have hneg (r : K) : w * -r = -(w * r) := mul_neg w r
  have hreal : realMeaning ρ u' = realMeaning ρ u := congrArg Value.real hu
  have hplus (a b : Expr K) : meaning ρ (plus a b) = (meaning ρ a).combine .add (meaning ρ b) :=
    rfl
  have hminus (a b : Expr K) :
      meaning ρ (minus a b) = (meaning ρ a).combine .sub (meaning ρ b) := rfl
  have hsquare (a : Expr K) :
      meaning ρ (square a) = (meaning ρ a).combine .pow (meaning ρ (integer 2)) := rfl
  cases f
  case root | log =>
    cases second? with
    | none => cases hT₀
    | some s =>
      cases second?' with
      | none => cases hT
      | some s' =>
        have hs : meaning ρ s' = meaning ρ s := Option.some.inj hsecond
        have hreals : realMeaning ρ s' = realMeaning ρ s := congrArg Value.real hs
        cases hT₀
        cases hT
        first
        | refine Eq.mp (congrArg _ ?_) ((hdu.times .self).quotient .self)
          simp [hdiv, hreal, hreals, realMeaning_builtin, meanings, hu, hs]
        | refine Eq.mp (congrArg _ ?_) (hdu.quotient .self)
          simp [hdiv, hreal, realMeaning_builtin, meanings, hs]
  -- the derivative of the argument times a function, divided by one, and the negatives of both
  case abs | exp | sin | sec | sinh | cosh =>
    cases hT₀
    cases hT
    refine Eq.mp (congrArg _ ?_) (hdu.times .self)
    simp [realMeaning_builtin, meanings, hu]
  case cos | csc | sech | csch =>
    cases hT₀
    cases hT
    refine Eq.mp (congrArg _ ?_) (hdu.times .self).opposite
    simp [hneg, realMeaning_builtin, meanings, hu]
  case sqrt | ln | lg | lb | tan | arcsin | arctan | arcsec | tanh | arsinh | arcosh | artanh |
      arcoth =>
    cases hT₀
    cases hT
    refine Eq.mp (congrArg _ ?_) (hdu.quotient .self)
    simp [hdiv, hreal, realMeaning_builtin, meanings, hplus, hminus, hsquare, hu]
  case cot | arccos | arccot | arccsc | coth | arsech | arcsch =>
    cases hT₀
    cases hT
    refine Eq.mp (congrArg _ ?_) (hdu.quotient .self).opposite
    simp [hdiv, hneg, hreal, realMeaning_builtin, meanings, hplus, hminus, hsquare, hu]
  all_goals cases hT

/-- The slope of a call, from the chain rule for an argument with the same meaning. -/
theorem HasSlope.builtin {rest : List (Expr K)} (ha : HasSlope ρ x a w)
    (hT₀ : chainRule f u (number one) second? = .ok T₀) (hu : meaning ρ a = meaning ρ u)
    (hrest : rest.head?.map (meaning ρ) = second?.map (meaning ρ)) :
    HasSlope ρ x (Expr.builtin f (a :: rest)) (w * realMeaning ρ T₀) := by
  cases hx : (Expr.builtin f (a :: rest)).hasVariable x with
  | false =>
    rw [ha.eq_zero (Bool.or_eq_false_iff.1 hx).1, Scalar.zero_mul_eq]
    exact constant hx
  | true =>
    intro d hd
    obtain ⟨-, da, hda, hd⟩ := derivative_builtin_ok hx hd
    exact chainRule_reads hT₀ hd hu hrest (ha da hda)

end

/-! ## The slope in common -/

/-- A slope of the tree and of its simplification. It is zero if simplification for real variables
removes the variable. -/
structure SharedSlope (ρ : Valuation K) (x : String) (e : Expr K) (w : K) : Prop where
  tree : HasSlope ρ x e w
  simplified : HasSlope ρ x e.simplify w
  constant : e.simplifyReal.hasVariable x = false → w = zero

namespace SharedSlope

omit [Scalar.ExactPowers K] in
/-- A tree without the variable. -/
theorem of_not_hasVariable (h : e.hasVariable x = false) : SharedSlope ρ x e zero where
  tree := .constant h
  simplified := .constant (hasVariable_simplifyWith h)
  constant _ := rfl

omit [Scalar.ExactPowers K] in
/-- The variable itself. -/
theorem var {y : String} (h : (Expr.var y : Expr K).hasVariable x = true) :
    SharedSlope ρ x (.var y) one := by
  have hslope : HasSlope ρ x (.var y) one := fun d hd => by
    rw [derivative, h] at hd
    cases hd
    exact Reads.self
  exact ⟨hslope, hslope, fun hx => absurd (hx.symm.trans h) Bool.false_ne_true⟩

/-- A sign. -/
theorem minus (h : SharedSlope ρ x a w) : SharedSlope ρ x (unary .minus a) (-w) where
  tree := h.tree.minus
  simplified := h.simplified.negated
  constant hx := by
    rw [h.constant (hasVariable_negated.symm.trans hx), Scalar.neg_zero_eq]

/-- The operands of a simplified operator without the variable. -/
theorem operands_of_not_hasVariable {op : BinaryOp}
    (h : (binary op a b).simplifyReal.hasVariable x = false) :
    a.simplifyReal.hasVariable x = false ∧ b.simplifyReal.hasVariable x = false ∨
      Absorbs op a.simplifyReal b.simplifyReal := by
  rw [simplifyReal, simplifyWith] at h
  exact operands_of_simplifyBinary hasVariable_of_literal? hasVariable_negated.symm.trans
    Bool.or_eq_false_iff.1 h

/-- An arithmetic operator. -/
theorem binary {op : BinaryOp} (hop : op ∈ [.add, .sub, .mul, .div]) (ha : SharedSlope ρ x a du)
    (hb : SharedSlope ρ x b dv) : SharedSlope ρ x (binary op a b)
      (HasSlope.arithmetic op (realMeaning ρ a) (realMeaning ρ b) du dv) where
  tree := .binary hop ha.tree hb.tree
  simplified := by
    rw [← realMeaning_simplifyWith none a, ← realMeaning_simplifyWith none b]
    exact .simplifyBinary hop ha.simplified hb.simplified
  constant hx := by
    obtain ⟨hxa, hxb⟩ | ⟨rfl, hzero⟩ | ⟨rfl, -⟩ := operands_of_not_hasVariable hx
    · rw [ha.constant hxa, hb.constant hxb, HasSlope.arithmetic_zero]
    · obtain heq | heq := hzero
      · rw [realMeaning_of_simplifyReal heq, ha.constant (by rw [heq]; rfl)]
        simp [HasSlope.arithmetic]
      · rw [realMeaning_of_simplifyReal heq, hb.constant (by rw [heq]; rfl)]
        simp [HasSlope.arithmetic]
    · simp at hop

/-- A power whose exponent loses the variable by simplification. -/
theorem pow_constant (ha : SharedSlope ρ x a du) (hb : SharedSlope ρ x b dv)
    (hxb : b.simplify.hasVariable x = false) : SharedSlope ρ x (Expr.binary .pow a b)
      (HasSlope.power (realMeaning ρ a) (realMeaning ρ b) du) where
  tree := by
    have hdv : dv = zero := hb.simplified.eq_zero hxb
    exact ha.tree.pow_guarded (hdv ▸ hb.tree) ha.constant
  simplified := by
    rw [← realMeaning_simplifyWith none a, ← realMeaning_simplifyWith none b]
    exact ha.simplified.simplify_pow_constant hxb
  constant hx := by
    obtain ⟨hxa, -⟩ | ⟨hop, -⟩ | ⟨-, hzero | hone⟩ := operands_of_not_hasVariable hx
    · rw [ha.constant hxa, HasSlope.power_zero]
    · cases hop
    · rw [realMeaning_of_simplifyReal hzero]
      simp [HasSlope.power]
    · rw [ha.constant (by rw [hone]; rfl), HasSlope.power_zero]

/-- A power whose exponent keeps the variable. -/
theorem pow_variable (ha : SharedSlope ρ x a du) (hb : SharedSlope ρ x b dv)
    (hxb : b.simplify.hasVariable x = true) : SharedSlope ρ x (Expr.binary .pow a b)
      (HasSlope.exponential (meaning ρ a) (realMeaning ρ b) du dv) where
  tree := by
    refine ha.tree.pow_variable hb.tree ?_
    by_contra hxb'
    rw [simplify, hasVariable_simplifyWith (Bool.eq_false_of_not_eq_true hxb')] at hxb
    cases hxb
  simplified := by
    rw [← meaning_simplifyWith a, ← realMeaning_simplifyWith none b]
    exact ha.simplified.simplify_pow_variable hb.simplified hxb
  constant hx := by
    obtain ⟨hxa, hxb⟩ | ⟨hop, -⟩ | ⟨-, hzero | hone⟩ := operands_of_not_hasVariable hx
    · rw [ha.constant hxa, hb.constant hxb]
      simp [HasSlope.exponential]
    · cases hop
    · rw [realMeaning_of_simplifyReal hzero, hb.constant (by rw [hzero]; rfl)]
      simp [HasSlope.exponential]
    · rw [meaning_of_simplifyReal hone, ha.constant (by rw [hone]; rfl), HasSlope.exponential_one]

/-- A call of a function with a rule. -/
theorem builtin {f : Builtin} {rest : List (Expr K)} {T₀ : Expr K}
    (hT₀ : chainRule f a (number one) rest.head? = .ok T₀) (ha : SharedSlope ρ x a w) :
    SharedSlope ρ x (Expr.builtin f (a :: rest)) (w * realMeaning ρ T₀) where
  tree := ha.tree.builtin hT₀ rfl rfl
  simplified := by
    obtain heq | ⟨hargument, hliteral⟩ :=
      simplifyWith_builtin_cases none rest hT₀
    · rw [simplify, heq]
      refine ha.simplified.builtin hT₀ (meaning_simplifyWith a) ?_
      rw [List.head?_map, Option.map_map]
      exact congrArg (rest.head?.map ·) (funext meaning_simplifyWith)
    · rw [ha.simplified.eq_zero_of_literal hargument, Scalar.zero_mul_eq]
      exact .literal hliteral
  constant hx := by
    have hxa : a.simplifyReal.hasVariable x = false := by
      obtain heq | ⟨hargument, -⟩ := simplifyWith_builtin_cases (some .number) rest hT₀
      · rw [simplifyReal, heq] at hx
        exact (Bool.or_eq_false_iff.1 hx).1
      · exact hasVariable_of_literal? hargument
    rw [ha.constant hxa, Scalar.zero_mul_eq]

end SharedSlope

/-- **A tree with a derivative has a slope in common with its simplification.** -/
theorem exists_sharedSlope (hd : derivative x e = .ok d) : ∃ w, SharedSlope ρ x e w := by
  fun_induction derivative x e generalizing d with
  | case1 e hx => exact ⟨_, .of_not_hasVariable (by simpa using hx)⟩
  | case2 y hx => exact ⟨_, .var (by simpa using hx)⟩
  | case3 a _ iha =>
    obtain ⟨da, hda, -⟩ := Result.bind_ok hd
    obtain ⟨w, ha⟩ := iha hda
    exact ⟨_, ha.minus⟩
  | case4 a b _ iha ihb | case5 a b _ iha ihb | case6 a b _ iha ihb | case7 a b _ iha ihb =>
    obtain ⟨da, hda, hd⟩ := Result.bind_ok hd
    obtain ⟨db, hdb, -⟩ := Result.bind_ok hd
    obtain ⟨du, ha⟩ := iha hda
    obtain ⟨dv, hb⟩ := ihb hdb
    exact ⟨_, ha.binary (by simp) hb⟩
  | case8 a b _ ihb iha =>
    obtain ⟨db, hdb, hd⟩ := Result.bind_ok hd
    obtain ⟨da, hda, -⟩ := Result.bind_ok hd
    obtain ⟨du, ha⟩ := iha hda
    obtain ⟨dv, hb⟩ := ihb hdb
    cases hxb : b.simplify.hasVariable x with
    | false => exact ⟨_, ha.pow_constant hb hxb⟩
    | true => exact ⟨_, ha.pow_variable hb hxb⟩
  | case9 | case11 => cases hd
  | case10 f a rest _ _ iha =>
    obtain ⟨da, hda, hd⟩ := Result.bind_ok hd
    obtain ⟨w, ha⟩ := iha hda
    obtain ⟨T₀, hT₀⟩ := exists_chainRule a (number one) hd rfl
    exact ⟨_, ha.builtin hT₀⟩

/-- **The derivatives of a tree and of its simplification have the same values**, wherever both
have values. -/
theorem value_derivative_simplify {d' : Expr K} {u v : K} (hd : derivative x e = .ok d)
    (hd' : derivative x e.simplify = .ok d') (hu : d.simplifyReal.value? ρ = some (.number u))
    (hv : d'.simplifyReal.value? ρ = some (.number v)) : v = u := by
  obtain ⟨w, hslope⟩ := exists_sharedSlope (ρ := ρ) hd
  have hread {d : Expr K} {u : K} (h : Reads ρ d w)
      (hu : d.simplifyReal.value? ρ = some (.number u)) : u = w := by
    rw [← h (hasQuotients_of_value? hu), ← realMeaning_simplifyWith (some .number) d]
    exact (congrArg Value.real (meaning_of_value? hu)).symm
  rw [hread (hslope.tree d hd) hu, hread (hslope.simplified d' hd') hv]

end

end Formula.Expr

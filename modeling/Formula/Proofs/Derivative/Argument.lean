import Formula.Binary64.Scalar
import Formula.Proofs.Derivative.Simplified

/-!
# Derivatives of simplified arguments

The argument of `deriv` is a tree, and the simplifier rewrites inside of it. Executing the call or
its simplification ends alike: both fail, or both give derivatives, which have the same values
wherever both have values (`execute_derivative_simplify`).

Two things can go wrong. An argument that becomes a variable is looked up, and what the variable
stands for is differentiated in its place (`execute_derivative_becomes_variable`). And a part that
has no derivative may be dropped, so that the simplified argument has one; `KeepsObstacles` tells
where none is.
-/

namespace Formula.Expr

open Scalar (zero one)

variable {K : Type} [Scalar K] {x : String} {a b d e : Expr K} {f : Builtin}
  {rest : List (Expr K)}

/-! ## Trees with derivatives -/

/-- The tree has a derivative. -/
def HasDerivative (x : String) (e : Expr K) : Prop := ∃ d, derivative x e = .ok d

namespace HasDerivative

/-- A constant. -/
theorem constant (h : e.hasVariable x = false) : HasDerivative x e :=
  ⟨_, derivative_of_not_hasVariable h⟩

/-- A literal. -/
theorem literal (h : (literal? e).isSome = true) : HasDerivative x e :=
  constant (hasVariable_of_literal? h)

/-- A variable. -/
theorem var {y : String} : HasDerivative x (var y : Expr K) := by
  cases hx : (Expr.var y : Expr K).hasVariable x with
  | false => exact constant hx
  | true => exact ⟨_, by rw [derivative, hx]; rfl⟩

/-- A sign. -/
theorem minus_iff : HasDerivative x (unary .minus a) ↔ HasDerivative x a := by
  cases hx : (unary .minus a).hasVariable x with
  | false => exact iff_of_true (constant hx) (constant hx)
  | true =>
    constructor
    · rintro ⟨d, hd⟩
      rw [derivative, hx] at hd
      obtain ⟨da, hda, -⟩ := Result.bind_ok hd
      exact ⟨da, hda⟩
    · rintro ⟨da, hda⟩
      exact ⟨_, by rw [derivative, hx, hda]; rfl⟩

/-- A sign that is pulled in. -/
theorem negated_iff : HasDerivative x a.negated ↔ HasDerivative x a := by
  unfold negated
  split
  · exact minus_iff.symm
  · exact iff_of_true (literal rfl) (literal rfl)
  · exact minus_iff

/-- An operator with a rule. -/
theorem binary_iff {op : BinaryOp} (hop : op.isAnalytic = true) :
    HasDerivative x (binary op a b) ↔ HasDerivative x a ∧ HasDerivative x b := by
  cases hx : (binary op a b).hasVariable x with
  | false =>
    obtain ⟨hxa, hxb⟩ := Bool.or_eq_false_iff.1 hx
    exact iff_of_true (constant hx) ⟨constant hxa, constant hxb⟩
  | true =>
    constructor
    · rintro ⟨d, hd⟩
      cases op with
      | add | sub | mul | div =>
        rw [derivative, hx] at hd
        obtain ⟨da, hda, hd⟩ := Result.bind_ok hd
        obtain ⟨db, hdb, -⟩ := Result.bind_ok hd
        exact ⟨⟨da, hda⟩, ⟨db, hdb⟩⟩
      | pow =>
        obtain ⟨da, db, hda, hdb, -⟩ := derivative_pow_ok hx hd
        exact ⟨⟨da, hda⟩, ⟨db, hdb⟩⟩
      | _ => cases hop
    · rintro ⟨⟨da, hda⟩, ⟨db, hdb⟩⟩
      cases op with
      | add | sub | mul | div => exact ⟨_, by rw [derivative, hx, hda, hdb]; rfl⟩
      | pow =>
        cases hd : powerRule x a b da db with
        | ok d => exact ⟨d, by rw [derivative, hx, hda, hdb]; exact hd⟩
        | error cause => exact absurd hd powerRule_ne_error
      | _ => cases hop

/-- The argument of a function. -/
theorem argument (h : HasDerivative x (builtin f (a :: rest))) : HasDerivative x a := by
  cases hx : (builtin f (a :: rest)).hasVariable x with
  | false => exact constant (Bool.or_eq_false_iff.1 hx).1
  | true =>
    obtain ⟨d, hd⟩ := h
    obtain ⟨-, da, hda, -⟩ := derivative_builtin_ok hx hd
    exact ⟨da, hda⟩

/-- A function with a rule. -/
theorem builtin {T : Expr K} (hrest : rest.head?.any (hasVariable x) = false)
    (hrule : chainRule f a (number one) rest.head? = .ok T) (h : HasDerivative x a) :
    HasDerivative x (builtin f (a :: rest)) := by
  cases hx : (Expr.builtin f (a :: rest)).hasVariable x with
  | false => exact constant hx
  | true =>
    obtain ⟨da, hda⟩ := h
    obtain ⟨T', hT'⟩ := exists_chainRule a da hrule rfl
    exact ⟨T', by rw [derivative, hx, hrest, hda]; exact hT'⟩

/-- A simplified operator with a rule. -/
theorem simplify_binary {op : BinaryOp} (hop : op.isAnalytic = true)
    (ha : HasDerivative x a.simplify) (hb : HasDerivative x b.simplify) :
    HasDerivative x (binary op a b).simplify := by
  rw [Expr.simplify, simplifyWith]
  generalize hrule : simplifyBinary none op (a.simplifyWith none) (b.simplifyWith none) = e
  cases simplifyBinary_rule hrule with
  | addZero | subZero | mulOne | divOne | powOne => exact ha
  | zeroAdd | oneMul => exact hb
  | zeroSub => exact negated_iff.2 hb
  | zeroMul | mulZero | powZero | onePow => exact literal rfl
  | fold =>
    obtain heq | ⟨-, hliteral⟩ :=
      foldBinary_cases op (a.simplifyWith none) (b.simplifyWith none)
    · rw [heq]
      exact (binary_iff hop).2 ⟨ha, hb⟩
    · exact literal hliteral

/-- A simplified function with a rule. -/
theorem simplify_builtin {T : Expr K} (hrest : rest.head?.any (hasVariable x) = false)
    (hrule : chainRule f a (number one) rest.head? = .ok T) (ha : HasDerivative x a.simplify) :
    HasDerivative x (Expr.builtin f (a :: rest)).simplify := by
  obtain heq | ⟨-, hliteral⟩ := simplifyWith_builtin_cases none rest hrule
  · rw [Expr.simplify, heq]
    have hrest' : (rest.map (simplifyWith none)).head?.any (hasVariable x) = false := by
      cases rest with
      | nil => rfl
      | cons s _ => exact hasVariable_simplifyWith hrest
    obtain ⟨T', hT'⟩ : ∃ T', chainRule f (a.simplifyWith none) (number one)
        (rest.map (simplifyWith none)).head? = .ok T' := exists_chainRule _ _ hrule (by simp)
    exact builtin hrest' hT' ha
  · exact literal hliteral

/-- **Simplification keeps a derivative.** -/
theorem simplify (h : HasDerivative x e) : HasDerivative x e.simplify := by
  obtain ⟨d, hd⟩ := h
  fun_induction derivative x e generalizing d with
  | case1 e hx => exact constant (hasVariable_simplifyWith (by simpa using hx))
  | case2 => exact var
  | case3 a _ iha =>
    obtain ⟨da, hda, -⟩ := Result.bind_ok hd
    exact negated_iff.2 (iha da hda)
  | case4 a b _ iha ihb | case5 a b _ iha ihb | case6 a b _ iha ihb | case7 a b _ iha ihb =>
    obtain ⟨da, hda, hd⟩ := Result.bind_ok hd
    obtain ⟨db, hdb, -⟩ := Result.bind_ok hd
    exact simplify_binary rfl (iha da hda) (ihb db hdb)
  | case8 a b _ ihb iha =>
    obtain ⟨db, hdb, hd⟩ := Result.bind_ok hd
    obtain ⟨da, hda, -⟩ := Result.bind_ok hd
    exact simplify_binary rfl (iha da hda) (ihb db hdb)
  | case9 | case11 => cases hd
  | case10 f a rest hrest _ iha =>
    obtain ⟨da, hda, hd⟩ := Result.bind_ok hd
    obtain ⟨T, hT⟩ := exists_chainRule a (number one) hd rfl
    exact simplify_builtin (Bool.eq_false_of_not_eq_true hrest) hT (iha da hda)

end HasDerivative

/-! ## Parts without a derivative -/

/-- Simplification keeps the parts that have no derivative: at each node that is differentiated,
either there is a rule and no rule of the simplifier drops an operand without a derivative, or there
is none and the simplified node is refused as well. -/
inductive KeepsObstacles (x : String) : Expr K → Prop
  | constant {e : Expr K} : e.hasVariable x = false → KeepsObstacles x e
  | var (y : String) : KeepsObstacles x (var y)
  | minus {a : Expr K} : KeepsObstacles x a → KeepsObstacles x (unary .minus a)
  | binary {op : BinaryOp} {a b : Expr K} : op.isAnalytic = true → KeepsObstacles x a →
    KeepsObstacles x b → (Absorbs op a.simplify b.simplify →
      HasDerivative x a.simplify ∧ HasDerivative x b.simplify) → KeepsObstacles x (binary op a b)
  | builtin {f : Builtin} {a : Expr K} {rest : List (Expr K)} {T : Expr K} :
    rest.head?.any (hasVariable x) = false → chainRule f a (number one) rest.head? = .ok T →
      KeepsObstacles x a → KeepsObstacles x (builtin f (a :: rest))
  | refused {e : Expr K} : derivative x e.simplify = .error (.noRule e.kind) → KeepsObstacles x e

/-- If no obstacle is lost, a tree has a derivative if its simplification has one. -/
theorem KeepsObstacles.hasDerivative [Scalar.Exact K] (h : KeepsObstacles x e)
    (hsimplify : HasDerivative x e.simplify) : HasDerivative x e := by
  -- From the derivative of a simplified node to those of its simplified operands: they are still
  -- there, or they were dropped, and then the hypothesis on the node gives their derivatives.
  induction h with
  | constant hx => exact .constant hx
  | var => exact .var
  | minus _ ih => exact .minus_iff.2 (ih (.negated_iff.1 hsimplify))
  | @binary op a b hop _ _ hdrops iha ihb =>
    rw [simplify, simplifyWith] at hsimplify
    have hoperands : HasDerivative x a.simplify ∧ HasDerivative x b.simplify :=
      (operands_of_simplifyBinary HasDerivative.literal HasDerivative.negated_iff.1
        (HasDerivative.binary_iff hop).1 hsimplify).elim id hdrops
    exact (HasDerivative.binary_iff hop).2 ⟨iha hoperands.1, ihb hoperands.2⟩
  | @builtin f a rest T hrest hrule _ ih =>
    refine .builtin hrest hrule (ih ?_)
    obtain heq | ⟨hargument, -⟩ := simplifyWith_builtin_cases none rest hrule
    · rw [simplify, heq] at hsimplify
      exact hsimplify.argument
    · exact .literal hargument
  | refused herror =>
    obtain ⟨d, hd⟩ := hsimplify
    cases hd.symm.trans herror

/-- A tree with a derivative has no obstacles to lose. -/
theorem HasDerivative.keepsObstacles (h : HasDerivative x e) : KeepsObstacles x e := by
  obtain ⟨d, hd⟩ := h
  fun_induction derivative x e generalizing d with
  | case1 e hx => exact .constant (by simpa using hx)
  | case2 => exact .var _
  | case3 a _ iha =>
    obtain ⟨da, hda, -⟩ := Result.bind_ok hd
    exact .minus (iha da hda)
  | case4 a b _ iha ihb | case5 a b _ iha ihb | case6 a b _ iha ihb | case7 a b _ iha ihb =>
    obtain ⟨da, hda, hd⟩ := Result.bind_ok hd
    obtain ⟨db, hdb, -⟩ := Result.bind_ok hd
    exact .binary rfl (iha da hda) (ihb db hdb) fun _ => ⟨.simplify ⟨da, hda⟩, .simplify ⟨db, hdb⟩⟩
  | case8 a b _ ihb iha =>
    obtain ⟨db, hdb, hd⟩ := Result.bind_ok hd
    obtain ⟨da, hda, -⟩ := Result.bind_ok hd
    exact .binary rfl (iha da hda) (ihb db hdb) fun _ => ⟨.simplify ⟨da, hda⟩, .simplify ⟨db, hdb⟩⟩
  | case9 | case11 => cases hd
  | case10 f a rest hrest _ iha =>
    obtain ⟨da, hda, hd⟩ := Result.bind_ok hd
    obtain ⟨T, hT⟩ := exists_chainRule a (number one) hd rfl
    exact .builtin (Bool.eq_false_of_not_eq_true hrest) hT (iha da hda)

/-! ## Derivatives that are executed -/

/-- What executing the derivative of an argument by a variable gives. -/
theorem execute_derivative (e : Expr K) (y : String) (env : Environment K) :
    (builtin .derivative [e, var y]).execute env =
      (match derivative y (symbolicArgument env e) with
        | .ok d => .ok (.function d.simplifyReal)
        | .error cause => .error (.error (.differentiation cause)), env) := by
  have hargument := run_deriveArgument e y env
  rw [execute_eq_eval, eval]
  refine (Eval.run_bind_ok rfl).trans ?_
  cases hd : derivative y (symbolicArgument env e) with
  | ok d =>
    rw [hd] at hargument
    exact Eval.run_bind_ok hargument
  | error cause =>
    rw [hd] at hargument
    exact Eval.run_bind_error hargument

/-- Derivatives that have the same values are executed alike, wherever they have values. -/
theorem execute_values {d d' : Expr K} {point : Environment K} {ρ : Valuation K} {u v : K}
    (hvalue : d.value? ρ = some (.number u) → d'.value? ρ = some (.number v) → v = u)
    (hρ : ρ.Holds (evaluationFuel - 1) point) (hu : d.value? ρ = some (.number u))
    (hv : d'.value? ρ = some (.number v)) :
    d.execute point = (.ok (.number u), point) ∧ d'.execute point = (.ok (.number u), point) := by
  refine ⟨execute_of_value? hρ hu, ?_⟩
  rw [execute_of_value? hρ hv, hvalue hu hv]

/-- **Simplifying the argument of a derivative does not change the derivative.** -/
theorem execute_derivative_simplify [Scalar.ExactPowers K] {f : Expr K} {y : String}
    {env : Environment K}
    (hvariable : ∀ z tree, f.simplify = var z → env.get? z = some (.function tree) → f = var z)
    (hobstacles : f.KeepsObstacles y) :
    let t := builtin .derivative [f, var y]
    (∃ cause cause', t.execute env = (.error cause, env) ∧
      t.simplify.execute env = (.error cause', env)) ∨
    ∃ d d', t.execute env = (.ok (.function d), env) ∧
      t.simplify.execute env = (.ok (.function d'), env) ∧
      ∀ (point : Environment K) (ρ : Valuation K) (u v : K), ρ.Holds (evaluationFuel - 1) point →
        d.value? ρ = some (.number u) → d'.value? ρ = some (.number v) →
          d.execute point = (.ok (.number u), point) ∧
            d'.execute point = (.ok (.number u), point) := by
  intro t
  have ht : t.simplify = builtin .derivative [f.simplify, var y] := rfl
  have htree := execute_derivative f y env
  have hsimplified := execute_derivative f.simplify y env
  rw [ht]
  -- A variable stays as it is, so that both calls look at the same tree. Any other argument is its
  -- own tree, and so is its simplification.
  by_cases hname : ∃ z, f = var z
  · obtain ⟨z, rfl⟩ := hname
    split at htree
    · refine .inr ⟨_, _, htree, htree, fun _ _ _ _ => execute_values fun hu hv => ?_⟩
      rw [hu] at hv
      cases hv
      rfl
    · exact .inl ⟨_, _, htree, htree⟩
  · rw [symbolicArgument_of_forall fun z _ hz _ => hname ⟨z, hz⟩] at htree
    rw [symbolicArgument_of_forall fun z tree hz hget => hname ⟨z, hvariable z tree hz hget⟩]
      at hsimplified
    split at htree
    · next d hd =>
      obtain ⟨d', hd'⟩ := HasDerivative.simplify ⟨d, hd⟩
      rw [hd'] at hsimplified
      exact .inr ⟨_, _, htree, hsimplified,
        fun _ _ _ _ => execute_values (value_derivative_simplify hd hd')⟩
    · next cause hd =>
      split at hsimplified
      · next d' hd' =>
        obtain ⟨d, hok⟩ := hobstacles.hasDerivative ⟨d', hd'⟩
        cases hd.symm.trans hok
      · exact .inl ⟨_, _, htree, hsimplified⟩

section

variable [Scalar.Exact K] (assumed : TypeGuess)

/-- A difference with zero. -/
theorem simplifyWith_sub_zero (a : Expr K) :
    (binary .sub a (number zero)).simplifyWith assumed = a.simplifyWith assumed :=
  if_pos (Scalar.Exact.identical_iff.2 rfl)

/-- The derivative of the product of `a`, which simplifies to `y`, with `y` is `y + y`. -/
theorem simplifyReal_productRule {a da : Expr K} {y : String} (ha : a.simplifyReal = var y)
    (hda : da.simplifyReal = number one) :
    (plus (times da (var y)) (times a (integer 1))).simplifyReal =
      binary .add (var y) (var y) := by
  have hvar : ¬isLiteral one (var y : Expr K) = true := Bool.false_ne_true
  have hone : isLiteral one (number one : Expr K) = true := Scalar.Exact.identical_iff.2 rfl
  have hleft : (times da (var y)).simplifyReal = var y := by
    show simplifyBinary _ .mul da.simplifyReal (var y) = _
    rw [hda]
    dsimp only [simplifyBinary]
    rw [if_neg hvar, if_pos hone]
  have hright : (times a (integer 1)).simplifyReal = var y := by
    show simplifyBinary _ .mul a.simplifyReal (number one) = _
    rw [ha]
    exact if_pos hone
  show simplifyBinary _ .add (times da (var y)).simplifyReal (times a (integer 1)).simplifyReal = _
  rw [hleft, hright]
  rfl

end

/-- The derivative of `(y - 0) * y`, taken at three. -/
theorem execute_derivative_simplify_product :
    let f : Expr ℝ := binary .mul (binary .sub (var "y") (number zero)) (var "y")
    let t := builtin .derivative [f, var "y"]
    let env : Environment ℝ := .initial
    let point : Environment ℝ := Environment.initial.push (.ofList [("y", .number 3)])
    (∀ z tree, f.simplify = var z → env.get? z = some (.function tree) → f = var z) ∧
      f.KeepsObstacles "y" ∧ ∃ d d', t.execute env = (.ok (.function d), env) ∧
        t.simplify.execute env = (.ok (.function d'), env) ∧
          d.execute point = (.ok (.number (3 + 3)), point) ∧
            d'.execute point = (.ok (.number (3 + 3)), point) := by
  intro f t env point
  have hsimplify : f.simplify = binary .mul (var "y") (var "y") := by
    show simplifyBinary none .mul (binary .sub (var "y") (number zero)).simplify (var "y") = _
    rw [simplify, simplifyWith_sub_zero]
    rfl
  have hvariable : ∀ z tree, f.simplify = var z → env.get? z = some (.function tree) →
      f = var z := by
    intro z tree hz
    rw [hsimplify] at hz
    cases hz
  have hobstacles : f.KeepsObstacles "y" := HasDerivative.keepsObstacles ⟨_, rfl⟩
  refine ⟨hvariable, hobstacles, ?_⟩
  have htree := execute_derivative f "y" env
  obtain ⟨cause, _, herror, -⟩ | ⟨d, d', hd, hd', hvalues⟩ :=
    execute_derivative_simplify hvariable hobstacles
  · cases herror.symm.trans htree
  · have hsum : d = binary .add (var "y") (var "y") := by
      cases hd.symm.trans htree
      exact simplifyReal_productRule (simplifyWith_sub_zero _ _) (simplifyWith_sub_zero _ _)
    have hsum' : d' = binary .add (var "y") (var "y") := by
      have hsimplified := hd'.symm.trans (execute_derivative f.simplify "y" env)
      rw [hsimplify] at hsimplified
      cases hsimplified
      exact simplifyReal_productRule rfl rfl
    have hpoint : Valuation.Holds ⟨point.get?, fun _ _ => none⟩ (evaluationFuel - 1) point :=
      ⟨id, fun h => by cases h⟩
    refine ⟨d, d', hd, hd', hvalues point _ _ (3 + 3) hpoint ?_ ?_⟩
    · rw [hsum]
      rfl
    · rw [hsum']
      rfl

/-- An argument that becomes a variable with a function value: the derivative of `x - 0` by `y` is
zero, and that of `x`, which stands for `y`, is one. **Simplification can change a derivative.** -/
theorem execute_derivative_becomes_variable :
    ¬∀ (f : Expr ℝ) (y : String) (env : Environment ℝ),
      let t := builtin .derivative [f, var y]
      (∃ cause cause', t.execute env = (.error cause, env) ∧
        t.simplify.execute env = (.error cause', env)) ∨
      ∃ d d', t.execute env = (.ok (.function d), env) ∧
        t.simplify.execute env = (.ok (.function d'), env) ∧
        ∀ (point : Environment ℝ) (u v : ℝ), d.execute point = (.ok (.number u), point) →
          d'.execute point = (.ok (.number v), point) → u = v := by
  intro h
  let env : Environment ℝ := Environment.initial.push (.ofList [("x", .function (var "y"))])
  have htree := execute_derivative (binary .sub (var "x") (number zero) : Expr ℝ) "y" env
  have hsimplified := execute_derivative (var "x" : Expr ℝ) "y" env
  obtain ⟨cause, _, herror, -⟩ | ⟨d, d', hd, hd', hvalues⟩ :=
    h (binary .sub (var "x") (number zero)) "y" env
  · cases herror.symm.trans htree
  · have hargument : (builtin .derivative [binary .sub (var "x") (number zero), var "y"] :
        Expr ℝ).simplify = builtin .derivative [var "x", var "y"] :=
      congrArg (fun a => builtin .derivative [a, var "y"]) (simplifyWith_sub_zero none (var "x"))
    rw [hargument] at hd'
    cases hd.symm.trans htree
    cases hd'.symm.trans hsimplified
    have hzero_one := hvalues .initial _ _ rfl rfl
    exact Scalar.Exact.one_ne_zero hzero_one.symm

end Formula.Expr

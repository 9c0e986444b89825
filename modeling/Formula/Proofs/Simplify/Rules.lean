import Formula.Proofs.Eval.Grounded
import Formula.Proofs.Eval.Keeps
import Formula.Proofs.Eval.Refinement
import Formula.Proofs.Scalar.Exact
import Formula.Proofs.Typing.Soundness
import Formula.Proofs.Value.Neutral

/-!
# What simplification does to an evaluation

Each rule at one node replaces an evaluation by one that follows it (`Eval.Follows`), and so, by
induction, a simplified tree simulates the tree (`simplify_simulates`). The numbers are exact: a
rule that drops a neutral operand or two signs is an identity for numbers, complex numbers, angles,
vectors and matrices alike, but not under rounding.

An operand may be dropped because it is a number and because evaluating it changes nothing. The
simplifier looks for both in the tree alone, and overlooks two things: some calls that may be
complex, and what user functions and derivatives at a point do in the trees that they enter.
`isRisky` tells such operands. Two more constructs look at trees and not at values, the symbolic
functions, whose arguments are simplified as well, and the definitions of functions. `IsSafe` says
what they need.
-/

namespace Formula.Expr

open Eval

variable {K : Type} [Scalar K] {e a b : Expr K} {enter : Expr K → Eval K (Value K)} {loops : Nat}

/-! ## Trees that change nothing -/

omit [Scalar K] in
/-- A list changes the state if a member does. -/
theorem changesStateList_eq_any (as : List (Expr K)) :
    changesStateList as = as.any changesState := by
  induction as with
  | nil => rfl
  | cons a as ih => rw [changesStateList, ih, List.any_cons]

omit [Scalar K] in
/-- Rows change the state if a member does. -/
theorem changesStateRows_eq_any (rows : List (List (Expr K))) :
    changesStateRows rows = rows.flatten.any changesState := by
  induction rows with
  | nil => rfl
  | cons row rows ih =>
    rw [changesStateRows, changesStateList_eq_any, ih, List.flatten_cons, List.any_append]

/-- A definition or an assignment. -/
def isChange (e : Expr K) : Bool :=
  match e.kind with
  | .define | .undefine | .assign | .step => true
  | _ => false

omit [Scalar K] in
/-- A tree that leaves the state alone has no definition or assignment at its root and none in its
direct subtrees. -/
theorem changesState_eq_false (h : e.changesState = false) :
    e.isChange = false ∧ ∀ c ∈ e.children, c.changesState = false := by
  have heq : e.changesState = (e.isChange || e.children.any changesState) := by
    cases e <;> simp [changesState, isChange, kind, children, changesStateList_eq_any,
      changesStateRows_eq_any, Bool.or_assoc]
  rw [heq, Bool.or_eq_false_iff, List.any_eq_false] at h
  exact ⟨h.1, fun c hc => Bool.eq_false_iff.2 (h.2 c hc)⟩

/-- An evaluation goes on in another tree: in the body of a user function, or in a derivative at a
point. -/
def isEntry (e : Expr K) : Bool := e.kind = .call || e.isPoint

/-- **A tree that assigns nothing and enters no other tree leaves the environment alone.** -/
theorem eval_keepsEnvironment {env : Environment K} (hstate : e.changesState = false)
    (hentry : e.occurs isEntry = false) :
    Keeps (· = env) (fun _ => True) (fun _ => True) (eval enter loops e) := by
  have hbinds : Binds (· = env) (fun _ : Value K => True) (fun _ => True) :=
    ⟨.of_plain fun _ => trivial, fun _ _ => trivial, fun _ => trivial⟩
  have hallows (e : Expr K) : Allows (fun _ : Failure K => True) e := .inr fun _ => trivial
  induction e using children_induction with
  | h e ih =>
    obtain ⟨hchange, hstate⟩ := changesState_eq_false hstate
    obtain ⟨hnode, hentry⟩ := occurs_eq_false hentry
    replace ih : ∀ c ∈ e.children, Keeps (· = env) _ _ (eval enter loops c) :=
      fun c hc => ih c hc (hstate c hc) (hentry c hc)
    cases e with
    | builtin f as =>
      cases f with
      | simplify => exact .simplify (hallows _) fun _ _ _ _ => trivial
      | derivative =>
        have hlength : as.length ≠ 3 := fun h => by
          simp [isEntry, isPoint, kind, children, h] at hnode
        exact .derivativeTree hbinds hlength (hallows _) fun _ _ _ _ _ _ _ => trivial
      | _ => exact .reading hbinds rfl (hallows _) (collects_of_plain (fun _ => trivial) _) ih
    | forLoop body init c a =>
      exact .forLoop hbinds trivial (ih body (by simp [children])) (ih init (by simp [children]))
        (ih c (by simp [children])) (ih a (by simp [children]))
    | whileLoop body c =>
      exact .whileLoop hbinds trivial (ih body (.head _)) (ih c (.tail _ (.head _)))
    | call => cases hnode
    | define | undefine | assign | step => cases hchange
    | _ => exact .reading hbinds rfl (hallows _) (collects_of_plain (fun _ => trivial) _) ih

/-! ## Operands that are dropped -/

/-- The tree is taken for a real number that nothing is lost without, although it may be complex or
change something in another tree. -/
def isRisky (e : Expr K) : Bool := e.isDiscardable none && (e.overlooks || e.occurs isEntry)

/-- A rule for products or powers drops an operand with `p`. -/
def dropsOperand (p : Expr K → Bool) (op : BinaryOp) (a b : Expr K) : Bool :=
  match op with
  | .mul => isLiteral Scalar.zero a && p b || isLiteral Scalar.zero b && p a
  | .pow => isLiteral Scalar.zero b && p a || isLiteral Scalar.one a && p b
  | _ => false

/-! ## Literals -/

/-- A literal has its value. -/
theorem eval_of_literal? {v : Value K} (h : literal? e = some v) :
    eval enter loops e = pure v := by
  cases e <;> cases h <;> rfl

/-- The literal of a result has the value of the tree with that result. -/
theorem eval_literalOr {r : Result K (Value K)} (h : eval enter loops e = ofResult r) :
    eval enter loops (literalOr e r) = eval enter loops e := by
  unfold literalOr
  split
  · split
    · exact h.symm
    · rfl
  · exact h.symm
  · rfl

/-- An operator evaluated on a literal. -/
theorem eval_foldUnary {op : UnaryOp} :
    eval enter loops (foldUnary op a) = eval enter loops (unary op a) := by
  unfold foldUnary
  split
  · next v hv =>
    refine eval_literalOr ?_
    rw [eval, eval_of_literal? hv]
    rfl
  · rfl

/-- An operator evaluated on literals. -/
theorem eval_foldBinary {op : BinaryOp} :
    eval enter loops (foldBinary op a b) = eval enter loops (binary op a b) := by
  unfold foldBinary
  split
  · next v w hv hw =>
    refine eval_literalOr ?_
    rw [eval, eval_of_literal? hv, eval_of_literal? hw, applyDeciding]
    cases op.decidedBy? with
    | none => rfl
    | some decisive =>
      rw [ofResult_bind]
      refine congrArg (ofResult (v.asBool op.symbol) >>= ·) (funext fun left => ?_)
      split
      · rfl
      · rw [ofResult_bind]
        rfl
  · rfl

/-- The operator follows. -/
theorem foldBinary_follows {op : BinaryOp} :
    Follows (eval enter loops (binary op a b)) (eval enter loops (foldBinary op a b)) := by
  rw [eval_foldBinary]
  exact .refl

/-- The values of literals. -/
theorem evalList_of_mapM_literal? : ∀ {as : List (Expr K)} {vs : List (Value K)},
    as.mapM literal? = some vs → evalList enter loops as = pure vs
  | [], _, h => by cases h; rfl
  | a :: as, _, h => by
    rw [List.mapM_cons] at h
    obtain ⟨v, hv, h⟩ := Option.bind_eq_some_iff.1 h
    obtain ⟨vs, hvs, h⟩ := Option.bind_eq_some_iff.1 h
    cases h
    rw [evalList, eval_of_literal? hv, evalList_of_mapM_literal? hvs]
    rfl

/-- A function evaluated on literals, if it takes as many. -/
theorem foldBuiltin_follows {f : Builtin} {as : List (Expr K)} (hf : f.isSymbolic = false) :
    Follows (eval enter loops (builtin f as)) (eval enter loops (foldBuiltin f as)) := by
  unfold foldBuiltin
  split
  · next vs hvs =>
    by_cases harity : f.arity.accepts as.length = true
    · have heval : eval enter loops (builtin f as) = ofResult (Value.applyBuiltin f vs) := by
        rw [eval_builtin hf, evalList_of_mapM_literal? hvs, checkArity, if_pos harity]
        rfl
      rw [eval_literalOr heval]
      exact .refl
    · rw [eval_builtin hf, checkArity, if_neg harity]
      exact fun env hF => (hF _ rfl).elim
  · exact .refl

/-! ## Operands of known type -/

/-- A tree that is known to be a real number has a number for its value, or a complex number if
the type of a call was overlooked. -/
theorem fits_of_isReal [Scalar.LawfulOrder K] {v : Value K} (h : e.isReal none = true)
    (hv : (eval enter loops e).Yields v) : Typing.Fits e.overlooks .number v.type := by
  unfold isReal at h
  split at h
  · next guess hguess =>
    rw [decide_eq_true_eq] at h
    exact (eval_judged hv).2 guess hguess .number h
  · cases h

/-- The value is a number, or complex. -/
theorem type_of_isReal [Scalar.LawfulOrder K] {v : Value K} (h : e.isReal none = true)
    (hv : (eval enter loops e).Yields v) : v.type = .number ∨ v.type = .complex :=
  (fits_of_isReal h hv).imp_right fun h => h.2.2

/-- Where no call was overlooked the value is a number. -/
theorem number_of_isReal [Scalar.LawfulOrder K] {v : Value K} (h : e.isReal none = true)
    (hoverlooks : e.overlooks = false) (hv : (eval enter loops e).Yields v) :
    ∃ x, v = .number x := by
  have htype := fits_of_isReal h hv
  rw [hoverlooks] at htype
  cases v <;> simp [Value.type, Typing.Fits] at htype
  exact ⟨_, rfl⟩

/-- A literal known by its value. -/
theorem eq_of_isLiteral [Scalar.Exact K] {value : K} (h : isLiteral value e = true) :
    e = number value := by
  unfold isLiteral at h
  cases e with
  | number a => exact congrArg number (Scalar.Exact.identical_iff.1 (by simpa [number?] using h))
  | _ => cases h

/-- An operator whose right operand is a number. -/
theorem eval_binary_number {op : BinaryOp} (hop : op.decidedBy? = none) (x : K) :
    eval enter loops (binary op a (number x)) =
      eval enter loops a >>= fun v => ofResult (v.applyBinary op (.number x)) := by
  rw [eval, hop]
  rfl

/-- An operator whose left operand is a number. -/
theorem eval_number_binary {op : BinaryOp} (hop : op.decidedBy? = none) (x : K) :
    eval enter loops (binary op (number x) b) =
      eval enter loops b >>= fun v => ofResult ((Value.number x).applyBinary op v) := by
  rw [eval, hop]
  rfl

/-- Two operators of one operand. -/
theorem eval_unary_unary {op op' : UnaryOp} :
    eval enter loops (unary op (unary op' a)) =
      eval enter loops a >>= fun v => ofResult (v.applyUnary op' >>= (·.applyUnary op)) := by
  rw [eval, eval, bind_assoc]
  exact congrArg (eval enter loops a >>= ·) (funext fun v => (ofResult_bind _ _).symm)

/-! ## Symbolic arguments -/

/-- The simplified argument has the derivatives of the argument, as far as there are any. -/
def KeepsDerivatives (a : Expr K) : Prop :=
  ∀ {x tree}, derivative x a = .ok tree →
    ∃ tree', derivative x a.simplify = .ok tree' ∧ tree'.simplifyReal = tree.simplifyReal

omit [Scalar K] in
/-- An argument that is no variable with a function value is its own tree. -/
theorem symbolicArgument_of_forall {env : Environment K}
    (h : ∀ name tree, a = var name → env.get? name ≠ some (.function tree)) :
    symbolicArgument env a = a := by
  unfold symbolicArgument
  split
  · split
    · next hget => exact absurd hget (h _ _ rfl)
    · rfl
  · rfl

omit [Scalar K] in
/-- An argument that is no variable is its own tree. -/
theorem symbolicArgument_eq_self {env : Environment K} (h : a.varName? = none) :
    symbolicArgument env a = a := symbolicArgument_of_forall fun _ _ ha => by
  rw [ha] at h
  cases h

/-- An argument is a variable, or it is no variable and does not become one. -/
theorem symbolicArgument_simplify (env : Environment K)
    (h : a.simplify.varName? = a.varName?) :
    symbolicArgument env a.simplify = symbolicArgument env a ∨
      symbolicArgument env a.simplify = a.simplify ∧ symbolicArgument env a = a := by
  cases hname : a.varName? with
  | none => exact .inr ⟨symbolicArgument_eq_self (h.trans hname), symbolicArgument_eq_self hname⟩
  | some name =>
    cases a <;> cases hname
    exact .inl rfl

/-- The simplification of a simplified argument. -/
theorem simplify_symbolicArgument {env : Environment K} (h : a.simplify.varName? = a.varName?) :
    (symbolicArgument env a.simplify).simplify = (symbolicArgument env a).simplify := by
  obtain htree | ⟨hsimplify, hself⟩ := symbolicArgument_simplify env h
  · rw [htree]
  · rw [hsimplify, hself]
    exact (isSimplified_simplifyWith a).unchanged

/-- The derivative of a simplified argument. -/
theorem deriveArgument_follows (hargument : a.simplify.varName? = a.varName?)
    (hderivative : a.KeepsDerivatives) {second? : Option (Expr K)} :
    Follows (deriveArgument a second?) (deriveArgument a.simplify (second?.map simplify)) := by
  refine (Follows.result fun x hx => ?_).bind fun x _ => Refines.refl.bind fun env _ => ?_
  · match second? with
    | none | some (.var _) => exact hx
  · obtain htree | ⟨hsimplify, hself⟩ := symbolicArgument_simplify env hargument
    · rw [htree]
      exact .refl
    · rw [hsimplify, hself]
      split
      · next tree htree =>
        obtain ⟨tree', htree', hreal⟩ := hderivative htree
        rw [htree']
        dsimp only
        rw [hreal]
        exact .refl
      · exact fun _ hF => (hF _ rfl).elim

/-! ## Rules at one node -/

section

variable [Scalar.ExactRing K]

/-- A sign. -/
theorem negated_follows :
    Follows (eval enter loops (unary .minus a)) (eval enter loops a.negated) := by
  unfold negated
  split
  · rw [eval_unary_unary]
    refine .same fun v _ w hw => ?_
    obtain ⟨u, hu, hw⟩ := Result.bind_ok hw
    exact Value.minus_minus hu hw
  · exact .refl
  · exact .refl

end

variable [Scalar.Exact K]

/-- A unary operator. -/
theorem simplifyUnary_follows {op : UnaryOp} :
    Follows (eval enter loops (unary op a)) (eval enter loops (simplifyUnary op a)) := by
  unfold simplifyUnary
  split
  · exact negated_follows
  · rw [eval_unary_unary]
    refine .same fun v _ w hw => ?_
    obtain ⟨u, hu, hw⟩ := Result.bind_ok hw
    exact Value.not_not hu hw
  · rw [eval_foldUnary]
    exact .refl

/-- An operand that is dropped is a number, and evaluating it changes nothing. -/
theorem constant_of_isDiscardable {r : Value K → Result K (Value K)} {c : K}
    (hdiscard : e.isDiscardable none = true) (hrisky : e.isRisky = false)
    (hr : ∀ x w, r (.number x) = .ok w → w = .number c) :
    Follows (eval enter loops e >>= fun v => ofResult (r v)) (eval enter loops (number c)) := by
  rw [isRisky, hdiscard, Bool.true_and, Bool.or_eq_false_iff] at hrisky
  obtain ⟨hoverlooks, hentry⟩ := hrisky
  obtain ⟨hreal, hstate⟩ := Bool.and_eq_true_iff.1 hdiscard
  refine .constant (fun env => ?_) fun v hv w hw => ?_
  · exact (eval_keepsEnvironment (by simpa using hstate) hentry).environment rfl
  · obtain ⟨x, rfl⟩ := number_of_isReal hreal hoverlooks hv
    exact hr x w hw

/-- Sums. -/
theorem simplify_add_follows : Follows (eval enter loops (binary .add a b))
    (eval enter loops (simplifyBinary none .add a b)) := by
  generalize hrule : simplifyBinary none .add a b = e
  cases simplifyBinary_rule hrule with
  | addZero hzero hreal =>
    rw [eq_of_isLiteral hzero, eval_binary_number rfl]
    exact .same fun v hv w hw => Value.add_zero (type_of_isReal hreal hv) hw
  | zeroAdd hzero hreal =>
    rw [eq_of_isLiteral hzero, eval_number_binary rfl]
    exact .same fun v hv w hw => Value.zero_add (type_of_isReal hreal hv) hw
  | fold => exact foldBinary_follows

/-- Differences. -/
theorem simplify_sub_follows : Follows (eval enter loops (binary .sub a b))
    (eval enter loops (simplifyBinary none .sub a b)) := by
  generalize hrule : simplifyBinary none .sub a b = e
  cases simplifyBinary_rule hrule with
  | subZero hzero =>
    rw [eq_of_isLiteral hzero, eval_binary_number rfl]
    exact .same fun v _ w hw => Value.sub_zero hw
  | zeroSub hzero =>
    rw [eq_of_isLiteral hzero, eval_number_binary rfl]
    refine Refines.trans ?_ negated_follows
    exact Refines.refl.bind fun v _ => Follows.result fun w hw => Value.zero_sub hw
  | fold => exact foldBinary_follows

/-- Products. -/
theorem simplify_mul_follows (hdrops : dropsOperand isRisky .mul a b = false) :
    Follows (eval enter loops (binary .mul a b))
      (eval enter loops (simplifyBinary none .mul a b)) := by
  rw [dropsOperand, Bool.or_eq_false_iff] at hdrops
  generalize hrule : simplifyBinary none .mul a b = e
  cases simplifyBinary_rule hrule with
  | mulOne hone =>
    rw [eq_of_isLiteral hone, eval_binary_number rfl]
    exact .same fun v _ w hw => Value.mul_one hw
  | oneMul hone =>
    rw [eq_of_isLiteral hone, eval_number_binary rfl]
    exact .same fun v _ w hw => Value.one_mul hw
  | zeroMul hzero hdiscard =>
    rw [hzero, Bool.true_and] at hdrops
    rw [eq_of_isLiteral hzero, eval_number_binary rfl]
    exact constant_of_isDiscardable hdiscard hdrops.1 fun x w hw => Value.zero_mul hw
  | mulZero hzero hdiscard =>
    rw [hzero, Bool.true_and] at hdrops
    rw [eq_of_isLiteral hzero, eval_binary_number rfl]
    exact constant_of_isDiscardable hdiscard hdrops.2 fun x w hw => Value.mul_zero hw
  | fold => exact foldBinary_follows

/-- Quotients. -/
theorem simplify_div_follows : Follows (eval enter loops (binary .div a b))
    (eval enter loops (simplifyBinary none .div a b)) := by
  generalize hrule : simplifyBinary none .div a b = e
  cases simplifyBinary_rule hrule with
  | divOne hone =>
    rw [eq_of_isLiteral hone, eval_binary_number rfl]
    exact .same fun v _ w hw => Value.div_one hw
  | fold => exact foldBinary_follows

/-- Powers. -/
theorem simplify_pow_follows (hdrops : dropsOperand isRisky .pow a b = false) :
    Follows (eval enter loops (binary .pow a b))
      (eval enter loops (simplifyBinary none .pow a b)) := by
  rw [dropsOperand, Bool.or_eq_false_iff] at hdrops
  generalize hrule : simplifyBinary none .pow a b = e
  cases simplifyBinary_rule hrule with
  | powOne hone hreal =>
    rw [eq_of_isLiteral hone, eval_binary_number rfl]
    exact .same fun v hv w hw => Value.pow_one (type_of_isReal hreal hv) hw
  | powZero hzero hdiscard =>
    rw [hzero, Bool.true_and] at hdrops
    rw [eq_of_isLiteral hzero, eval_binary_number rfl]
    exact constant_of_isDiscardable hdiscard hdrops.1 fun x w hw => Value.pow_zero hw
  | onePow hone hdiscard =>
    rw [hone, Bool.true_and] at hdrops
    rw [eq_of_isLiteral hone, eval_number_binary rfl]
    exact constant_of_isDiscardable hdiscard hdrops.2 fun x w hw => Value.one_pow hw
  | fold => exact foldBinary_follows

/-- An operator of two operands, if no risky operand is dropped. -/
theorem simplifyBinary_follows {op : BinaryOp} (hdrops : dropsOperand isRisky op a b = false) :
    Follows (eval enter loops (binary op a b))
      (eval enter loops (simplifyBinary none op a b)) := by
  cases op with
  | add => exact simplify_add_follows
  | sub => exact simplify_sub_follows
  | mul => exact simplify_mul_follows hdrops
  | div => exact simplify_div_follows
  | pow => exact simplify_pow_follows hdrops
  | _ => exact foldBinary_follows

omit [Scalar.Exact K] in
/-- A condition that is the literal `true` is dropped. -/
theorem simplify_ifThen_follows :
    Follows (eval enter loops (ifThen a.simplify b.simplify))
      (eval enter loops (ifThen a b).simplify) := by
  show Follows _ (eval enter loops (simplifyWith none (ifThen a b)))
  rw [simplifyWith]
  split
  · next htrue =>
    rw [simplify, htrue]
    exact .refl
  · exact .refl

omit [Scalar.Exact K] in
/-- A condition that is a literal chooses its branch. -/
theorem simplify_ifThenElse_follows {c : Expr K} :
    Follows (eval enter loops (ifThenElse c.simplify a.simplify b.simplify))
      (eval enter loops (ifThenElse c a b).simplify) := by
  show Follows _ (eval enter loops (simplifyWith none (ifThenElse c a b)))
  rw [simplifyWith]
  split
  · next htrue =>
    rw [simplify, htrue]
    exact .refl
  · next hfalse =>
    rw [simplify, hfalse]
    exact .refl
  · exact .refl

/-! ## Whole trees -/

/-- What trees with `C` need for their simplification to do what they do, where the bodies of user
functions are related by `B`. -/
structure IsSafe (B : Expr K → Expr K → Prop) (C : Expr K → Prop) : Prop where
  child : ∀ {e c}, C e → c ∈ e.children → C c
  /-- No rule drops a risky operand. -/
  operand : ∀ {op a b}, C (binary op a b) → dropsOperand isRisky op a.simplify b.simplify = false
  /-- No argument of a symbolic function becomes a variable, which may stand for another tree. -/
  argument : ∀ {f a as}, f.isSymbolic = true → C (builtin f (a :: as)) →
    a.simplify.varName? = a.varName?
  derivative : ∀ {a as}, C (builtin .derivative (a :: as)) → a.KeepsDerivatives
  body : ∀ {key value}, C (define key value) → key.kind = .call → B value value.simplify

/-- **A simplified tree simulates the tree**, where the trees an evaluation leads to do. -/
theorem simplify_simulates {B : Expr K → Expr K → Prop} {C : Expr K → Prop} (hsafe : IsSafe B C)
    (hB : ∀ e, B e e) {enter' : Expr K → Eval K (Value K)}
    (henter : ∀ e e', B e e' →
      Simulates (Environment.Agrees B) Eq (fun _ => False) (enter e) (enter' e'))
    (he : C e) :
    Simulates (Environment.Agrees B) Eq (fun _ => False) (eval enter loops e)
      (eval enter' loops e.simplify) := by
  have hrespects := respects_agrees B
  have hscope {scope : Scope K} (e e' : Expr K) (h : B e e') :
      Simulates (Environment.Agrees B) Eq (fun _ => False) (inScope scope (enter e))
        (inScope scope (enter' e')) := .inScope (·.push scope) (·.pop) (henter e e' h)
  induction e using children_induction with
  | h e ih =>
    replace ih : ∀ c ∈ e.children, Simulates (Environment.Agrees B) Eq (fun _ => False)
        (eval enter loops c) (eval enter' loops c.simplify) :=
      fun c hc => ih c hc (hsafe.child he hc)
    have hlist {as : List (Expr K)} (has : ∀ a ∈ as, a ∈ e.children) :
        List.Forall₂ (fun a a' => Simulates (Environment.Agrees B) Eq (fun _ => False)
          (eval enter loops a) (eval enter' loops a')) as (as.map simplify) :=
      List.forall₂_map_right_iff.2 (List.forall₂_same.2 fun a ha => ih a (has a ha))
    cases e with
    | number | bool | polar | string | angle | var | undefine | step =>
      exact eval_simulates (.inl rfl) hB henter _
    | unary op a => exact (Simulates.unary (ih a (.head _))).trans simplifyUnary_follows
    | binary op a b =>
      exact (Simulates.binary (ih a (.head _)) (ih b (.tail _ (.head _)))).trans
        (simplifyBinary_follows (hsafe.operand he))
    | builtin f as =>
      rw [simplify, simplifyWith, simplifyList_eq_map]
      split
      · next hf =>
        match f, as with
        | .simplify, [] | .derivative, [] => exact eval_simulates (.inl rfl) hB henter _
        | .simplify, a :: as =>
          refine .simplify (fun henv => ?_) (List.length_map _)
          rw [hrespects.symbolicArgument (fun _ _ => trivial) henv]
          exact simplify_symbolicArgument (hsafe.argument hf he)
        | .derivative, a :: as =>
          refine .derivative (fun _ _ e => hscope e e (hB e)) ?_ (List.length_map _) ?_
          · rw [List.head?_map]
            exact (Simulates.deriveArgument (hrespects.symbolicArgument fun _ _ => trivial)).trans
              (deriveArgument_follows (hsafe.argument hf he) (hsafe.derivative he))
          · rw [← List.map_drop]
            exact hlist fun a ha => List.mem_cons_of_mem _ (List.mem_of_mem_drop ha)
      · next hf =>
        rw [Bool.not_eq_true] at hf
        exact (Simulates.builtin hf (hlist fun _ ha => ha)).trans (foldBuiltin_follows hf)
    | call name as =>
      rw [simplify, simplifyWith, simplifyList_eq_map]
      exact .call hrespects (fun _ => hscope) (hlist fun _ ha => ha)
    | vector as =>
      rw [simplify, simplifyWith, simplifyList_eq_map]
      exact .vector (hlist fun _ ha => ha)
    | matrix rows =>
      rw [simplify, simplifyWith, simplifyRows_eq_map]
      exact .matrix (List.forall₂_map_right_iff.2 (List.forall₂_same.2 fun row hrow =>
        hlist fun a ha => List.mem_flatten.2 ⟨row, hrow, ha⟩))
    | ifThen c a =>
      exact (Simulates.ifThen (ih c (.head _)) (ih a (.tail _ (.head _)))).trans
        simplify_ifThen_follows
    | ifThenElse c a b =>
      exact (Simulates.ifThenElse (ih c (.head _)) (ih a (.tail _ (.head _)))
        (ih b (.tail _ (.tail _ (.head _))))).trans simplify_ifThenElse_follows
    | forLoop body init c a =>
      exact .forLoop (.inl rfl) (ih body (by simp [children]))
        (ih init (by simp [children])) (ih c (by simp [children])) (ih a (by simp [children]))
    | whileLoop body c =>
      exact .whileLoop (.inl rfl) (ih body (.head _)) (ih c (.tail _ (.head _)))
    | define key value =>
      exact .define hrespects (fun _ _ => ⟨trivial, ih value (.tail _ (.head _))⟩) (hsafe.body he)
    | assign op name value => exact .assign hrespects trivial (ih value (.head _))

end Formula.Expr

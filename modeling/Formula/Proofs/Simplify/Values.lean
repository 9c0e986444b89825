import Formula.Proofs.Scalar.Real
import Formula.Proofs.Simplify.Rules

/-!
# Simplification keeps values

Where a tree has a value, its simplification has the same value, whatever the variables stand for
and whatever the operators do to it. The numbers are exact: a rule that drops a neutral operand or
two signs is an identity for numbers, complex numbers, angles, vectors and matrices alike, but not
under rounding. The trees are plain: they have no user functions, derivatives, loops and
definitions.

Plain trees are safe to simplify (`isSafe_isPlain`): they enter no other tree, so that an operand
is risky only where its type is. The types that are predicted overlook some calls that may be
complex: `dropsOverlooked` tells where such an operand is dropped, and there the type of a value can
change.
-/

namespace Formula.Expr

open Eval

variable {K : Type} {e a b : Expr K}

/-! ## Plain trees -/

/-- Neither a call of a user function nor a symbolic call, a loop or a definition. -/
def isPlainNode (e : Expr K) : Bool :=
  match e.kind with
  | .call | .forLoop | .whileLoop | .define => false
  | .builtin f => !f.isSymbolic
  | _ => true

/-- The tree has only plain nodes. -/
def isPlain (e : Expr K) : Bool := !e.occurs fun e => !e.isPlainNode

/-- A tree is plain if its root and its direct subtrees are. -/
theorem isPlain_iff :
    e.isPlain = true ↔ e.isPlainNode = true ∧ ∀ c ∈ e.children, c.isPlain = true := by
  rw [isPlain, occurs_eq, Bool.not_eq_true', Bool.or_eq_false_iff, Bool.not_eq_false',
    List.any_eq_false]
  simp only [isPlain, Bool.not_eq_true', Bool.not_eq_true]

/-- Pruning leaves a tree plain. -/
theorem isPruning_isPlain :
    IsPruning fun e e' : Expr K => e.isPlain = true → e'.isPlain = true where
  refl _ h := h
  trans h h' he := h' (h he)
  child hc h := (isPlain_iff.1 h).2 _ hc
  number _ _ := rfl
  bool _ _ := rfl
  minus h := isPlain_iff.2 ⟨rfl, List.forall_mem_singleton.2
    ((isPlain_iff.1 h).2 _ (.tail _ (.head _)))⟩
  node {e e'} hkind _ _ _ hchildren h := by
    obtain ⟨hnode, hall⟩ := isPlain_iff.1 h
    refine isPlain_iff.2 ⟨by rwa [isPlainNode, hkind], fun c' hc' => ?_⟩
    obtain ⟨i, hi, rfl⟩ := List.mem_iff_getElem.1 hc'
    exact hchildren.get (hchildren.length_eq ▸ hi) hi (hall _ (List.getElem_mem _))

variable [Scalar K] {enter : Expr K → Eval K (Value K)} {loops : Nat}

/-! ## Operands whose type is overlooked -/

/-- The tree is taken for a real number that may be dropped, and may be complex all the same. -/
def isLost (e : Expr K) : Bool := e.isDiscardable none && e.overlooks

/-- A rule for products or powers drops such an operand. -/
def losesOperand (op : BinaryOp) (a b : Expr K) : Bool :=
  match op with
  | .mul => isLiteral Scalar.zero a && b.isLost || isLiteral Scalar.zero b && a.isLost
  | .pow => isLiteral Scalar.zero b && a.isLost || isLiteral Scalar.one a && b.isLost
  | _ => false

/-- Simplification drops such an operand somewhere in the tree. -/
def dropsOverlooked (e : Expr K) : Bool := e.occurs fun
  | binary op a b => losesOperand op a.simplify b.simplify
  | _ => false

/-! ## Whole trees -/

omit [Scalar K] in
/-- A plain tree enters no other tree. -/
theorem occurs_isEntry_of_isPlain (h : e.isPlain = true) : e.occurs isEntry = false := by
  rw [isPlain, Bool.not_eq_true'] at h
  refine occurs_eq_false_of_imp (fun e he => ?_) h
  rw [isEntry, isPoint, Bool.or_eq_true, decide_eq_true_iff, Bool.and_eq_true,
    decide_eq_true_iff] at he
  rw [isPlainNode]
  rcases he with hkind | ⟨hkind, -⟩ <;> rw [hkind] <;> rfl

/-- In a plain tree an operand is risky only if its type is overlooked. -/
theorem isRisky_of_isPlain (h : e.isPlain = true) : e.isRisky = e.isLost := by
  rw [isRisky, occurs_isEntry_of_isPlain h, Bool.or_false, isLost]

/-- Plain trees are safe to simplify, as long as no operand is lost. -/
theorem isSafe_isPlain :
    IsSafe Eq fun e : Expr K => e.isPlain = true ∧ e.dropsOverlooked = false where
  child h hc := ⟨(isPlain_iff.1 h.1).2 _ hc, (occurs_eq_false h.2).2 _ hc⟩
  operand {op a b} h := by
    have hsimplified {c : Expr K} (hc : c ∈ (binary op a b).children) :
        c.simplify.isRisky = c.simplify.isLost :=
      isRisky_of_isPlain (isPruning_isPlain.simplifyWith c ((isPlain_iff.1 h.1).2 c hc))
    have hlost : losesOperand op a.simplify b.simplify = false := (occurs_eq_false h.2).1
    rw [← hlost]
    cases op <;> simp [losesOperand, dropsOperand, hsimplified (.head _),
      hsimplified (.tail _ (.head _))]
  argument hf h := by
    have hnode := (isPlain_iff.1 h.1).1
    simp [isPlainNode, kind, hf] at hnode
  derivative h := by cases (isPlain_iff.1 h.1).1
  body h := by cases (isPlain_iff.1 h.1).1

variable [Scalar.Exact K]

/-- The simplified tree has the values of the tree, with any fuel. -/
theorem evalWithin_follows (hplain : e.isPlain = true) (hdrops : e.dropsOverlooked = false) :
    ∀ fuel, Follows (e.evalWithin fuel) (e.simplify.evalWithin fuel)
  | 0 => .refl
  | _ + 1 => refines_iff.2 (simplify_simulates isSafe_isPlain (fun _ => rfl)
    (fun _ _ h => h ▸ refines_iff.1 .refl) ⟨hplain, hdrops⟩)

/-- **Simplification keeps values of every type**: where a plain tree has a value in an environment,
the simplified tree has the same value there, if numbers are exact and no operand is dropped whose
type was overlooked. Both leave the same environment. -/
theorem execute_simplify {t : Expr K} (hplain : t.isPlain = true)
    (hdrops : t.dropsOverlooked = false) {env env' : Environment K} {v : Value K}
    (h : t.execute env = (.ok v, env')) : t.simplify.execute env = (.ok v, env') := by
  refine (evalWithin_follows hplain hdrops evaluationFuel env fun f hf => ?_).trans h
  rw [← execute, h] at hf
  cases hf

/-- One times a vector of real numbers. -/
theorem execute_simplify_product :
    let t : Expr ℝ := .binary .mul (.number Scalar.one) (.var "x")
    let env : Environment ℝ := Environment.initial.push (.ofList [("x", .vector [Scalar.two])])
    t.isPlain = true ∧ t.dropsOverlooked = false ∧
      t.execute env = (.ok (.vector [Scalar.two * Scalar.one]), env) ∧
        t.simplify.execute env = (.ok (.vector [Scalar.two * Scalar.one]), env) := by
  intro t env
  have hdrops : t.dropsOverlooked = false := by
    have hvar : (var "x" : Expr ℝ).isLost = false := rfl
    simp [t, dropsOverlooked, occurs, losesOperand, simplify, simplifyWith, hvar, isLiteral,
      number?]
  exact ⟨rfl, hdrops, rfl, execute_simplify rfl hdrops rfl⟩

/-- The root of a negative number is complex, and so is its product with zero; the simplified tree
is the number zero. **Simplification can change the type of a value.** -/
theorem execute_simplify_root : ¬∀ (t : Expr Binary64) (env env' : Environment Binary64)
    (v : Value Binary64), t.isPlain = true → t.execute env = (.ok v, env') →
      ∃ w env'', t.simplify.execute env = (.ok w, env'') ∧ w.type = v.type := by
  intro h
  obtain ⟨w, env'', hw, htype⟩ := h
    (binary .mul (builtin .root [var "x", number (Scalar.ofInt 2)]) (number Scalar.zero))
    (Environment.initial.push (.ofList [("x", .number (Scalar.ofInt (-4)))])) _ _ rfl rfl
  cases hw
  cases htype

end Formula.Expr

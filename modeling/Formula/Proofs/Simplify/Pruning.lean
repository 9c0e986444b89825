import Formula.Proofs.Expr
import Formula.Proofs.Simplify.Idempotence
import Mathlib.Data.List.Forall2

/-!
# What simplification leaves of a tree

The simplifier puts literals and subtrees in place of trees and rebuilds the nodes above them. It
builds nothing else, but for the sign that takes the place of a binary operator. `IsPruning R` says
that a relation between trees includes these changes; it then holds between every tree and its
simplification.
-/

namespace Formula.Expr

variable {K : Type} {R : Expr K → Expr K → Prop}

/-- The lengths of the rows of a matrix. -/
def rowLengths : Expr K → List Nat
  | matrix rows => rows.map List.length
  | _ => []

/-- The key of a definition or a removal. -/
def key? : Expr K → Option (Expr K)
  | define key _ | undefine key => some key
  | _ => none

/-- The relation includes the changes by which trees are simplified. A node that is rebuilt from
other subtrees keeps its kind, the lengths of its rows, its key and the variable it names. -/
structure IsPruning (R : Expr K → Expr K → Prop) : Prop where
  refl : ∀ e, R e e
  trans : ∀ {e e' e''}, R e e' → R e' e'' → R e e''
  child : ∀ {e c}, c ∈ e.children → R e c
  number : ∀ {e} value, R e (number value)
  bool : ∀ {e} value, R e (bool value)
  minus : ∀ {op a b}, R (binary op a b) (unary .minus b)
  node : ∀ {e e'}, e'.kind = e.kind → e'.rowLengths = e.rowLengths → e'.key? = e.key? →
    e'.named? = e.named? → List.Forall₂ R e.children e'.children → R e e'

/-- Simplification of a list, tree by tree. -/
theorem simplifyList_eq_map [Scalar K] {assumed : TypeGuess} (as : List (Expr K)) :
    simplifyList assumed as = as.map (simplifyWith assumed) := by
  induction as with
  | nil => rfl
  | cons a as ih => rw [simplifyList, ih, List.map_cons]

/-- Simplification of rows, row by row. -/
theorem simplifyRows_eq_map [Scalar K] {assumed : TypeGuess} (rows : List (List (Expr K))) :
    simplifyRows assumed rows = rows.map (·.map (simplifyWith assumed)) := by
  induction rows with
  | nil => rfl
  | cons row rows ih => rw [simplifyRows, simplifyList_eq_map, ih, List.map_cons]

namespace IsPruning

variable (h : IsPruning R) [Scalar K] {a b e : Expr K}

include h

/-- A literal. -/
theorem literalOr {result : Result K (Value K)} : R e (literalOr e result) := by
  unfold Expr.literalOr
  split
  · split
    · exact h.number _
    · exact h.refl e
  · exact h.bool _
  · exact h.refl e

/-- An operator evaluated on a literal. -/
theorem foldUnary {op : UnaryOp} : R (unary op a) (foldUnary op a) := by
  unfold Expr.foldUnary
  split
  · exact h.literalOr
  · exact h.refl _

/-- An operator evaluated on literals. -/
theorem foldBinary {op : BinaryOp} : R (binary op a b) (foldBinary op a b) := by
  unfold Expr.foldBinary
  split
  · exact h.literalOr
  · exact h.refl _

/-- A function evaluated on literals. -/
theorem foldBuiltin {f : Builtin} {as : List (Expr K)} :
    R (builtin f as) (foldBuiltin f as) := by
  unfold Expr.foldBuiltin
  split
  · exact h.literalOr
  · exact h.refl _

/-- A sign. -/
theorem negated : R (unary .minus a) a.negated := by
  unfold Expr.negated
  split
  · exact h.trans (h.child (.head _)) (h.child (.head _))
  · exact h.number _
  · exact h.refl _

/-- A unary operator. -/
theorem simplifyUnary {op : UnaryOp} : R (unary op a) (simplifyUnary op a) := by
  unfold Expr.simplifyUnary
  split
  · exact h.negated
  · exact h.trans (h.child (.head _)) (h.child (.head _))
  · exact h.foldUnary

/-- A binary operator. -/
theorem simplifyBinary {assumed : TypeGuess} {op : BinaryOp} :
    R (binary op a b) (simplifyBinary assumed op a b) := by
  generalize hrule : Expr.simplifyBinary assumed op a b = e
  cases simplifyBinary_rule hrule with
  | addZero | subZero | mulOne | divOne | powOne => exact h.child (.head _)
  | zeroAdd | oneMul => exact h.child (.tail _ (.head _))
  | zeroSub => exact h.trans h.minus h.negated
  | zeroMul | mulZero | powZero | onePow => exact h.number _
  | fold => exact h.foldBinary

/-- **Simplification prunes a tree.** -/
theorem simplifyWith {assumed : TypeGuess} (e : Expr K) : R e (simplifyWith assumed e) := by
  have hmap {as : List (Expr K)} (has : ∀ a ∈ as, R a (a.simplifyWith assumed)) :
      List.Forall₂ R as (as.map (Expr.simplifyWith assumed)) :=
    List.forall₂_map_right_iff.2 (List.forall₂_same.2 has)
  induction e using Expr.induction with
  | number | bool | polar | string | angle | var | undefine | step => exact h.refl _
  | unary op a ha =>
    have hnode : R (unary op a) (unary op (a.simplifyWith assumed)) :=
      h.node rfl rfl rfl rfl (.cons ha .nil)
    exact h.trans hnode h.simplifyUnary
  | binary op a b ha hb =>
    have hnode : R (binary op a b) (binary op (a.simplifyWith assumed) (b.simplifyWith assumed)) :=
      h.node rfl rfl rfl rfl (.cons ha (.cons hb .nil))
    exact h.trans hnode h.simplifyBinary
  | builtin f as has =>
    have hnode : R (builtin f as) (builtin f (as.map (Expr.simplifyWith assumed))) :=
      h.node rfl rfl rfl rfl (hmap has)
    rw [Expr.simplifyWith, simplifyList_eq_map]
    split
    · exact hnode
    · exact h.trans hnode h.foldBuiltin
  | call f as has =>
    rw [Expr.simplifyWith, simplifyList_eq_map]
    exact h.node rfl rfl rfl rfl (hmap has)
  | vector as has =>
    rw [Expr.simplifyWith, simplifyList_eq_map]
    exact h.node rfl rfl rfl rfl (hmap has)
  | matrix rows hrows =>
    rw [Expr.simplifyWith, simplifyRows_eq_map]
    refine h.node rfl ?_ rfl rfl ?_
    · simp [rowLengths]
    rw [children, children, ← List.map_flatten]
    refine hmap fun a ha => ?_
    obtain ⟨row, hrow, ha⟩ := List.mem_flatten.1 ha
    exact hrows row hrow a ha
  | ifThen c a hc ha =>
    rw [Expr.simplifyWith]
    split
    · exact h.trans (h.child (.tail _ (.head _))) ha
    · exact h.node rfl rfl rfl rfl (.cons hc (.cons ha .nil))
  | ifThenElse c a b hc ha hb =>
    rw [Expr.simplifyWith]
    split
    · exact h.trans (h.child (.tail _ (.head _))) ha
    · exact h.trans (h.child (.tail _ (.tail _ (.head _)))) hb
    · exact h.node rfl rfl rfl rfl (.cons hc (.cons ha (.cons hb .nil)))
  | forLoop body init c a hbody hinit hc ha =>
    exact h.node rfl rfl rfl rfl (.cons hbody (.cons hinit (.cons hc (.cons ha .nil))))
  | whileLoop body c hbody hc => exact h.node rfl rfl rfl rfl (.cons hbody (.cons hc .nil))
  | define key value _ hvalue =>
    exact h.node rfl rfl rfl rfl (.cons (h.refl key) (.cons hvalue .nil))
  | assign op name value hvalue => exact h.node rfl rfl rfl rfl (.cons hvalue .nil)

end IsPruning

/-- Pruning brings in no variable. -/
theorem isPruning_hasVariable (x : String) :
    IsPruning fun e e' : Expr K => e.hasVariable x = false → e'.hasVariable x = false where
  refl _ h := h
  trans h h' he := h' (h he)
  child hc h := Bool.eq_false_iff.2 (List.any_eq_false.1 (any_hasVariable_children h) _ hc)
  number _ _ := rfl
  bool _ _ := rfl
  minus h := (Bool.or_eq_false_iff.1 h).2
  node {e e'} _ _ _ hnamed hchildren h := by
    rw [hasVariable_eq, Bool.or_eq_false_iff, List.any_eq_false] at h ⊢
    refine ⟨hnamed ▸ h.1, fun c' hc' => ?_⟩
    obtain ⟨i, hi, rfl⟩ := List.mem_iff_getElem.1 hc'
    rw [Bool.not_eq_true]
    exact hchildren.get (hchildren.length_eq ▸ hi) hi
      (Bool.eq_false_iff.2 (h.2 _ (List.getElem_mem _)))

/-- Simplification brings in no variable. -/
theorem hasVariable_simplifyWith [Scalar K] {assumed : TypeGuess} {x : String} {e : Expr K}
    (h : e.hasVariable x = false) : (e.simplifyWith assumed).hasVariable x = false :=
  (isPruning_hasVariable x).simplifyWith e h

end Formula.Expr

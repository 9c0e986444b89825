import Formula.Binary64.Scalar
import Formula.Proofs.Derivative
import Formula.Proofs.Simplify.Pruning
import Mathlib.Algebra.GroupWithZero.Nat
import Mathlib.Algebra.Order.BigOperators.Group.List
import Mathlib.Algebra.Order.Group.Nat

/-!
# What symbolic passes bring into a tree

Nothing: a simplified tree is no larger than the tree (`isPruning_size`), and neither simplification
nor differentiation brings in a variable (`passes_add_nothing`). Derivatives do grow, since their
rules copy operands, but every operand that is copied is a part of the tree.
-/

namespace Formula.Expr

variable {K : Type}

/-! ## The size of a tree -/

mutual

/-- The number of nodes of a tree. -/
def size : Expr K → Nat
  | number _ | bool _ | polar _ _ | string _ | angle _ | var _ | step _ _ => 1
  | unary _ a | undefine a | assign _ _ a => size a + 1
  | binary _ a b | ifThen a b | whileLoop a b | define a b => size a + size b + 1
  | builtin _ as | call _ as | vector as => sizeList as + 1
  | matrix rows => sizeRows rows + 1
  | ifThenElse a b c => size a + size b + size c + 1
  | forLoop a b c d => size a + size b + size c + size d + 1

/-- `size` over a list of trees. -/
def sizeList : List (Expr K) → Nat
  | [] => 0
  | a :: as => size a + sizeList as

/-- `size` over the rows of a matrix. -/
def sizeRows : List (List (Expr K)) → Nat
  | [] => 0
  | row :: rows => sizeList row + sizeRows rows

end

/-- The nodes of a list are those of its members. -/
theorem sizeList_eq_sum (as : List (Expr K)) : sizeList as = (as.map size).sum := by
  induction as with
  | nil => rfl
  | cons a as ih => rw [sizeList, ih, List.map_cons, List.sum_cons]

/-- The nodes of rows are those of all their members. -/
theorem sizeRows_eq_sum (rows : List (List (Expr K))) :
    sizeRows rows = (rows.flatten.map size).sum := by
  induction rows with
  | nil => rfl
  | cons row rows ih =>
    rw [sizeRows, sizeList_eq_sum, ih, List.flatten_cons, List.map_append, List.sum_append]

/-- A tree has the nodes of its direct subtrees and its root. -/
theorem size_eq (e : Expr K) : e.size = (e.children.map size).sum + 1 := by
  cases e <;> simp [size, children, sizeList_eq_sum, sizeRows_eq_sum, Nat.add_assoc]

/-- A tree has a node. -/
theorem size_pos (e : Expr K) : 0 < e.size := by
  rw [size_eq]
  exact Nat.succ_pos _

/-- A direct subtree is smaller. -/
theorem size_lt_of_mem_children {e c : Expr K} (hc : c ∈ e.children) : c.size < e.size := by
  rw [size_eq e]
  exact Nat.lt_succ_of_le (List.le_sum_of_mem (List.mem_map_of_mem hc))

/-! ## Simplification -/

/-- Pruning makes no tree larger. -/
theorem isPruning_size : IsPruning fun e e' : Expr K => e'.size ≤ e.size where
  refl _ := Nat.le_refl _
  trans h h' := Nat.le_trans h' h
  child hc := Nat.le_of_lt (size_lt_of_mem_children hc)
  number _ := size_pos _
  bool _ := size_pos _
  minus {op a b} := by
    rw [size, size]
    omega
  node {e e'} _ _ _ _ hchildren := by
    rw [size_eq e, size_eq e']
    have hsizes : List.Forall₂ (· ≤ ·) (e'.children.map size) (e.children.map size) := by
      rw [List.forall₂_map_left_iff, List.forall₂_map_right_iff]
      exact hchildren.flip
    exact Nat.succ_le_succ hsizes.sum_le_sum

/-- A simplified tree is no larger than the tree. -/
theorem size_simplifyWith_le [Scalar K] {assumed : TypeGuess} (e : Expr K) :
    (e.simplifyWith assumed).size ≤ e.size := isPruning_size.simplifyWith e

/-! ## All passes -/

/-- **Symbolic passes invent nothing.** A variable that does not occur in a tree occurs in neither
simplification of it, nor in a derivative by any variable, and no simplification has more nodes
than the tree. -/
theorem passes_add_nothing [Scalar K] (x y : String) (e : Expr K) :
    (e.hasVariable y = false →
      e.simplify.hasVariable y = false ∧ e.simplifyReal.hasVariable y = false ∧
        ∀ d, e.derivative x = .ok d → d.hasVariable y = false) ∧
    e.simplify.size ≤ e.size ∧ e.simplifyReal.size ≤ e.size := by
  refine ⟨fun hy => ?_, size_simplifyWith_le e, size_simplifyWith_le e⟩
  exact ⟨hasVariable_simplifyWith hy, hasVariable_simplifyWith hy,
    fun _ hd => hasVariable_derivative hy hd⟩

/-- The power `x ^ sin z`, whose derivative by `x` copies both of its operands. -/
theorem passes_add_nothing_power :
    let e : Expr Binary64 := .binary .pow (.var "x") (.builtin .sin [.var "z"])
    e.hasVariable "y" = false ∧ e.simplify.hasVariable "y" = false ∧
      ∃ d, e.derivative "x" = .ok d ∧ d.hasVariable "y" = false ∧ e.size < d.size := by
  intro e
  have hy : e.hasVariable "y" = false := by decide
  obtain ⟨hvariable, -, -⟩ := passes_add_nothing "x" "y" e
  obtain ⟨hsimplify, -, hderivative⟩ := hvariable hy
  exact ⟨hy, hsimplify, _, rfl, hderivative _ rfl, by decide⟩

end Formula.Expr

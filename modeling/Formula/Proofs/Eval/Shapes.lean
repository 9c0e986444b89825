import Formula.Binary64.Scalar
import Formula.Proofs.Eval.Invariants
import Formula.Proofs.Value.Elimination

/-!
# Matrices stay rectangular

Well-formed trees evaluate to shaped values wherever the environment stores shaped values and
well-formed functions (`evaluation_keeps_shapes`), and not only in the end: it is so for every
evaluation that one consists of, so also for what is bound on the way and for the arguments of
calls. What the routines on matrices are handed is rectangular therefore, and with a rectangular
matrix none of them uses an index that is out of range.
-/

namespace Formula

open Formula.Expr

variable {K : Type}

/-- Vectors and matrices in the environment have shapes, and its functions are well formed. -/
abbrev Environment.Shaped (env : Environment K) : Prop :=
  env.Stores Value.Shaped Expr.WellFormed

/-- Vectors and matrices that are written down have elements and rows of one length. -/
theorem Expr.WellFormed.collects {e : Expr K} (he : e.WellFormed) : e.Collects Value.Shaped := by
  have hbuilt : e.IsBuilt := he.root
  cases e with
  | vector as =>
    intro values hlength
    exact List.ne_nil_of_length_pos (hlength ▸ List.length_pos_iff.2 hbuilt)
  | matrix rows =>
    intro values hlengths
    exact IsRectangular.of_lengths hbuilt hlengths
  | _ => trivial

variable [Scalar K]

/-- Evaluations of well-formed trees keep shapes. -/
theorem invariant_shaped :
    Invariant (WellFormed : Expr K → Prop) Value.Shaped (fun _ env => env.Shaped)
      fun _ => True :=
  invariant_stores Value.closed_shaped (fun _ => .rfl) (·.collects) (fun _ => trivial) trivial

/-- **Every vector has elements and every matrix is rectangular**, wherever an evaluation comes to:
in the environments before and after each evaluation that it consists of, and in their values. **No
index is out of range** where the routines on matrices get rectangular ones. -/
theorem evaluation_keeps_shapes {e : Expr K} {env : Environment K} (he : e.WellFormed)
    (henv : env.Shaped) :
    (∀ fuel r, (Run.mk fuel e env).Involves r →
      r.env.Shaped ∧ r.after.Shaped ∧ ∀ v, r.result = .ok v → v.Shaped) ∧
    ∀ m : List (List K), (Value.matrix m).Shaped →
      Matrix.InPlace.transpose m = some (Matrix.transpose m) ∧
      (∀ m' : List (List K), (Value.matrix m').Shaped →
        Matrix.InPlace.multiply m m' = some (Matrix.multiply m m')) ∧
      Matrix.InPlace.determinant m = some (Matrix.determinant m) ∧
      Matrix.InPlace.inverse m = some (Matrix.inverse m) := by
  constructor
  · intro fuel r hr
    obtain ⟨htree, n, hn, hbefore⟩ := invariant_shaped.involves hr Nat.one_pos he henv
    have hkeeps := invariant_shaped.evalWithin r.fuel hn htree
    exact ⟨hbefore, hkeeps.environment hbefore, fun v hv => hkeeps.value hbefore hv⟩
  · intro m hm
    exact ⟨Matrix.InPlace.transpose_eq hm, fun m' hm' => Matrix.InPlace.multiply_eq hm',
      Matrix.InPlace.determinant_eq m, Matrix.InPlace.inverse_eq m⟩

/-- The inverse of a matrix that a variable stands for, times a matrix that is written down. -/
theorem evaluation_keeps_shapes_product :
    let a : List (List Binary64) := [[Scalar.two, Scalar.one], [Scalar.one, Scalar.one]]
    let env : Environment Binary64 := Environment.initial.push (.ofList [("a", .matrix a)])
    let e : Expr Binary64 := .binary .mul (.builtin .inverse [.var "a"])
      (.matrix [[.number Scalar.one], [.number Scalar.two]])
    e.WellFormed ∧ env.Shaped ∧ (Value.matrix a).Shaped ∧
      (∃ rows, (Run.mk 1 e env).result = .ok (.matrix rows) ∧ IsRectangular rows) ∧
        Matrix.InPlace.inverse a = some (Matrix.inverse a) := by
  have hdone : ((Run.mk 1 (.binary .mul (.builtin .inverse [.var "a"])
      (.matrix [[.number Scalar.one], [.number Scalar.two]]) : Expr Binary64)
      (Environment.initial.push (.ofList [("a", .matrix
        [[Scalar.two, Scalar.one], [Scalar.one, Scalar.one]])]))).result.toOption.any
          (·.type = .matrix)) = true := by
    decide +kernel
  intro a env e
  have ha : (Value.matrix a).Shaped := ⟨2, 2, by decide, by decide, rfl, by simp [a]⟩
  have he : e.WellFormed := by
    have hinverse : (Expr.builtin .inverse [.var "a"] : Expr Binary64).WellFormed :=
      .node rfl (List.forall_mem_singleton.2 (.node trivial nofun))
    have hmatrix : (Expr.matrix [[.number Scalar.one], [.number Scalar.two]] :
        Expr Binary64).WellFormed :=
      .node ⟨2, 1, by decide, by decide, rfl, by simp⟩ (List.forall_mem_cons.2
        ⟨WellFormed.number _, List.forall_mem_singleton.2 (WellFormed.number _)⟩)
    exact .node trivial (List.forall_mem_cons.2 ⟨hinverse, List.forall_mem_singleton.2 hmatrix⟩)
  have henv : env.Shaped := by
    refine Environment.Stores.push (.initial (fun _ => trivial) fun _ => trivial) ?_
    exact .ofList (List.forall_mem_singleton.2 ha)
  obtain ⟨hruns, hroutines⟩ := evaluation_keeps_shapes he henv
  refine ⟨he, henv, ha, ?_, (hroutines a ha).2.2.2⟩
  obtain ⟨-, -, hshaped⟩ := hruns 1 _ .refl
  replace hdone : ((Run.mk 1 e env).result.toOption.any (·.type = .matrix)) = true := hdone
  revert hdone hshaped
  generalize (Run.mk 1 e env).result = result
  intro hshaped hdone
  cases result with
  | error => cases hdone
  | ok v =>
    cases v with
    | matrix rows => exact ⟨rows, rfl, hshaped _ rfl⟩
    | _ => cases hdone

end Formula

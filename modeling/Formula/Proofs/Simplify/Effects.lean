import Formula.Binary64.Scalar
import Formula.Proofs.Scalar.Real
import Formula.Proofs.Simplify.Rules

/-!
# Simplification keeps side effects

Executing a simplified tree leaves every variable as executing the tree does, and gives the same
value, whatever the tree is: user functions, derivatives, loops and definitions included. Only the
bodies of the functions that the tree defines are simplified as well, so that the two environments
agree but for such bodies (`Simplified`). The induction is over the fuel, and inside of it over the
tree (`simplify_simulates`).

Three things are asked of every node (`LosesNothing`), and each of them can fail. The simplifier
takes a call of a user function or a derivative at a point for a tree without effects and drops it
(`execute_simplify_dropped_call`). It drops a call of `root` or `log` that it takes for real. And it
simplifies the argument of a symbolic function, which can turn it into a variable that stands for
another tree, or give it another derivative.
-/

namespace Formula.Expr

open Eval

variable {K : Type} [Scalar K] {e : Expr K}

/-- Simplifying the node loses nothing: no rule drops a risky operand, no argument of a symbolic
function becomes a variable, and the argument of a derivative keeps its derivatives. -/
def LosesNothing : Expr K → Prop
  | binary op a b => dropsOperand isRisky op a.simplify b.simplify = false
  | builtin .simplify (a :: _) => a.simplify.varName? = a.varName?
  | builtin .derivative (a :: _) => a.simplify.varName? = a.varName? ∧ a.KeepsDerivatives
  | _ => True

/-- The same tree, or its simplification if that loses nothing. -/
def Simplified (e e' : Expr K) : Prop :=
  e' = e ∨ e.Everywhere LosesNothing ∧ e' = e.simplify

/-- Trees whose simplification loses nothing are safe to simplify, with the bodies of the functions
they define. -/
theorem isSafe_everywhere_losesNothing :
    IsSafe Simplified fun e : Expr K => e.Everywhere LosesNothing where
  child h hc := h.child _ hc
  operand h := h.root
  argument {f a as} hf h := by
    cases f with
    | simplify => exact h.root
    | derivative => exact h.root.1
    | _ => cases hf
  derivative h := h.root.2
  body h _ := .inr ⟨h.child _ (.tail _ (.head _)), rfl⟩

variable [Scalar.Exact K]

/-- A simplified tree simulates the tree with any fuel. -/
theorem evalWithin_simulates : ∀ (fuel : Nat) {e e' : Expr K}, Simplified e e' →
    Simulates (Environment.Agrees Simplified) Eq (fun _ => False) (e.evalWithin fuel)
      (e'.evalWithin fuel)
  | 0, _, _, _ => .throw _
  | fuel + 1, e, _, h => by
    have henter (e e' : Expr K) (h : Simplified e e') :=
      evalWithin_simulates fuel h
    rcases h with rfl | ⟨h, rfl⟩
    · exact eval_simulates (.inl rfl) (fun _ => .inl rfl) henter _
    · exact simplify_simulates isSafe_everywhere_losesNothing (fun _ => .inl rfl) henter h

/-- **Simplification keeps side effects**, those of user functions included: where a tree has a
value, executing the simplified tree gives that value and leaves every variable in every scope as
executing the tree does, if numbers are exact and simplification loses nothing. -/
theorem execute_simplify_scopes {t : Expr K} (h : t.Everywhere LosesNothing)
    {env after : Environment K} {v : Value K} (hv : t.execute env = (.ok v, after)) :
    ∃ after', t.simplify.execute env = (.ok v, after') ∧ after'.scopes = after.scopes ∧
      after'.constants = after.constants := by
  obtain ⟨_, after', hafter', rfl, hagrees⟩ :=
    (evalWithin_simulates evaluationFuel (.inr ⟨h, rfl⟩)).value (.refl (fun _ => .inl rfl) env) hv
  exact ⟨after', hafter', hagrees.scopes, hagrees.constants⟩

/-- One times a call of a function that counts. -/
theorem execute_simplify_scopes_count :
    let t : Expr ℝ := .binary .mul (.number Scalar.one) (.call "f" [.number Scalar.two])
    let env (n : ℝ) : Environment ℝ :=
      (Environment.initial.defineFunction "f" ⟨["a"], .assign .add "n" (.var "a")⟩).push
        (.ofList [("n", .number n)])
    let n : ℝ := Scalar.one + Scalar.two
    t.Everywhere LosesNothing ∧
      t.execute (env Scalar.one) = (.ok (.number (Scalar.one * n)), env n) ∧
        ∃ after, t.simplify.execute (env Scalar.one) = (.ok (.number (Scalar.one * n)), after) ∧
          after.scopes = (env n).scopes ∧ after.constants = (env n).constants := by
  intro t env n
  have hleaf {e : Expr ℝ} (he : LosesNothing e) (hchildren : e.children = []) :
      e.Everywhere LosesNothing := .node he (by simp [hchildren])
  have hcall : (Expr.call "f" [.number Scalar.two] : Expr ℝ).Everywhere LosesNothing :=
    .node trivial (List.forall_mem_singleton.2 (hleaf trivial rfl))
  have hdrops : LosesNothing t := by
    have hrisky : isRisky (Expr.call "f" [.number Scalar.two] : Expr ℝ) = false := rfl
    simp [t, LosesNothing, dropsOperand, simplify, simplifyWith, simplifyList, hrisky, isLiteral,
      number?]
  have ht : t.Everywhere LosesNothing :=
    .node hdrops (List.forall_mem_cons.2
      ⟨hleaf trivial rfl, List.forall_mem_singleton.2 hcall⟩)
  exact ⟨ht, rfl, execute_simplify_scopes ht rfl⟩

/-- A call that counts is dropped from a product with zero: **simplification can lose a side
effect**. -/
theorem execute_simplify_dropped_call : ¬∀ (t : Expr Binary64)
    (env after after' : Environment Binary64) (v w : Value Binary64),
    t.execute env = (.ok v, after) → t.simplify.execute env = (.ok w, after') →
      ∀ name, after'.scopes.map (·.get? name) = after.scopes.map (·.get? name) := by
  intro h
  have hcall := h
    (.binary .mul (.builtin .re [.call "f" [.number Scalar.one]]) (.number Scalar.zero))
    ((Environment.initial.defineFunction "f" ⟨["a"], .assign .add "n" (.var "a")⟩).push
      (.ofList [("n", .number Scalar.one)])) _ _ _ _ rfl rfl "n"
  cases hcall

end Formula.Expr

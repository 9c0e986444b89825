import Formula.Binary64.Scalar
import Formula.Proofs.Eval.Invariants

/-!
# Every scope is closed

An evaluation leaves as many scopes open as it finds, with a value and with any failure. Calls and
derivatives at a point open one scope each and close it on every way out; nothing else changes how
many are open.
-/

namespace Formula.Expr

open Eval

variable {K α : Type} {n : Nat}

/-- The computation leaves `n` scopes open where it finds `n`, however it ends. -/
abbrev KeepsDepth (n : Nat) (x : Eval K α) : Prop :=
  Keeps (fun env => env.depth = n) (fun _ => True) (fun _ => True) x

/-- The operations keep the number of open scopes, but for those that open and close one. -/
theorem stable_depth : Environment.Stable fun n (env : Environment K) => env.depth = n where
  set henv h := (Environment.depth_set h).trans henv
  remove henv h := (Environment.depth_remove h).trans henv
  defineFunction henv := henv
  removeFunction henv := henv
  push _ henv := congrArg Nat.succ henv
  pop hn henv := Environment.depth_pop henv hn

variable [Scalar K]

/-- A tree is evaluated at the depth at which it is found, with any fuel. -/
theorem evalWithin_keepsDepth (fuel : Nat) (hn : 0 < n) (e : Expr K) :
    KeepsDepth n (e.evalWithin fuel) := stable_depth.invariant.evalWithin fuel hn trivial

/-- **Evaluating a tree leaves as many scopes open as it finds**, whether it ends with a value or
with an error raised at any depth. -/
theorem depth_execute (e : Expr K) {env : Environment K} (h : 0 < env.depth) :
    (e.execute env).2.depth = env.depth :=
  (evalWithin_keepsDepth evaluationFuel h e).environment rfl

/-- The derivative of the sine at a truth value fails inside of the scope that it opens. -/
theorem depth_execute_derivative :
    let e : Expr Binary64 := .builtin .derivative [.builtin .sin [.var "x"], .var "x", .bool true]
    0 < (Environment.initial : Environment Binary64).depth ∧
      (e.execute .initial).1 = .error (.error (.unsupported "cos" [.boolean])) ∧
        (e.execute .initial).2.depth = (Environment.initial : Environment Binary64).depth :=
  ⟨Nat.one_pos, rfl, depth_execute _ Nat.one_pos⟩

end Formula.Expr

import Formula.Binary64.Scalar
import Formula.Proofs.Eval.Invariants

/-!
# Errors that well-formed trees do not raise

Some checks of the evaluator and of the differentiator only guard against trees that the
constructors would not build. Where the tree is well formed, and so are the functions that the
environment stores, no evaluation fails in one of them (`defensive_errors_unreachable`), although
calls, simplifications and derivatives lead it to trees that are made on the way. A derivative is
missing only for want of a rule.
-/

namespace Formula

open Formula.Expr

variable {K : Type}

/-- A function value is a well-formed tree. -/
def Value.IsWellFormed : Value K → Prop
  | function tree => tree.WellFormed
  | _ => True

/-- All functions of the environment are well formed, those that are values and those that are
called. -/
abbrev Environment.HasWellFormed (env : Environment K) : Prop :=
  env.Stores Value.IsWellFormed Expr.WellFormed

/-- A failure that is no defensive error. -/
def Failure.IsOrdinary (f : Failure K) : Prop :=
  ∀ cause, f = .error cause → cause.isDefensive = false

/-- Values that are no trees hold none. -/
theorem Value.isWellFormed_of_plain {v : Value K} (h : v.type ≠ .function) : v.IsWellFormed := by
  cases v with
  | function => exact absurd rfl h
  | _ => trivial

variable [Scalar K]

/-- Evaluations of well-formed trees find and leave well-formed functions, and fail in no defensive
check. -/
theorem invariant_wellFormed :
    Invariant (WellFormed : Expr K → Prop) Value.IsWellFormed (fun _ env => env.HasWellFormed)
      Failure.IsOrdinary :=
  invariant_stores (.of_plain Value.isWellFormed_of_plain) (fun _ => .rfl)
    (fun _ => collects_of_plain Value.isWellFormed_of_plain _)
    (fun hordinary _ hcause => by cases hcause; exact hordinary) nofun

/-- **Well-formed trees raise no defensive error.** A derivative of one is there, or it is missing
for want of a rule for a node that mentions the variable; and where all functions of an environment
are well formed, an evaluation in it that fails does so for a reason that lies in the values and
names, or for want of a rule of differentiation. -/
theorem Expr.defensive_errors_unreachable {e : Expr K} (he : e.WellFormed) :
    (∀ x, (∃ d, e.derivative x = .ok d) ∨ ∃ kind, e.derivative x = .error (.noRule kind) ∧
      e.occurs (fun s => s.kind = kind && s.hasVariable x) = true) ∧
    ∀ env : Environment K, env.HasWellFormed → ∀ cause,
      (e.execute env).1 = .error (.error cause) → cause.isDefensive = false := by
  constructor
  · intro x
    cases hd : e.derivative x with
    | ok d => exact .inl ⟨d, rfl⟩
    | error cause =>
      obtain ⟨kind, rfl, hkind⟩ := derivative_eq_error hd
      exact .inr ⟨kind, rfl, hkind⟩
  · intro env henv cause hcause
    have hkeeps := invariant_wellFormed.evalWithin evaluationFuel Nat.one_pos he
    exact hkeeps.failure henv hcause cause rfl

/-- A function value without a derivative, found through the name that it is bound to. -/
theorem Expr.defensive_errors_unreachable_gcd :
    let tree : Expr Binary64 := .binary .mul (.var "x") (.builtin .gcd [.var "x", .var "n"])
    let env : Environment Binary64 := Environment.initial.push (.ofList [("g", .function tree)])
    let e : Expr Binary64 := .builtin .derivative [.var "g", .var "x"]
    let cause : RuntimeError Binary64 := .differentiation (.noRule (.builtin .gcd))
    tree.WellFormed ∧ e.WellFormed ∧ env.HasWellFormed ∧
      tree.occurs (fun s => s.kind = .builtin .gcd && s.hasVariable "x") = true ∧
        (e.execute env).1 = .error (.error cause) ∧ cause.isDefensive = false := by
  intro tree env e cause
  have hvar (name : String) : (Expr.var name : Expr Binary64).WellFormed := .node trivial nofun
  have htwo {a b : Expr Binary64} (ha : a.WellFormed) (hb : b.WellFormed) :
      ∀ c ∈ [a, b], c.WellFormed :=
    List.forall_mem_cons.2 ⟨ha, List.forall_mem_singleton.2 hb⟩
  have htree : tree.WellFormed :=
    .node trivial (htwo (hvar "x") (.node rfl (htwo (hvar "x") (hvar "n"))))
  have he : e.WellFormed := .node rfl (htwo (hvar "g") (hvar "x"))
  have henv : env.HasWellFormed := by
    refine Environment.Stores.push (.initial (fun _ => trivial) fun _ => trivial) ?_
    exact .ofList (List.forall_mem_singleton.2 htree)
  have hcause : (e.execute env).1 = .error (.error cause) := rfl
  have hkind : tree.occurs (fun s => s.kind = .builtin .gcd && s.hasVariable "x") = true := by
    obtain ⟨hderivative, -⟩ := Expr.defensive_errors_unreachable htree
    obtain ⟨d, hd⟩ | ⟨kind, hd, hkind⟩ := hderivative "x"
    · cases hd
    · cases hd
      exact hkind
  exact ⟨htree, he, henv, hkind, hcause,
    (Expr.defensive_errors_unreachable he).2 env henv cause hcause⟩

end Formula

import Formula.Evaluate

/-!
# What evaluations yield

`x.Yields a` says that the evaluation `x` gives the value `a` in some environment, whatever it
does to it. It forgets the environments, so that a sequence yields what its last part yields for a
value the first part yields, and a fact about the values of all trees needs no fact about names.
-/

namespace Formula

namespace Eval

variable {K α β : Type}

/-- A sequence goes on with the value of its first part. -/
theorem run_bind_ok {x : Eval K α} {f : α → Eval K β} {env env' : Environment K} {a : α}
    (h : x.run env = (.ok a, env')) : (x >>= f).run env = (f a).run env' := by
  change (ExceptT.bindCont f (x.run env).1) (x.run env).2 = _
  rw [h]
  rfl

/-- A sequence fails with its first part. -/
theorem run_bind_error {x : Eval K α} {f : α → Eval K β} {env env' : Environment K}
    {e : Failure K} (h : x.run env = (.error e, env')) : (x >>= f).run env = (.error e, env') := by
  change (ExceptT.bindCont f (x.run env).1) (x.run env).2 = _
  rw [h]
  rfl

section

variable {name : String} {v : Value K} {env env' : Environment K}

end

/-- A sequence of results. -/
theorem ofResult_bind (r : Result K α) (f : α → Result K β) :
    ofResult (r >>= f) = ofResult r >>= fun a => ofResult (f a) := by
  cases r <;> rfl

/-- The evaluation gives this value in some environment. -/
def Yields (x : Eval K α) (a : α) : Prop := ∃ env env', x.run env = (.ok a, env')

/-- A constant yields itself. -/
theorem Yields.eq_of_pure {a b : α} (h : (pure a : Eval K α).Yields b) : b = a := by
  obtain ⟨env, env', h⟩ := h
  cases h
  rfl

/-- A sequence yields through a value of its first part. -/
theorem Yields.of_bind {x : Eval K α} {f : α → Eval K β} {b : β} (h : (x >>= f).Yields b) :
    ∃ a, x.Yields a ∧ (f a).Yields b := by
  obtain ⟨env, env', h⟩ := h
  rcases hx : x.run env with ⟨e | a, env₁⟩
  · rw [run_bind_error hx] at h
    cases h
  · rw [run_bind_ok hx] at h
    exact ⟨a, ⟨env, env₁, hx⟩, env₁, env', h⟩

/-- A failure yields nothing. -/
theorem not_yields_throw {e : Failure K} {a : α} : ¬(throw e : Eval K α).Yields a := by
  rintro ⟨env, env', h⟩
  cases h

/-- A failure yields nothing. -/
theorem not_yields_fail {cause : RuntimeError K} {a : α} : ¬(fail cause : Eval K α).Yields a :=
  not_yields_throw

/-- A result yields its value. -/
theorem Yields.of_ofResult {x : Result K α} {a : α} (h : (ofResult x).Yields a) : x = .ok a := by
  cases x with
  | ok b => rw [h.eq_of_pure]
  | error cause => exact absurd h not_yields_throw

end Eval

namespace Expr

open Eval

variable {K : Type} [Scalar K] {enter : Expr K → Eval K (Value K)} {loops : Nat}

/-! ## Calls -/

/-- Outside the symbolic functions a built-in call evaluates its arguments. -/
theorem eval_builtin {f : Builtin} (hf : f.isSymbolic = false) (as : List (Expr K)) :
    eval enter loops (.builtin f as) = (do
      checkArity f as.length
      ofResult (Value.applyBuiltin f (← evalList enter loops as))) := by
  cases f with
  | derivative | simplify => cases hf
  | _ => rfl

omit [Scalar K] in
theorem accepts_between {m n count : Nat} :
    (Arity.between m n).accepts count = true ↔ m ≤ count ∧ count ≤ n := by
  rw [Arity.accepts, Bool.and_eq_true]
  exact and_congr decide_eq_true_iff decide_eq_true_iff

omit [Scalar K] in
/-- A checked number of arguments is accepted. -/
theorem accepts_of_checkArity {f : Builtin} {count : Nat}
    (h : (checkArity f count : Eval K Unit).Yields ()) : f.arity.accepts count = true := by
  unfold checkArity at h
  split at h
  · assumption
  · exact absurd h not_yields_fail

/-- As many values as trees. -/
theorem evalList_length : ∀ {as : List (Expr K)} {vs : List (Value K)},
    (evalList enter loops as).Yields vs → as.length = vs.length
  | [], _, h => by
    cases h.eq_of_pure
    rfl
  | _ :: as, _, h => by
    obtain ⟨_, -, h⟩ := h.of_bind
    obtain ⟨xs, hxs, h⟩ := h.of_bind
    cases h.eq_of_pure
    rw [List.length_cons, List.length_cons, evalList_length hxs]

/-! ## Symbolic functions -/

/-- The derivative of an argument by a variable. -/
theorem run_deriveArgument (e : Expr K) (y : String) (env : Environment K) :
    (deriveArgument e (some (var y))).run env =
      (match derivative y (symbolicArgument env e) with
        | .ok d => .ok (y, d.simplifyReal)
        | .error cause => .error (.error (.differentiation cause)), env) := by
  refine (Eval.run_bind_ok rfl).trans ((Eval.run_bind_ok rfl).trans ?_)
  cases derivative y (symbolicArgument env e) <;> rfl

/-! ## Execution -/

/-- An execution evaluates the tree, with one level of nesting gone from the fuel. -/
theorem execute_eq_eval (e : Expr K) (env : Environment K) : e.execute env =
    (eval (evalWithin (evaluationFuel - 1)) (evaluationFuel - 1) e).run env := by
  have hfuel : evaluationFuel - 1 + 1 = evaluationFuel := Nat.sub_add_cancel (by decide)
  rw [execute, ← hfuel]
  rfl

/-- An operator that evaluates both operands applies to their values. -/
theorem execute_binary {op : BinaryOp} {a b : Expr K} {u w : Value K}
    {env env₁ env₂ : Environment K} (hop : op.decidedBy? = none)
    (ha : a.execute env = (.ok u, env₁)) (hb : b.execute env₁ = (.ok w, env₂)) :
    (binary op a b).execute env = ((ofResult (u.applyBinary op w)).run env₂) := by
  rw [execute_eq_eval] at ha hb ⊢
  rw [eval]
  simp only [hop]
  rw [run_bind_ok ha, run_bind_ok hb]

/-- A call of a built-in function with one argument applies it to the value of the argument. -/
theorem execute_builtin {f : Builtin} {a : Expr K} {v w : Value K} {env env' : Environment K}
    (hf : f.isSymbolic = false) (harity : f.arity.accepts 1 = true)
    (ha : a.execute env = (.ok v, env')) (hw : Value.applyBuiltin f [v] = .ok w) :
    (builtin f [a]).execute env = (.ok w, env') := by
  have hresult : (ofResult (Value.applyBuiltin f [v])).run env' = (.ok w, env') := by
    rw [hw]
    rfl
  rw [execute_eq_eval] at ha ⊢
  rw [eval_builtin hf, checkArity, List.length_singleton, if_pos harity]
  refine (run_bind_ok rfl).trans ((run_bind_ok ?_).trans hresult)
  rw [evalList, run_bind_ok ha]
  rfl

end Expr

end Formula

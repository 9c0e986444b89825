import Formula.Proofs.Eval.Simulation

/-!
# One evaluation in place of another

`Refines F x y` says that `y` does what `x` does, to the value and to the environment, wherever `x`
ends with a value or with a failure that satisfies `F`. It is the simulation in which environments
are the same, so that the rules for the constructs of a tree are those of `Simulates`. More fuel is
an instance: it changes nothing where the evaluation did not run out of fuel.
-/

namespace Formula.Eval

open Formula.Expr

variable {K α β : Type} {F : Failure K → Prop}

/-- Wherever `x` ends with a value or with a failure with `F`, `y` ends the same. -/
def Refines (F : Failure K → Prop) (x y : Eval K α) : Prop :=
  ∀ env, (∀ f, (x.run env).1 = .error f → F f) → y.run env = x.run env

/-! ## Sequences -/

section

variable {x y z : Eval K α} {f g : α → Eval K β}

/-- An evaluation does what it does. -/
theorem Refines.refl : Refines F x x := fun _ _ => rfl

/-- One replacement after another. -/
theorem Refines.trans (hxy : Refines F x y) (hyz : Refines F y z) : Refines F x z :=
  fun env hF => by
    have h := hxy env hF
    exact (hyz env (h ▸ hF)).trans h

/-- A sequence, which goes on with a value of its first part. -/
theorem Refines.bind (hxy : Refines F x y) (hfg : ∀ a, x.Yields a → Refines F (f a) (g a)) :
    Refines F (x >>= f) (y >>= g) := fun env hF => by
  rcases hx : x.run env with ⟨failure | a, env'⟩
  · rw [run_bind_error hx] at hF ⊢
    refine run_bind_error ((hxy env fun f hf => ?_).trans hx)
    rw [hx] at hf
    cases hf
    exact hF failure rfl
  · rw [run_bind_ok hx] at hF ⊢
    have hy : y.run env = (.ok a, env') := (hxy env fun f hf => by
      rw [hx] at hf
      cases hf).trans hx
    rw [run_bind_ok hy]
    exact hfg a ⟨env, env', hx⟩ env' hF

/-- An evaluation refines another one if it is simulated from the same environments. -/
theorem refines_iff : Refines F x y ↔ Simulates (Environment.Agrees Eq) Eq F x y where
  mp h env env' henv hF := by
    rw [henv.eq, h env hF]
    exact ⟨.refl _, .refl (fun _ => rfl) _⟩
  mpr h env hF := by
    obtain ⟨hresult, hafter⟩ := h env env (.refl (fun _ => rfl) env) hF
    exact Prod.ext hresult.eq hafter.eq

/-- A simulation, and then a replacement. -/
theorem Simulates.trans {R : Environment K → Environment K → Prop} {Q : β → α → Prop}
    {w : Eval K β} (hwx : Simulates R Q F w x) (hxy : Refines F x y) : Simulates R Q F w y :=
  fun env env' henv hF => by
    obtain ⟨hresult, hafter⟩ := hwx env env' henv hF
    rw [hxy env' fun f hf => hF f (hresult.error_iff.2 hf)]
    exact ⟨hresult, hafter⟩

end

/-! ## Values only

Where failures do not count, what is made of a value may be left out if it changes nothing. -/

/-- Wherever `x` has a value, `y` does the same. -/
abbrev Follows (x y : Eval K α) : Prop := Refines (fun _ => False) x y

section

variable {x : Eval K α}

/-- A result that follows another one. -/
theorem Follows.result {r s : Result K α} (h : ∀ a, r = .ok a → s = .ok a) :
    Follows (ofResult r) (ofResult s) := fun _ hF => by
  cases r with
  | ok a => rw [h a rfl]
  | error cause => exact (hF _ rfl).elim

/-- A result that is the value it is made of. -/
theorem Follows.same {r : α → Result K α} (h : ∀ a, x.Yields a → ∀ b, r a = .ok b → b = a) :
    Follows (x >>= fun a => ofResult (r a)) x := by
  have hpure : Follows (x >>= fun a => ofResult (r a)) (x >>= pure) :=
    Refines.refl.bind fun a ha => Follows.result (s := .ok a) fun b hb => by rw [h a ha b hb]
  rwa [bind_pure] at hpure

/-- A result that is the same for all values, of an evaluation that changes nothing. -/
theorem Follows.constant {r : α → Result K β} {c : β} (hx : ∀ env, (x.run env).2 = env)
    (h : ∀ a, x.Yields a → ∀ b, r a = .ok b → b = c) :
    Follows (x >>= fun a => ofResult (r a)) (pure c) := fun env hF => by
  rcases hrun : x.run env with ⟨f | a, env'⟩
  · rw [run_bind_error hrun] at hF
    exact (hF f rfl).elim
  · have henv : env' = env := by rw [← hx env, hrun]
    subst henv
    rw [run_bind_ok hrun] at hF ⊢
    cases hr : r a with
    | ok b => rw [h a ⟨env', env', hrun⟩ b hr]; rfl
    | error cause =>
      rw [hr] at hF
      exact (hF _ rfl).elim

end

end Formula.Eval

/-! ## More fuel -/

namespace Formula.Expr

open Eval

variable {K : Type} [Scalar K]

/-- More fuel changes nothing where the evaluation did not run out of fuel. -/
theorem evalWithin_refines : ∀ {fuel fuel' : Nat}, fuel ≤ fuel' → ∀ e : Expr K,
    Refines (· ≠ .outOfFuel) (e.evalWithin fuel) (e.evalWithin fuel')
  | 0, _, _, _ => refines_iff.2 (.uncounted fun h => h rfl)
  | _ + 1, _ + 1, hle, e => by
    have hle := Nat.le_of_succ_le_succ hle
    refine refines_iff.2 (eval_simulates (.inr ⟨fun h => h rfl, hle⟩) (fun _ => rfl) ?_ e)
    rintro e _ rfl
    exact refines_iff.1 (evalWithin_refines hle e)

end Formula.Expr

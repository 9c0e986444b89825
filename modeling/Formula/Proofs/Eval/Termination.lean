import Formula.Binary64.Scalar
import Formula.Proofs.Eval.Grounded
import Formula.Proofs.Eval.Invariants
import Formula.Proofs.Eval.Refinement

/-!
# Evaluation ends without loops

Apart from loops an evaluation could be endless only by entering other trees again and again: the
bodies of user functions, and derivatives taken at a point. Both open a scope. Calls refuse to open
more than `maxCallDepth`. A derivative at a point checks nothing, but the tree it leads to holds
fewer derivatives at a point inside each other than the tree it stands in, as long as function
values hold none of them. So an evaluation enters no more trees inside each other than `entries`
counts (`evalWithin_keepsBounded`), and with more fuel than that it ends.

Function values that do hold derivatives at a point can lead to each other without an end
(`Tangled`).
-/

namespace Formula.Expr

open Eval

variable {K : Type} {e : Expr K} {n depth points bound : Nat}

/-! ## Sessions -/

/-- The environments of sessions: a new one, and what evaluating a formula with `P` makes of one,
also if the evaluation fails or is given up. -/
inductive Reachable [Scalar K] (P : Expr K → Prop) : Environment K → Prop
  | initial : Reachable P .initial
  | withoutConstants : Reachable P .withoutConstants
  | step {env : Environment K} {e : Expr K} (fuel : Nat) (henv : Reachable P env) (he : P e) :
      Reachable P ((e.evalWithin fuel).run env).2

/-- The evaluation ends: from some fuel on the outcome is the same, a value or an error. -/
def Ends [Scalar K] (e : Expr K) (env : Environment K) : Prop :=
  ∃ outcome, outcome.1 ≠ .error .outOfFuel ∧
    ∃ least, ∀ fuel ≥ least, (e.evalWithin fuel).run env = outcome

/-! ## What sessions store -/

/-- A function value holds no derivative at a point. -/
def GroundedValue (v : Value K) : Prop := ∀ tree, v = .function tree → Grounded 0 tree

/-- Values that are no trees hold nothing. -/
theorem groundedValue_of_plain {v : Value K} (h : v.type ≠ .function) : GroundedValue v :=
  fun _ hv => absurd (hv ▸ rfl) h

/-- So many scopes are open, function values hold no derivatives at a point, and those in user
functions nest in the bound. -/
structure Bounded (depth bound : Nat) (env : Environment K) : Prop where
  depth : env.depth = depth
  stores : env.Stores GroundedValue (Grounded bound)

/-- Names are bound and removed inside of scopes. -/
theorem rebinds_bounded [Scalar K] {F : Failure K → Prop} (hF : ∀ cause, F (.error cause)) :
    Rebinds (Bounded depth bound : Environment K → Prop) GroundedValue F where
  closed := .of_plain groundedValue_of_plain
  bound henv h := henv.stores.get? h
  error _ := hF _
  set henv hv h := ⟨(Environment.depth_set h).trans henv.depth, henv.stores.set hv h⟩
  remove henv h := ⟨(Environment.depth_remove h).trans henv.depth, henv.stores.remove h⟩
  removeFunction henv := ⟨henv.depth, henv.stores.removeFunction⟩

/-- The bound can be raised. -/
theorem Bounded.mono {env : Environment K} {bound' : Nat} (henv : Bounded depth bound env)
    (h : bound ≤ bound') : Bounded depth bound' env :=
  ⟨henv.depth, henv.stores.imp (fun _ hv => hv) fun _ he => he.mono h⟩

/-- Opening a scope. -/
theorem Bounded.push {env : Environment K} {scope : Scope K} (henv : Bounded depth bound env)
    (hscope : scope.All GroundedValue) : Bounded (depth + 1) bound (env.push scope) :=
  ⟨by rw [Environment.depth_push, henv.depth], henv.stores.push hscope⟩

/-- Closing a scope. -/
theorem Bounded.pop {env : Environment K} (hdepth : 0 < depth)
    (henv : Bounded (depth + 1) bound env) : Bounded depth bound env.pop :=
  ⟨Environment.depth_pop henv.depth hdepth, henv.stores.pop⟩

/-- The tree that a symbolic function works on has the bound of its argument. -/
theorem Bounded.symbolicArgument {env : Environment K} (henv : Bounded depth bound env)
    (he : Grounded n e) : Grounded n (symbolicArgument env e) :=
  henv.stores.symbolicArgument (fun tree htree => (htree tree rfl).mono (Nat.zero_le n)) he

/-! ## How much fuel is needed -/

/-- How many trees an evaluation enters inside each other: `bound + 1` for each of the scopes that
calls may still open, and one for each derivative at a point of the tree. -/
def entries (depth bound points : Nat) : Nat :=
  (maxCallDepth + 1 - depth) * (bound + 1) + points

/-- A call uses up a scope. -/
theorem entries_call (h : depth ≤ maxCallDepth) :
    entries (depth + 1) bound bound < entries depth bound points := by
  have hsub : maxCallDepth + 1 - depth = (maxCallDepth + 1 - (depth + 1)) + 1 := by omega
  rw [entries, entries, hsub, Nat.add_mul]
  omega

/-- A derivative uses up a derivative at a point. -/
theorem entries_point : entries (depth + 1) bound points < entries depth bound (points + 1) := by
  have hle : (maxCallDepth + 1 - (depth + 1)) * (bound + 1) ≤
      (maxCallDepth + 1 - depth) * (bound + 1) := Nat.mul_le_mul_right _ (by omega)
  rw [entries, entries]
  omega

/-! ## Evaluation -/

section

variable [Scalar K] {enter : Expr K → Eval K (Value K)} {loops : Nat} {F : Failure K → Prop}

/-- What an evaluation keeps if the trees that it leads to keep it, one scope deeper and with less
to be entered. -/
theorem eval_keepsBounded (hF : ∀ cause, F (.error cause)) (hdepth : 0 < depth)
    (hpoints : points ≤ bound)
    (henter : ∀ {n e}, n ≤ bound → Grounded n e →
      entries (depth + 1) bound n < entries depth bound points →
        Keeps (Bounded (depth + 1) bound) GroundedValue F (enter e))
    (he : Grounded points e) :
    Keeps (Bounded depth bound) GroundedValue F (eval enter loops e) := by
  refine eval_keeps { rebinds_bounded hF with
    child := Grounded.child
    allows := fun _ => .inr hF
    collects := fun {e} _ => collects_of_plain groundedValue_of_plain e
    outOfFuel := ?_
    push := Bounded.push
    pop := Bounded.pop hdepth
    define := ?_
    body := ?_
    simplify := ?_
    derivative := ?_
    point := ?_ } he
  · intro e he hkind
    exact absurd he.isLoop (by rcases hkind with h | h <;> simp [isLoop, h])
  · intro env name arguments parameters value he _ henv
    exact ⟨henv.depth, henv.stores.defineFunction ((he.child (.tail _ (.head _))).mono hpoints)⟩
  · intro env name arity definition henv hdefinition hle
    exact henter (Nat.le_refl bound) (henv.stores.function? hdefinition)
      (entries_call (henv.depth ▸ hle))
  · intro env as a he ha henv tree htree
    cases htree
    exact (henv.symbolicArgument (he.of_yieldsTree rfl ha)).simplify
  · intro env as a x d he hlength ha henv hd value hvalue
    cases hvalue
    have hyields : (builtin .derivative as).yieldsTree = true := by
      simp [yieldsTree, isPoint, kind, children, hlength]
    exact (henv.symbolicArgument (he.of_yieldsTree hyields ha)).derivative hd
  · intro env a second point x d he henv hd
    obtain ⟨m, rfl, hm⟩ := he.of_isPoint rfl
    have ha := henv.symbolicArgument (hm a (.head _))
    exact henter (Nat.le_of_succ_le hpoints) (ha.derivative hd) entries_point

/-- **An evaluation runs out of fuel only if it has less than the trees that it enters.** Whatever
fuel it has, it keeps what sessions store. -/
theorem evalWithin_keepsBounded : ∀ (fuel : Nat) {depth points : Nat} {e : Expr K}, 0 < depth →
    points ≤ bound → Grounded points e →
      Keeps (Bounded depth bound) GroundedValue
        (fun f => f = .outOfFuel → fuel ≤ entries depth bound points) (e.evalWithin fuel)
  | 0, _, _, _, _, _, _ => .throw fun _ => Nat.zero_le _
  | fuel + 1, _, _, _, hdepth, hpoints, he =>
    eval_keepsBounded nofun hdepth hpoints
      (fun hn he hlt => (evalWithin_keepsBounded fuel (Nat.succ_pos _) hn he).imp
        fun _ hf hout => Nat.lt_of_le_of_lt (hf hout) hlt) he

/-! ## Sessions without loops -/

/-- Sessions without loops and without stored derivatives at a point keep what they store
bounded. -/
theorem Reachable.bounded {env : Environment K}
    (henv : Reachable (fun e => e.isLoopFree = true ∧ e.storesPoint = false) env) :
    ∃ bound, Bounded 1 bound env := by
  induction henv with
  | initial => exact ⟨0, rfl, .initial nofun nofun⟩
  | withoutConstants => exact ⟨0, rfl, .withoutConstants⟩
  | step fuel _ he ih =>
    obtain ⟨bound, henv⟩ := ih
    obtain ⟨n, he⟩ := exists_grounded he.1 he.2
    exact ⟨max bound n,
      (evalWithin_keepsBounded fuel Nat.one_pos (Nat.le_max_right bound n) he).environment
        (henv.mono (Nat.le_max_left bound n))⟩

/-- **Without loops evaluation ends**, in every environment of a session without loops, if no
formula puts a derivative at a point into a function value. -/
theorem ends_of_loopFree {env : Environment K}
    (henv : Reachable (fun e => e.isLoopFree = true ∧ e.storesPoint = false) env)
    (hloop : e.isLoopFree = true) (hstores : e.storesPoint = false) : e.Ends env := by
  obtain ⟨bound, henv⟩ := henv.bounded
  obtain ⟨n, he⟩ := exists_grounded hloop hstores
  have hkeeps := evalWithin_keepsBounded (entries 1 (max bound n) n + 1) Nat.one_pos
    (Nat.le_max_right bound n) he
  have hends : ((e.evalWithin (entries 1 (max bound n) n + 1)).run env).1 ≠ .error .outOfFuel :=
    fun hout => Nat.not_succ_le_self _
      (hkeeps.failure (henv.mono (Nat.le_max_left bound n)) hout rfl)
  refine ⟨_, hends, _, fun fuel hfuel => evalWithin_refines hfuel e env ?_⟩
  rintro f hf rfl
  exact hends hf

end

/-- A user function that calls itself from a derivative at a point, without a condition. -/
theorem ends_recursion :
    let recursion : Expr Binary64 := .define (.call "f" [.var "y"])
      (.builtin .derivative [.binary .mul (.var "x") (.call "f" [.var "y"]), .var "x", .var "y"])
    let env := ((recursion.evalWithin 1).run .initial).2
    let e : Expr Binary64 := .call "f" [.number Scalar.one]
    Reachable (fun e => e.isLoopFree = true ∧ e.storesPoint = false) env ∧
      e.isLoopFree = true ∧ e.storesPoint = false ∧ e.Ends env :=
  have henv := .step 1 .initial ⟨rfl, rfl⟩
  ⟨henv, rfl, rfl, ends_of_loopFree henv rfl rfl⟩

/-! ## Function values that lead to each other -/

/-- The derivative of the function value `f` by `y`, at one. -/
def slope (f y : String) : Expr Binary64 :=
  .builtin .derivative [.var f, .var y, .number Scalar.one]

/-- The function values `g` and `h` hold derivatives at a point of each other. -/
structure Tangled (env : Environment Binary64) : Prop where
  g : env.get? "g" = some (.function (.binary .mul (.var "x") (slope "h" "y")))
  h : env.get? "h" = some (.function (.binary .mul (.var "y") (slope "g" "x")))

/-- A scope that binds other names. -/
theorem Tangled.push {env : Environment Binary64} {scope : Scope Binary64} (h : Tangled env)
    (hg : scope.get? "g" = none) (hh : scope.get? "h" = none) : Tangled (env.push scope) := by
  constructor
  · rw [Environment.get?, Environment.push, List.findSome?_cons, hg]
    exact h.g
  · rw [Environment.get?, Environment.push, List.findSome?_cons, hh]
    exact h.h

/-- The derivative of a function value at a point leads to the derivative of its tree. -/
theorem run_slope {env : Environment Binary64} {f y : String} {tree d : Expr Binary64}
    (hget : env.get? f = some (.function tree)) (hd : derivative y tree = .ok d) (fuel : Nat) :
    (((slope f y).evalWithin (fuel + 1)).run env).1 =
      ((d.simplifyReal.evalWithin fuel).run
        (env.push (.ofList [(y, .number Scalar.one)]))).1 := by
  have hargument : symbolicArgument env (var f) = tree := by rw [symbolicArgument, hget]
  have hderive : (deriveArgument (var f) (some (var y))).run env =
      (.ok (y, d.simplifyReal), env) := by
    rw [run_deriveArgument, hargument, hd]
  have harity : (checkArity .derivative [var f, var y, (number Scalar.one : Expr Binary64)].length :
      Eval Binary64 Unit).run env = (.ok (), env) := rfl
  rw [slope, evalWithin, eval, run_bind_ok harity, run_bind_ok hderive]
  rfl

/-- Each of two tangled function values leads to the other one, with any fuel. -/
theorem Tangled.run_slope (fuel : Nat) {env : Environment Binary64} (h : Tangled env) :
    (((slope "g" "x").evalWithin fuel).run env).1 = .error .outOfFuel ∧
      (((slope "h" "y").evalWithin fuel).run env).1 = .error .outOfFuel := by
  have hsum {a b : Expr Binary64} {env : Environment Binary64} (fuel : Nat)
      (ha : ((a.evalWithin fuel).run env).1 = .error .outOfFuel) :
      (((binary .add a b).evalWithin fuel).run env).1 = .error .outOfFuel := by
    cases fuel with
    | zero => rfl
    | succ fuel => exact congrArg Prod.fst (run_bind_error (Prod.ext ha rfl))
  induction fuel generalizing env with
  | zero => exact ⟨rfl, rfl⟩
  | succ fuel ih =>
    constructor
    · rw [Expr.run_slope h.g rfl]
      exact hsum fuel (ih (h.push rfl rfl)).2
    · rw [Expr.run_slope h.h rfl]
      exact hsum fuel (ih (h.push rfl rfl)).1

/-- Two formulas without loops that tangle two function values, and a third one that never ends:
**evaluation without loops can be endless**. -/
theorem not_ends_slope :
    ¬∀ (env : Environment Binary64) (e : Expr Binary64),
      Reachable (fun e => e.isLoopFree = true) env → e.isLoopFree = true → e.Ends env := by
  intro h
  let g : Expr Binary64 :=
    .define (.var "g") (.builtin .simplify [.binary .mul (.var "x") (slope "h" "y")])
  let h' : Expr Binary64 :=
    .define (.var "h") (.builtin .simplify [.binary .mul (.var "y") (slope "g" "x")])
  let env := ((h'.evalWithin 1).run ((g.evalWithin 1).run .initial).2).2
  have henv : Reachable (fun e => e.isLoopFree = true) env := .step 1 (.step 1 .initial rfl) rfl
  have htangled : Tangled env := ⟨rfl, rfl⟩
  obtain ⟨outcome, hne, least, hleast⟩ := h env (slope "g" "x") henv rfl
  refine hne ?_
  rw [← hleast least (Nat.le_refl least)]
  exact (htangled.run_slope least).1

end Formula.Expr

import Formula.Proofs.Eval.Keeps
import Formula.Proofs.Expr
import Mathlib.Logic.Relation

/-!
# Invariants of evaluation

`Carries` lists what a property of environments has to survive for all trees of a sort to keep it,
where what an evaluation leads to is known to keep it (`eval_keeps`, by induction over the tree).
`Invariant` asks the same of a family of properties, one for each number of open scopes, so that
calls and derivatives at a point are no exception; every evaluation keeps it then, with any fuel
(`Invariant.evalWithin`, by induction over the fuel). Properties of the environment alone, that say
nothing about the values in it, need only survive the operations on it (`Environment.Stable`).

An evaluation consists of others. `Run.Part` relates the evaluation of a tree to the evaluations of
its subtrees, of the bodies of user functions and of derivatives at a point that it may lead to. An
invariant holds in the environments of all of them (`Invariant.involves`), which says more than that
it holds in the end.
-/

namespace Formula

open Formula.Expr Formula.Eval

variable {K : Type} [Scalar K]

namespace Eval

variable {enter : Expr K → Eval K (Value K)} {loops : Nat} {T : Expr K → Prop}
  {I J : Environment K → Prop} {V : Value K → Prop} {F : Failure K → Prop}

/-- What `I` has to survive for trees with `T`, where `J` holds in the scopes that they open. -/
structure Carries (enter : Expr K → Eval K (Value K)) (T : Expr K → Prop)
    (I J : Environment K → Prop) (V : Value K → Prop) (F : Failure K → Prop) : Prop
    extends Rebinds I V F where
  child : ∀ {e c}, T e → c ∈ e.children → T c
  allows : ∀ {e}, T e → Allows F e
  collects : ∀ {e}, T e → e.Collects V
  outOfFuel : ∀ {e}, T e → e.kind = .forLoop ∨ e.kind = .whileLoop → F .outOfFuel
  push : ∀ {env scope}, I env → scope.All V → J (env.push scope)
  pop : ∀ {env}, J env → I env.pop
  define : ∀ {env name arguments parameters value}, T (.define (.call name arguments) value) →
    parameters? arguments = some parameters → I env →
      I (env.defineFunction name ⟨parameters, value⟩)
  body : ∀ {env name arity definition}, I env → env.function? name arity = some definition →
    env.depth ≤ maxCallDepth → Keeps J V F (enter definition.body)
  simplify : ∀ {env as a}, T (.builtin .simplify as) → a ∈ as → I env →
    V (.function (symbolicArgument env a).simplify)
  derivative : ∀ {env as a x d}, T (.builtin .derivative as) → as.length ≠ 3 → a ∈ as → I env →
    derivative x (symbolicArgument env a) = .ok d → V (.function d.simplifyReal)
  point : ∀ {env a second point x d}, T (.builtin .derivative [a, second, point]) → I env →
    Expr.derivative x (symbolicArgument env a) = .ok d → Keeps J V F (enter d.simplifyReal)

/-- **Trees with `T` keep what survives.** -/
theorem eval_keeps (h : Carries enter T I J V F) {e : Expr K} (he : T e) :
    Keeps I V F (eval enter loops e) := by
  have hrebinds : Rebinds I V F := h.toRebinds
  have hbinds : Binds I V F := h.toBinds
  induction e using children_induction with
  | h e ih =>
    replace ih := fun c hc => ih c hc (h.child he hc)
    cases e with
    | builtin f as =>
      cases f with
      | simplify => exact .simplify (h.allows he) fun a ha env henv => h.simplify he ha henv
      | derivative =>
        refine .derivative hbinds (h.allows he) (fun _ _ _ has => ih _ (by simp [children, has]))
          h.push h.pop ?_ ?_
        · intro hlength a ha env x d henv hd
          exact h.derivative he hlength ha henv hd
        · rintro a second point rfl env x d henv hd
          exact h.point he henv hd
      | _ => exact .reading hbinds rfl (h.allows he) trivial ih
    | call name as => exact .call hbinds ih h.push h.pop h.body
    | forLoop body init c a =>
      exact .forLoop hbinds (h.outOfFuel he (.inl rfl)) (ih body (by simp [children]))
        (ih init (by simp [children])) (ih c (by simp [children])) (ih a (by simp [children]))
    | whileLoop body c =>
      exact .whileLoop hbinds (h.outOfFuel he (.inr rfl)) (ih body (.head _))
        (ih c (.tail _ (.head _)))
    | define key value =>
      cases key with
      | var => exact .defineVariable hrebinds (ih value (.tail _ (.head _)))
      | call => exact .defineFunction hrebinds (h.allows he) (h.define he)
      | _ => exact .throw ((h.allows he).resolve_left (fun hbuilt => by cases hbuilt) _)
    | undefine => exact .undefine hrebinds (h.allows he)
    | assign _ _ value => exact .assign hrebinds (ih value (.head _))
    | step => exact .step hrebinds
    | _ => exact .reading hbinds rfl (h.allows he) (h.collects he) ih

end Eval

/-! ## Invariants -/

/-- A property of environments for each number of open scopes, kept by trees with `T`, whose values
satisfy `V` and whose failures satisfy `F`. -/
structure Invariant (T : Expr K → Prop) (V : Value K → Prop) (I : Nat → Environment K → Prop)
    (F : Failure K → Prop) : Prop where
  rebinds : ∀ n, Rebinds (I n) V F
  outOfFuel : F .outOfFuel
  child : ∀ {e c}, T e → c ∈ e.children → T c
  allows : ∀ {e}, T e → Allows F e
  collects : ∀ {e}, T e → e.Collects V
  push : ∀ {n env scope}, 0 < n → I n env → scope.All V → I (n + 1) (env.push scope)
  pop : ∀ {n env}, 0 < n → I (n + 1) env → I n env.pop
  define : ∀ {n env name arguments parameters value}, T (.define (.call name arguments) value) →
    parameters? arguments = some parameters → I n env →
      I n (env.defineFunction name ⟨parameters, value⟩)
  body : ∀ {n env name arity definition}, I n env → env.function? name arity = some definition →
    T definition.body
  simplify : ∀ {n env as a}, T (.builtin .simplify as) → a ∈ as → I n env →
    V (.function (symbolicArgument env a).simplify)
  derivative : ∀ {n env as a x d}, T (.builtin .derivative as) → a ∈ as → I n env →
    derivative x (symbolicArgument env a) = .ok d →
      T d.simplifyReal ∧ V (.function d.simplifyReal)

/-- A property of environments for each number of open scopes that the operations on them keep. -/
structure Environment.Stable (I : Nat → Environment K → Prop) : Prop where
  set : ∀ {n env env' name value}, I n env → env.set name value = .ok env' → I n env'
  remove : ∀ {n env env' name old}, I n env → env.remove name = .ok (old, env') → I n env'
  defineFunction : ∀ {n env name definition}, I n env → I n (env.defineFunction name definition)
  removeFunction : ∀ {n env name arity}, I n env → I n (env.removeFunction name arity).2
  push : ∀ {n env scope}, 0 < n → I n env → I (n + 1) (env.push scope)
  pop : ∀ {n env}, 0 < n → I (n + 1) env → I n env.pop

/-- All trees keep what the operations keep, whatever their values and failures are. -/
theorem Environment.Stable.invariant {I : Nat → Environment K → Prop} (h : Stable I) :
    Invariant (fun _ => True) (fun _ => True) I fun _ => True where
  rebinds _ :=
    { closed := .of_plain fun _ => trivial
      bound := fun _ _ => trivial
      error := fun _ => trivial
      set := fun henv _ hset => h.set henv hset
      remove := h.remove
      removeFunction := h.removeFunction }
  outOfFuel := trivial
  child _ _ := trivial
  allows _ := .inr fun _ => trivial
  collects _ := collects_of_plain (fun _ => trivial) _
  push hn henv _ := h.push hn henv
  pop := h.pop
  define _ _ henv := h.defineFunction henv
  body _ _ := trivial
  simplify _ _ _ := trivial
  derivative _ _ _ _ := ⟨trivial, trivial⟩

/-- Well-formed trees keep what holds of the values in an environment, where it holds of just those
function values that are well formed. -/
theorem invariant_stores {V : Value K → Prop} {F : Failure K → Prop} (hclosed : Value.Closed V)
    (hfunction : ∀ tree, V (.function tree) ↔ tree.WellFormed)
    (hcollects : ∀ {e : Expr K}, e.WellFormed → e.Collects V)
    (herror : ∀ {cause}, cause.isDefensive = false → F (.error cause)) (hfuel : F .outOfFuel) :
    Invariant WellFormed V (fun _ env => env.Stores V WellFormed) F where
  rebinds _ :=
    { closed := hclosed
      bound := fun henv hget => henv.get? hget
      error := herror
      set := fun henv hv hset => henv.set hv hset
      remove := fun henv hremove => henv.remove hremove
      removeFunction := fun henv => henv.removeFunction }
  outOfFuel := hfuel
  child he hc := he.child _ hc
  allows he := .inl he.root
  collects := hcollects
  push _ henv hscope := henv.push hscope
  pop _ henv := henv.pop
  define he _ henv := henv.defineFunction (he.child _ (.tail _ (.head _)))
  body henv hdefinition := henv.function? hdefinition
  simplify he ha henv := by
    have htree := henv.symbolicArgument (fun tree => (hfunction tree).1) (he.child _ ha)
    exact (hfunction _).2 htree.simplifyWith
  derivative he ha henv hd := by
    have htree := henv.symbolicArgument (fun tree => (hfunction tree).1) (he.child _ ha)
    have hderivative := htree.derivative hd
    exact ⟨hderivative.simplifyWith, (hfunction _).2 hderivative.simplifyWith⟩

/-- The evaluation of a tree in an environment with some fuel. -/
structure Run (K : Type) where
  fuel : Nat
  tree : Expr K
  env : Environment K

namespace Run

/-- What the evaluation gives. -/
def result (r : Run K) : Except (Failure K) (Value K) := ((r.tree.evalWithin r.fuel).run r.env).1

/-- The environment that it leaves. -/
def after (r : Run K) : Environment K := ((r.tree.evalWithin r.fuel).run r.env).2

/-- Evaluations of direct subtrees of a tree, in any order and any number, lead from one environment
to another. -/
inductive Passes (fuel : Nat) (e : Expr K) (env : Environment K) : Environment K → Prop
  | refl : Passes fuel e env env
  | child {env' : Environment K} {c : Expr K} (h : Passes fuel e env env') (hc : c ∈ e.children) :
    Passes fuel e env (Run.mk fuel c env').after

/-- An evaluation that another one may consist of: that of a subtree, where others may come before
it, that of the body of a user function, with the arguments bound, and that of a derivative at a
point. -/
inductive Part : Run K → Run K → Prop
  | child {fuel : Nat} {e c : Expr K} {env env' : Environment K} (hc : c ∈ e.children)
      (h : Passes fuel e env env') : Part ⟨fuel, e, env⟩ ⟨fuel, c, env'⟩
  | body {fuel : Nat} {name : String} {as : List (Expr K)} {env env' : Environment K}
      {definition : FunctionDefinition K} {values : List (Value K)}
      (hcallee : (callee name as.length).run env = (.ok definition, env))
      (hvalues : (evalList (evalWithin fuel) fuel as).run env = (.ok values, env')) :
      Part ⟨fuel + 1, .call name as, env⟩
        ⟨fuel, definition.body, env'.push (.ofList (definition.parameters.zip values))⟩
  | point {fuel : Nat} {a second point d : Expr K} {x : String} {value : Value K}
      {env env' : Environment K}
      (hderive : (deriveArgument a (some second)).run env = (.ok (x, d), env))
      (hvalue : (point.evalWithin (fuel + 1)).run env = (.ok value, env')) :
      Part ⟨fuel + 1, .builtin .derivative [a, second, point], env⟩
        ⟨fuel, d, env'.push (.ofList [(x, value)])⟩

/-- An evaluation may consist of another one, directly or through others. -/
abbrev Involves : Run K → Run K → Prop := Relation.ReflTransGen Part

end Run

namespace Invariant

variable {T : Expr K → Prop} {V : Value K → Prop} {I : Nat → Environment K → Prop}
  {F : Failure K → Prop} (h : Invariant T V I F) {n : Nat}

include h

/-- One step of the induction over the fuel. -/
theorem carries {enter : Expr K → Eval K (Value K)} (hn : 0 < n)
    (henter : ∀ {e}, T e → Keeps (I (n + 1)) V F (enter e)) :
    Carries enter T (I n) (I (n + 1)) V F where
  toRebinds := h.rebinds n
  child := h.child
  allows := h.allows
  collects := h.collects
  outOfFuel _ _ := h.outOfFuel
  push := h.push hn
  pop := h.pop hn
  define := h.define
  body henv hdefinition _ := henter (h.body henv hdefinition)
  simplify := h.simplify
  derivative he _ ha henv hd := (h.derivative he ha henv hd).2
  point he henv hd := henter (h.derivative he (.head _) henv hd).1

/-- **Every evaluation of a tree with `T` keeps the invariant**, with any fuel. -/
theorem evalWithin : ∀ (fuel : Nat) {n : Nat} {e : Expr K}, 0 < n → T e →
    Keeps (I n) V F (e.evalWithin fuel)
  | 0, _, _, _, _ => .throw h.outOfFuel
  | fuel + 1, n, _, hn, he =>
    eval_keeps (h.carries hn fun he => evalWithin fuel (Nat.succ_pos n) he) he

/-- The evaluations of subtrees keep it. -/
theorem passes {fuel : Nat} {e : Expr K} {env env' : Environment K} (hn : 0 < n) (he : T e)
    (henv : I n env) (hpasses : Run.Passes fuel e env env') : I n env' := by
  induction hpasses with
  | refl => exact henv
  | child _ hc ih => exact (h.evalWithin fuel hn (h.child he hc)).environment ih

/-- It holds where a part of an evaluation begins. -/
theorem part {r r' : Run K} (hpart : r.Part r') (hn : 0 < n) (htree : T r.tree)
    (henv : I n r.env) : T r'.tree ∧ ∃ m, 0 < m ∧ I m r'.env := by
  cases hpart with
  | child hc hpasses => exact ⟨h.child htree hc, n, hn, h.passes hn htree henv hpasses⟩
  | @body fuel name as env env' definition values hcallee hvalues =>
    have hkeeps : Keeps (I n) _ F (callee name as.length) :=
      .callee (h.rebinds n).toBinds
    obtain ⟨env₀, henv₀, hdefinition, -⟩ := hkeeps.value henv (congrArg Prod.fst hcallee)
    have hlist : Keeps (I n) (fun vs => ∀ v ∈ vs, V v) F
        (evalList (Expr.evalWithin fuel) fuel as) :=
      .list fun a ha => h.evalWithin (fuel + 1) hn (h.child htree ha)
    have hscope : Bindings.All V (.ofList (definition.parameters.zip values)) :=
      .ofList fun _ hentry =>
        hlist.value henv (congrArg Prod.fst hvalues) _ (List.of_mem_zip hentry).2
    have henv' : I n env' := by
      have hafter := hlist.environment henv
      rwa [hvalues] at hafter
    exact ⟨h.body henv₀ hdefinition, n + 1, Nat.succ_pos n, h.push hn henv' hscope⟩
  | @point fuel a second point d x value env env' hderive hvalue =>
    have hkeeps : Keeps (I n) (fun derived => T derived.2) F
        (deriveArgument a (some second)) :=
      .deriveArgument (h.rebinds n).toBinds fun henv hd => (h.derivative htree (.head _) henv hd).1
    have hpoint := h.evalWithin (fuel + 1) hn
      (h.child (c := point) htree (.tail _ (.tail _ (.head _))))
    have hscope : Bindings.All V (.ofList [(x, value)]) :=
      .ofList (List.forall_mem_singleton.2 (hpoint.value henv (congrArg Prod.fst hvalue)))
    have henv' : I n env' := by
      have hafter := hpoint.environment henv
      rwa [hvalue] at hafter
    exact ⟨hkeeps.value henv (congrArg Prod.fst hderive), n + 1, Nat.succ_pos n,
      h.push hn henv' hscope⟩

/-- **An invariant holds wherever an evaluation comes to**: in the environments of all evaluations
that it consists of. -/
theorem involves {r r' : Run K} (hinvolves : r.Involves r') (hn : 0 < n) (htree : T r.tree)
    (henv : I n r.env) : T r'.tree ∧ ∃ m, 0 < m ∧ I m r'.env := by
  induction hinvolves with
  | refl => exact ⟨htree, n, hn, henv⟩
  | tail _ hpart ih =>
    obtain ⟨htree', m, hm, henv'⟩ := ih
    exact h.part hpart hm htree' henv'

end Invariant

end Formula

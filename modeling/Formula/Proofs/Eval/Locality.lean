import Formula.Binary64.Scalar
import Formula.Proofs.Eval.Simulation
import Formula.Proofs.Eval.Termination

/-!
# An evaluation sees only the names that occur

A tree that does not mention a name can neither read nor change what the name stands for. The
statement compares two evaluations, in environments that agree but for the bindings of that name:
they end alike, in environments that agree again, and both leave the bindings of the name as they
were (`evalWithin_local`).

User functions and derivatives at a point are left out, since they lead to other trees, which may
mention the name. Definitions of user functions are not: their bodies are stored and not evaluated.
-/

namespace Formula

variable {K : Type} {n : String}

/-! ## Environments that differ in one name -/

/-- The same bindings but for those of one name. -/
def Scope.AgreesExcept (n : String) (scope scope' : Scope K) : Prop :=
  ∀ name, name ≠ n → scope'.get? name = scope.get? name

namespace Scope.AgreesExcept

variable {scope scope' : Scope K}

/-- Binding a name on both sides. -/
theorem insert (h : Scope.AgreesExcept n scope scope') (name : String) (value : Value K) :
    Scope.AgreesExcept n (scope.insert name value) (scope'.insert name value) := by
  intro other hother
  by_cases heq : other = name
  · rw [heq, Bindings.get?_insert_self, Bindings.get?_insert_self]
  · rw [Bindings.get?_insert_of_ne heq, Bindings.get?_insert_of_ne heq, h other hother]

/-- Removing a name on both sides. -/
theorem erase (h : Scope.AgreesExcept n scope scope') (name : String) :
    Scope.AgreesExcept n (scope.erase name) (scope'.erase name) := by
  intro other hother
  by_cases heq : other = name
  · rw [heq, Bindings.get?_erase_self, Bindings.get?_erase_self]
  · rw [Bindings.get?_erase_of_ne heq, Bindings.get?_erase_of_ne heq, h other hother]

/-- Another name is bound on both sides or on none. -/
theorem contains (h : Scope.AgreesExcept n scope scope') {name : String} (hname : name ≠ n) :
    scope'.contains name = scope.contains name := by
  rw [Bindings.contains, Bindings.contains, h name hname]

end Scope.AgreesExcept

namespace Environment

variable {env env' : Environment K}

/-- The same functions, and the same variables and constants in the same scopes, but for the
bindings of one name. -/
structure AgreesExcept (n : String) (env env' : Environment K) : Prop where
  scopes : List.Forall₂ (Scope.AgreesExcept n) env.scopes env'.scopes
  constants : Scope.AgreesExcept n env.constants env'.constants
  functions : ∀ name arity, env'.function? name arity = env.function? name arity

/-- What each scope binds a name to, and what it is as a constant. -/
def bindingsOf (env : Environment K) (n : String) : List (Option (Value K)) × Option (Value K) :=
  (env.scopes.map (·.get? n), env.constants.get? n)

/-! ### Scopes -/

section

variable {scopes scopes' : List (Scope K)} {f : Scope K → Scope K} {name : String}

/-- The first scope that binds another name changes on both sides. -/
theorem modifyScope_agreesExcept (hname : name ≠ n)
    (hf : ∀ {scope scope'}, Scope.AgreesExcept n scope scope' →
      Scope.AgreesExcept n (f scope) (f scope'))
    (h : List.Forall₂ (Scope.AgreesExcept n) scopes scopes') :
    List.Forall₂ (Scope.AgreesExcept n) (modifyScope name f scopes)
      (modifyScope name f scopes') := by
  induction h with
  | nil => exact .nil
  | cons hscope houter ih =>
    rw [modifyScope, modifyScope, hscope.contains hname]
    split
    · exact .cons (hf hscope) houter
    · exact .cons hscope ih

/-- The innermost scope changes on both sides. -/
theorem modifyInnermost_agreesExcept
    (hf : ∀ {scope scope'}, Scope.AgreesExcept n scope scope' →
      Scope.AgreesExcept n (f scope) (f scope'))
    (h : List.Forall₂ (Scope.AgreesExcept n) scopes scopes') :
    List.Forall₂ (Scope.AgreesExcept n) (modifyInnermost f scopes)
      (modifyInnermost f scopes') := by
  cases h with
  | nil => exact .nil
  | cons hscope houter => exact .cons (hf hscope) houter

/-- Another name is bound in some scope on both sides or on none. -/
theorem any_contains_agreesExcept (hname : name ≠ n)
    (h : List.Forall₂ (Scope.AgreesExcept n) scopes scopes') :
    scopes'.any (·.contains name) = scopes.any (·.contains name) := by
  induction h with
  | nil => rfl
  | cons hscope _ ih => rw [List.any_cons, List.any_cons, hscope.contains hname, ih]

/-- Another name is found in the same scope. -/
theorem findSome?_agreesExcept (hname : name ≠ n)
    (h : List.Forall₂ (Scope.AgreesExcept n) scopes scopes') :
    scopes'.findSome? (·.get? name) = scopes.findSome? (·.get? name) := by
  induction h with
  | nil => rfl
  | cons hscope _ ih => rw [List.findSome?_cons, List.findSome?_cons, hscope name hname, ih]

/-- A change of a scope that leaves a name alone leaves it alone in all of them. -/
theorem map_get?_modifyScope (hf : ∀ scope, (f scope).get? n = scope.get? n) :
    (modifyScope name f scopes).map (·.get? n) = scopes.map (·.get? n) := by
  induction scopes with
  | nil => rfl
  | cons scope outer ih =>
    rw [modifyScope]
    split
    · rw [List.map_cons, List.map_cons, hf]
    · rw [List.map_cons, List.map_cons, ih]

/-- So does a change of the innermost scope. -/
theorem map_get?_modifyInnermost (hf : ∀ scope, (f scope).get? n = scope.get? n) :
    (modifyInnermost f scopes).map (·.get? n) = scopes.map (·.get? n) := by
  cases scopes with
  | nil => rfl
  | cons scope outer => rw [modifyInnermost, List.map_cons, List.map_cons, hf]

end

/-! ### Operations -/

namespace AgreesExcept

/-- Agreement goes both ways. -/
theorem symm (h : env.AgreesExcept n env') : env'.AgreesExcept n env where
  scopes := h.scopes.flip.imp fun _ _ hscope name hname => (hscope name hname).symm
  constants name hname := (h.constants name hname).symm
  functions name arity := (h.functions name arity).symm

variable (h : env.AgreesExcept n env') {name : String}

include h

/-- Another name stands for the same value. -/
theorem get? (hname : name ≠ n) : env'.get? name = env.get? name := by
  rw [Environment.get?, Environment.get?, findSome?_agreesExcept hname h.scopes,
    h.constants name hname]

/-- Another name is a constant on both sides or on none. -/
theorem isConstant (hname : name ≠ n) : env'.isConstant name = env.isConstant name :=
  h.constants.contains hname

/-- Binding another name. -/
theorem set (hname : name ≠ n) (value : Value K) :
    Result.Rel (AgreesExcept n) (env.set name value) (env'.set name value) := by
  rw [Environment.set, Environment.set, h.isConstant hname,
    any_contains_agreesExcept hname h.scopes]
  have hinsert {scope scope' : Scope K} (hscope : Scope.AgreesExcept n scope scope') :=
    hscope.insert name value
  split
  · exact .error _
  · refine .ok ⟨?_, h.constants, h.functions⟩
    dsimp only
    split
    · exact modifyScope_agreesExcept hname hinsert h.scopes
    · exact modifyInnermost_agreesExcept hinsert h.scopes

/-- Removing another name. -/
theorem remove (hname : name ≠ n) :
    Result.Rel (fun removed removed' => removed'.1 = removed.1 ∧
      removed.2.AgreesExcept n removed'.2) (env.remove name) (env'.remove name) := by
  rw [Environment.remove, Environment.remove, h.isConstant hname]
  split
  · exact .error _
  · refine .ok ⟨findSome?_agreesExcept hname h.scopes, ?_, h.constants, h.functions⟩
    exact modifyScope_agreesExcept hname (·.erase name) h.scopes

/-- Binding a user function. -/
theorem defineFunction (name : String) (definition : FunctionDefinition K) :
    (env.defineFunction name definition).AgreesExcept n (env'.defineFunction name definition) where
  scopes := h.scopes
  constants := h.constants
  functions other arity := by
    by_cases heq : (other, arity) = (name, definition.parameters.length)
    · rw [function?, function?, heq]
      exact Bindings.get?_insert_self.trans Bindings.get?_insert_self.symm
    · exact (Bindings.get?_insert_of_ne heq).trans
        ((h.functions other arity).trans (Bindings.get?_insert_of_ne heq).symm)

/-- Removing a user function. -/
theorem removeFunction (name : String) (arity : Nat) :
    (env.removeFunction name arity).2.AgreesExcept n (env'.removeFunction name arity).2 where
  scopes := h.scopes
  constants := h.constants
  functions other arity' := by
    by_cases heq : (other, arity') = (name, arity)
    · rw [function?, function?, heq]
      exact Bindings.get?_erase_self.trans Bindings.get?_erase_self.symm
    · exact (Bindings.get?_erase_of_ne heq).trans
        ((h.functions other arity').trans (Bindings.get?_erase_of_ne heq).symm)

end AgreesExcept

/-- Binding another name leaves the bindings of a name alone. -/
theorem bindingsOf_set {name : String} {value : Value K} (hname : name ≠ n)
    (hset : env.set name value = .ok env') : env'.bindingsOf n = env.bindingsOf n := by
  have hinsert (scope : Scope K) : (scope.insert name value).get? n = scope.get? n :=
    Bindings.get?_insert_of_ne hname.symm
  obtain ⟨-, scopes, rfl, rfl | rfl⟩ := set_cases hset
  · rw [bindingsOf, bindingsOf, map_get?_modifyScope hinsert]
  · rw [bindingsOf, bindingsOf, map_get?_modifyInnermost hinsert]

/-- Removing another name leaves the bindings of a name alone. -/
theorem bindingsOf_remove {name : String} {old : Option (Value K)} (hname : name ≠ n)
    (hremove : env.remove name = .ok (old, env')) : env'.bindingsOf n = env.bindingsOf n := by
  have herase (scope : Scope K) : (scope.erase name).get? n = scope.get? n :=
    Bindings.get?_erase_of_ne hname.symm
  obtain ⟨-, rfl⟩ := remove_cases hremove
  rw [bindingsOf, bindingsOf, map_get?_modifyScope herase]

end Environment

namespace Expr

open Eval

variable {e : Expr K} {bound bound' : List (Option (Value K)) × Option (Value K)}

/-! ## Trees -/

/-- Neither a user function nor a derivative at a point is evaluated. -/
inductive StaysInside : Expr K → Prop
  | node {e : Expr K} (hcall : e.kind ≠ .call) (hpoint : e.isPoint = false)
      (hevaluated : ∀ c ∈ e.evaluated, StaysInside c) : StaysInside e

/-- A tree without calls of user functions and derivatives at a point evaluates none. -/
theorem staysInside_of_occurs (hcall : e.occurs (·.kind = .call) = false)
    (hpoint : e.occurs isPoint = false) : e.StaysInside := by
  induction e using children_induction with
  | h e ih =>
    obtain ⟨hcall, hcalls⟩ := occurs_eq_false hcall
    obtain ⟨hpoint, hpoints⟩ := occurs_eq_false hpoint
    refine .node (of_decide_eq_false hcall) hpoint fun c hc => ?_
    have hchild : c ∈ e.children := mem_children_of_evaluated hc
    exact ih c hchild (hcalls c hchild) (hpoints c hchild)

/-- A name that does not occur in a tree is not accessed by its root. -/
theorem ne_of_accessed (h : e.hasVariable n = false) {x : String} (hx : x ∈ e.accessed) :
    x ≠ n := by
  unfold accessed at hx
  split at hx <;> simp_all [hasVariable, hasVariableList]

/-! ## Evaluation -/

/-- Environments that agree but for one name, with what each of them binds it to. -/
structure Separated (n : String) (bound bound' : List (Option (Value K)) × Option (Value K))
    (env env' : Environment K) : Prop where
  agrees : env.AgreesExcept n env'
  left : env.bindingsOf n = bound
  right : env'.bindingsOf n = bound'

/-- Such environments are used alike, for all other names. -/
theorem respects_separated :
    Respects (Separated n bound bound' : Environment K → _ → Prop) (· ≠ n) Eq where
  depth henv := henv.agrees.scopes.length_eq.symm
  get? hname henv := henv.agrees.get? hname
  function? {env env'} name arity henv := by
    rw [henv.agrees.functions name arity]
    cases env.function? name arity with
    | none => exact .none
    | some definition => exact .some ⟨rfl, rfl⟩
  set {env env' name} value hname henv := by
    have hset := henv.agrees.set hname value
    generalize hleft : env.set name value = r at hset ⊢
    generalize hright : env'.set name value = r' at hset ⊢
    cases hset with
    | error => exact .error _
    | ok hagrees =>
      exact .ok ⟨hagrees, (Environment.bindingsOf_set hname hleft).trans henv.left,
        (Environment.bindingsOf_set hname hright).trans henv.right⟩
  remove {env env' name} hname henv := by
    have hremove := henv.agrees.remove hname
    generalize hleft : env.remove name = r at hremove ⊢
    generalize hright : env'.remove name = r' at hremove ⊢
    cases hremove with
    | error => exact .error _
    | ok hagrees =>
      exact .ok ⟨hagrees.1, hagrees.2, (Environment.bindingsOf_remove hname hleft).trans henv.left,
        (Environment.bindingsOf_remove hname hright).trans henv.right⟩
  defineFunction {env env' definition definition'} name hdefinition henv := by
    obtain ⟨parameters, body⟩ := definition
    obtain ⟨parameters', body'⟩ := definition'
    obtain rfl : parameters' = parameters := hdefinition.parameters
    obtain rfl : body = body' := hdefinition.body
    exact ⟨henv.agrees.defineFunction name _, henv.left, henv.right⟩
  removeFunction name arity henv :=
    ⟨henv.agrees.removeFunction name arity, henv.left, henv.right⟩

/-- Trees that do not mention the name, and stay inside of themselves, do the same in such
environments. -/
theorem mirrors_separated {enter enter' : Expr K → Eval K (Value K)} {F : Failure K → Prop} :
    Mirrors enter enter' (fun e => e.hasVariable n = false ∧ e.StaysInside)
      (Separated n bound bound') (· ≠ n) Eq F where
  toRespects := respects_separated
  evaluated {e c} he hc := by
    obtain ⟨hvariable, ⟨_, _, hevaluated⟩⟩ := he
    have hany := List.any_eq_false.1 (any_hasVariable_children hvariable)
    exact ⟨Bool.eq_false_iff.2 (hany c (mem_children_of_evaluated hc)), hevaluated c hc⟩
  accessed he hx := ne_of_accessed he.1 hx
  call he _ := by
    obtain ⟨-, ⟨hcall, _, _⟩⟩ := he
    exact absurd rfl hcall
  point he := by
    obtain ⟨-, ⟨_, hpoint, _⟩⟩ := he
    cases hpoint
  body _ := rfl

variable [Scalar K] {env env' : Environment K}

/-- A tree does the same with any fuel. -/
theorem evalWithin_separated (hvariable : e.hasVariable n = false) (hinside : e.StaysInside)
    (fuel : Nat) :
    Simulates (Separated n bound bound') Eq (fun _ => True) (e.evalWithin fuel)
      (e.evalWithin fuel) := by
  cases fuel with
  | zero => exact .throw _
  | succ fuel => exact eval_mirrors mirrors_separated (.inl rfl) ⟨hvariable, hinside⟩

/-- Where an evaluation ends, it ends in an environment that agrees but for the name. -/
theorem Ends.of_agreesExcept (hvariable : e.hasVariable n = false) (hinside : e.StaysInside)
    (henv : env.AgreesExcept n env') (h : e.Ends env) : e.Ends env' := by
  obtain ⟨outcome, hends, least, hleast⟩ := h
  obtain ⟨hresult, -⟩ :=
    evalWithin_separated hvariable hinside least env env' ⟨henv, rfl, rfl⟩ fun _ _ => trivial
  have hsame : ((e.evalWithin least).run env').1 = outcome.1 := by
    rw [hresult.eq, hleast least (Nat.le_refl least)]
  refine ⟨(e.evalWithin least).run env', hsame ▸ hends, least, fun fuel hfuel => ?_⟩
  refine evalWithin_refines hfuel e env' fun f hf hout => hends ?_
  rw [← hsame, hf, hout]

/-- **Evaluation is local to the names that occur.** A tree that does not mention a name, and
evaluates neither user functions nor derivatives at a point, ends alike in two environments that
agree but for the bindings of the name, with the same value or the same error; the environments
agree again afterwards, and each of them binds the name to what it did before. With any fuel, so
that one evaluation has an end if the other one has. -/
theorem evalWithin_local (hvariable : e.hasVariable n = false) (hinside : e.StaysInside)
    (henv : env.AgreesExcept n env') :
    (∀ fuel,
      ((e.evalWithin fuel).run env').1 = ((e.evalWithin fuel).run env).1 ∧
      ((e.evalWithin fuel).run env).2.AgreesExcept n ((e.evalWithin fuel).run env').2 ∧
      ((e.evalWithin fuel).run env).2.bindingsOf n = env.bindingsOf n ∧
      ((e.evalWithin fuel).run env').2.bindingsOf n = env'.bindingsOf n) ∧
    (e.Ends env ↔ e.Ends env') := by
  constructor
  · intro fuel
    obtain ⟨hresult, hafter⟩ :=
      evalWithin_separated hvariable hinside fuel env env' ⟨henv, rfl, rfl⟩ fun _ _ => trivial
    exact ⟨hresult.eq, hafter.agrees, hafter.left, hafter.right⟩
  · exact ⟨Ends.of_agreesExcept hvariable hinside henv,
      Ends.of_agreesExcept hvariable hinside henv.symm⟩

/-- A conditional that counts and then defines a function, with and without a variable `n` in the
innermost scope. -/
theorem evalWithin_local_definition :
    let e : Expr Binary64 := .ifThenElse (.binary .lt (.step .increment "x") (.number Scalar.two))
      (.define (.call "f" [.var "y"]) (.binary .add (.var "x") (.var "y"))) (.undefine (.var "x"))
    let scope : Scope Binary64 := .ofList [("x", .number Scalar.zero)]
    let env : Environment Binary64 := Environment.initial.push (scope.insert "n" (.bool true))
    let env' : Environment Binary64 := Environment.initial.push scope
    e.hasVariable "n" = false ∧ e.StaysInside ∧ env.AgreesExcept "n" env' ∧
      (e.execute env').1 = (e.execute env).1 ∧
        (e.execute env).2.AgreesExcept "n" (e.execute env').2 ∧
          (e.execute env).2.bindingsOf "n" = ([some (.bool true), none], none) ∧
            (e.execute env').2.bindingsOf "n" = ([none, none], none) := by
  intro e scope env env'
  have hcondition : StaysInside
      (.binary .lt (.step .increment "x") (.number Scalar.two) : Expr Binary64) :=
    staysInside_of_occurs (by decide) (by decide)
  have hdefinition : StaysInside (.define (.call "f" [.var "y"])
      (.binary .add (.var "x") (.var "y")) : Expr Binary64) := .node nofun rfl nofun
  have hremoval : StaysInside (.undefine (.var "x") : Expr Binary64) := .node nofun rfl nofun
  have hinside : e.StaysInside := .node nofun rfl <| List.forall_mem_cons.2
    ⟨hcondition, List.forall_mem_cons.2 ⟨hdefinition, List.forall_mem_singleton.2 hremoval⟩⟩
  have henv : env.AgreesExcept "n" env' :=
    { scopes := .cons (fun _ hname => (Bindings.get?_insert_of_ne hname).symm)
        (.cons (fun _ _ => rfl) .nil)
      constants := fun _ _ => rfl
      functions := fun _ _ => rfl }
  obtain ⟨hresult, hagrees, hleft, hright⟩ :=
    (evalWithin_local (n := "n") rfl hinside henv).1 evaluationFuel
  exact ⟨rfl, hinside, henv, hresult, hagrees, hleft, hright⟩

end Expr

end Formula

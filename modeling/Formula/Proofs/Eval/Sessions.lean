import Formula.Binary64.Scalar
import Formula.Calculate
import Formula.Proofs.Eval.Invariants

/-!
# What a session leaves intact

A session calculates formulas one after the other, each in the environment that the one before it
left. Between formulas only the outermost scope is open, and it binds no constant: a parameter with
the name of a constant is bound in a scope of its own, which is closed on every way out, and
nothing else binds such a name. The table of user functions has every function under the number of
its parameters.

While a formula is evaluated the innermost scopes may bind constants. What holds at every moment is
`Environment.Intact`.
-/

namespace Formula

open Formula.Expr Formula.Eval

variable {K : Type} [Scalar K]

/-- So many scopes are open, the outermost binds no constant, the constants are those of a new
environment, and every user function is bound under the number of its parameters. -/
structure Environment.Intact (n : Nat) (env : Environment K) : Prop where
  depth : env.depth = n
  outermost : ∀ last name, env.scopes.getLast? = some last → env.isConstant name = true →
    last.get? name = none
  constants : env.constants = (initial : Environment K).constants
  functions : ∀ entry ∈ env.functions.entries, entry.2.parameters.length = entry.1.2

namespace Environment.Intact

variable {env env' : Environment K} {n : Nat} {name : String} {value : Value K}

/-- A new environment. -/
theorem initial : (initial : Environment K).Intact 1 where
  depth := rfl
  outermost last name hlast _ := by
    cases hlast
    rfl
  constants := rfl
  functions := nofun

/-- Binding a name. -/
theorem set (h : env.Intact n) (hset : env.set name value = .ok env') : env'.Intact n := by
  refine ⟨(depth_set hset).trans h.depth, fun last' other hlast' hother => ?_, ?_, ?_⟩
  · obtain ⟨hname, scopes, rfl, hscopes⟩ := set_cases hset
    have hne : other ≠ name := by
      rintro rfl
      exact Bool.noConfusion (hname.symm.trans hother)
    have hlast : ∃ last, env.scopes.getLast? = some last ∧
        (last' = last ∨ last' = last.insert name value) := by
      rcases hscopes with rfl | rfl
      · exact getLast?_modifyScope hlast'
      · exact getLast?_modifyInnermost hlast'
    obtain ⟨last, hlast, rfl | rfl⟩ := hlast
    · exact h.outermost _ other hlast hother
    · rw [Bindings.get?_insert_of_ne hne]
      exact h.outermost last other hlast hother
  · obtain ⟨-, scopes, rfl, -⟩ := set_cases hset
    exact h.constants
  · obtain ⟨-, scopes, rfl, -⟩ := set_cases hset
    exact h.functions

/-- Removing a name. -/
theorem remove {old : Option (Value K)} (h : env.Intact n)
    (hremove : env.remove name = .ok (old, env')) : env'.Intact n := by
  have hdepth : env'.depth = n := (depth_remove hremove).trans h.depth
  obtain ⟨hname, rfl⟩ := remove_cases hremove
  refine ⟨hdepth, fun last' other hlast' hother => ?_, h.constants, h.functions⟩
  have hne : other ≠ name := by
    rintro rfl
    exact Bool.noConfusion (hname.symm.trans hother)
  obtain ⟨last, hlast, rfl | rfl⟩ := getLast?_modifyScope hlast'
  · exact h.outermost _ other hlast hother
  · rw [Bindings.get?_erase_of_ne hne]
    exact h.outermost last other hlast hother

/-- Binding a user function under the number of its parameters. -/
theorem defineFunction {definition : FunctionDefinition K} (h : env.Intact n) :
    (env.defineFunction name definition).Intact n where
  depth := h.depth
  outermost := h.outermost
  constants := h.constants
  functions := by
    refine List.forall_mem_cons.2 ⟨rfl, fun entry hentry => ?_⟩
    exact h.functions entry (List.mem_filter.1 hentry).1

/-- Removing a user function. -/
theorem removeFunction {arity : Nat} (h : env.Intact n) :
    (env.removeFunction name arity).2.Intact n where
  depth := h.depth
  outermost := h.outermost
  constants := h.constants
  functions entry hentry := h.functions entry (List.mem_filter.1 hentry).1

/-- Opening a scope over others. It may bind constants. -/
theorem push {scope : Scope K} (hn : 0 < n) (h : env.Intact n) :
    (env.push scope).Intact (n + 1) where
  depth := congrArg Nat.succ h.depth
  outermost last other hlast hother := by
    have hlength : env.scopes.length = n := h.depth
    have hne : env.scopes ≠ [] := List.ne_nil_of_length_pos (hlength ▸ hn)
    rw [Environment.push, List.getLast?_cons_of_ne_nil hne] at hlast
    exact h.outermost last other hlast hother
  constants := h.constants
  functions := h.functions

/-- Closing a scope under which others are open. -/
theorem pop (hn : 0 < n) (h : env.Intact (n + 1)) : env.pop.Intact n := by
  have hdepth : env.pop.depth = n := depth_pop h.depth hn
  obtain ⟨scopes, hpop, hlast⟩ := pop_cases env
  rw [hpop] at hdepth ⊢
  exact ⟨hdepth, fun last name h' => h.outermost last name (hlast ▸ h'), h.constants, h.functions⟩

/-- A user function is found under the number of its parameters. -/
theorem function? {arity : Nat} {definition : FunctionDefinition K} (h : env.Intact n)
    (hget : env.function? name arity = some definition) : definition.parameters.length = arity :=
  h.functions _ (Bindings.mem_of_get? hget)

/-- With one scope open a constant stands for its value, and no scope binds it. -/
theorem get?_constant (h : env.Intact 1)
    (hget : (Environment.initial : Environment K).get? name = some value) :
    env.get? name = some value ∧ ∀ scope ∈ env.scopes, scope.get? name = none := by
  have hvalue : env.constants.get? name = some value := by
    rw [h.constants]
    exact hget
  obtain ⟨scope, hscopes⟩ := List.length_eq_one_iff.1 h.depth
  have hnone : scope.get? name = none := by
    refine h.outermost scope name (by rw [hscopes, List.getLast?_singleton]) ?_
    rw [isConstant, Bindings.contains, hvalue, Option.isSome_some]
  rw [Environment.get?, hscopes, List.findSome?_singleton, hnone]
  exact ⟨hvalue, List.forall_mem_singleton.2 hnone⟩

/-- Every operation leaves an environment intact. -/
theorem stable : Stable fun n (env : Environment K) => env.Intact n where
  set := set
  remove := remove
  defineFunction := defineFunction
  removeFunction := removeFunction
  push := push
  pop := pop

end Environment.Intact

/-- So does every construct. -/
theorem invariant_intact :
    Invariant (fun _ : Expr K => True) (fun _ => True) (fun n env => env.Intact n)
      fun _ => True := Environment.Intact.stable.invariant

/-! ## Sessions -/

/-- The environment after some formulas, whether or not they have values. -/
def session (sources : List String) : Environment K :=
  sources.foldl (fun env source => (calculate source env).2) .initial

/-- Calculating a formula leaves an environment intact. -/
theorem Environment.Intact.calculate {env : Environment K} (h : env.Intact 1) (source : String) :
    (calculate source env).2.Intact 1 := by
  unfold Formula.calculate
  split
  · exact h
  · next tree _ =>
    exact (invariant_intact.evalWithin evaluationFuel Nat.one_pos trivial).environment h

/-- Sessions leave environments intact. -/
theorem session_intact (sources : List String) : (session sources : Environment K).Intact 1 := by
  have fold (env : Environment K) (h : env.Intact 1) :
      (sources.foldl (fun env source => (Formula.calculate source env).2) env).Intact 1 := by
    induction sources generalizing env with
    | nil => exact h
    | cons source sources ih => exact ih _ (h.calculate source)
  exact fold _ .initial

/-- **After every formula of a session** each constant stands for what it stands for in a new
environment and is bound in no scope, and every user function is bound under the number of its
parameters. **While the next formula is evaluated** a call finds no function with another number of
parameters. -/
theorem session_keeps_constants (sources : List String) :
    (∀ name value, (Environment.initial : Environment K).get? name = some value →
      (session sources : Environment K).get? name = some value ∧
        ∀ scope ∈ (session sources : Environment K).scopes, scope.get? name = none) ∧
    (∀ entry ∈ (session sources : Environment K).functions.entries,
      entry.2.parameters.length = entry.1.2) ∧
    ∀ source (tree : Expr K), parse source = .ok tree →
      ∀ r, (Run.mk evaluationFuel tree (session sources)).Involves r →
        ∀ name arity definition, r.env.function? name arity = some definition →
          definition.parameters.length = arity := by
  have h : (session sources : Environment K).Intact 1 := session_intact sources
  refine ⟨fun name value hget => h.get?_constant hget, h.functions, ?_⟩
  intro source tree _ r hr name arity definition hdefinition
  obtain ⟨-, m, -, hintact⟩ := invariant_intact.involves hr Nat.one_pos trivial h
  exact hintact.function? hdefinition

/-- A function whose parameter has the name of a constant, an assignment to the constant, and a call
of the function. -/
theorem session_keeps_constants_pi :
    let env : Environment Binary64 := session ["f(pi) := pi + 1", "pi := 3", "x := f(2)"]
    (Environment.initial : Environment Binary64).get? "pi" = some (.number Scalar.pi) ∧
      (env.get? "pi" = some (.number Scalar.pi) ∧ ∀ scope ∈ env.scopes, scope.get? "pi" = none) ∧
        ∃ tree r definition, parse "f(x)" = .ok tree ∧
          (Run.mk evaluationFuel tree env).Involves r ∧
            r.env.function? "f" 1 = some definition ∧ definition.parameters.length = 1 := by
  have hpi : (Environment.initial : Environment Binary64).get? "pi" = some (.number Scalar.pi) :=
    rfl
  have hdefined : ((session ["f(pi) := pi + 1", "pi := 3", "x := f(2)"] :
      Environment Binary64).function? "f" 1).isSome = true := by decide +kernel
  have hread : (parse "f(x)" : Except ParseError (Expr Binary64)).isOk = true := by decide +kernel
  obtain ⟨definition, hdefinition⟩ := Option.isSome_iff_exists.1 hdefined
  obtain ⟨hconstants, -, hcalls⟩ := session_keeps_constants (K := Binary64)
    ["f(pi) := pi + 1", "pi := 3", "x := f(2)"]
  obtain ⟨tree, hparse⟩ : ∃ tree : Expr Binary64, parse "f(x)" = .ok tree := by
    cases hparse : (parse "f(x)" : Except ParseError (Expr Binary64)) with
    | error cause =>
      rw [hparse] at hread
      cases hread
    | ok tree => exact ⟨tree, rfl⟩
  generalize (session ["f(pi) := pi + 1", "pi := 3", "x := f(2)"] : Environment Binary64) = env
    at hdefinition hconstants hcalls ⊢
  exact ⟨hpi, hconstants "pi" _ hpi, tree, ⟨evaluationFuel, tree, env⟩, definition, hparse, .refl,
    hdefinition, hcalls "f(x)" tree hparse _ .refl "f" 1 definition hdefinition⟩

end Formula

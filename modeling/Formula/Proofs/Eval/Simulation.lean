import Formula.Proofs.Environment
import Formula.Proofs.Eval
import Formula.Proofs.Expr

/-!
# One evaluation simulates another

`Simulates R Q F x y` compares two evaluations in environments that `R` relates. Wherever `x` has a
value, `y` has a value that `Q` relates to it; where `x` fails with a failure that satisfies `F`, so
does `y`; and the environments are related again afterwards. Failures without `F` do not count.

The relation composes along sequences, and for each construct of a tree there is a rule that leads
from the parts to the whole. Trees, the limit of loops and what happens outside of the tree may
differ between the two sides. What the rules ask of `R` is in `Respects R N B`: related environments
are used alike, for the names with `N` and for bodies of user functions that `B` relates. Together
they say that a tree simulates itself (`eval_mirrors`), if the names that it accesses are of this
kind and what happens outside of it simulates itself too. One instance are environments that agree
but for the bodies of user functions (`eval_simulates`).
-/

namespace Formula.Eval

open Formula.Expr

variable {K α α' β β' : Type} {R : Environment K → Environment K → Prop} {F : Failure K → Prop}

/-- In environments related by `R`, whatever `x` ends with, a value or a failure with `F`, the
evaluation `y` ends with the same failure or a value related by `Q`. -/
def Simulates (R : Environment K → Environment K → Prop) (Q : α → α' → Prop)
    (F : Failure K → Prop) (x : Eval K α) (y : Eval K α') : Prop :=
  ∀ env env' : Environment K, R env env' → (∀ f, (x.run env).1 = .error f → F f) →
    Result.Rel Q (x.run env).1 (y.run env').1 ∧ R (x.run env).2 (y.run env').2

/-- A value of `x` leads to a value of `y`. -/
theorem Simulates.value {Q : α → α' → Prop} {x : Eval K α} {y : Eval K α'}
    (hxy : Simulates R Q F x y) {env env' after : Environment K} {a : α} (henv : R env env')
    (hx : x.run env = (.ok a, after)) :
    ∃ a' after', y.run env' = (.ok a', after') ∧ Q a a' ∧ R after after' := by
  have h := hxy env env' henv
  rcases hy : y.run env' with ⟨r, after'⟩
  rw [hx, hy] at h
  obtain ⟨hr, hafter⟩ := h nofun
  cases hr with
  | ok ha => exact ⟨_, after', rfl, ha, hafter⟩

/-! ## Sequences -/

section

variable {Q : α → α' → Prop} {S : β → β' → Prop} {x : Eval K α} {y : Eval K α'}

/-- Related values. -/
theorem Simulates.pure {a : α} {a' : α'} (ha : Q a a') :
    Simulates R Q F (pure a : Eval K α) (pure a' : Eval K α') :=
  fun _ _ henv _ => ⟨.ok ha, henv⟩

/-- The same failure. -/
theorem Simulates.throw (f : Failure K) :
    Simulates R Q F (throw f : Eval K α) (throw f : Eval K α') :=
  fun _ _ henv _ => ⟨.error f, henv⟩

/-- A failure that does not count. -/
theorem Simulates.uncounted {f : Failure K} (hf : ¬F f) :
    Simulates R Q F (MonadExcept.throw f : Eval K α) y :=
  fun _ _ _ hF => absurd (hF f rfl) hf

/-- A sequence goes on with related values. -/
theorem Simulates.bind {k : α → Eval K β} {k' : α' → Eval K β'} (hxy : Simulates R Q F x y)
    (hk : ∀ a a', Q a a' → Simulates R S F (k a) (k' a')) :
    Simulates R S F (x >>= k) (y >>= k') := fun env env' henv hF => by
  rcases hx : x.run env with ⟨f | a, after⟩
  · have h := hxy env env' henv
    rcases hy : y.run env' with ⟨r, after'⟩
    rw [hx, hy] at h
    rw [run_bind_error hx] at hF ⊢
    obtain ⟨hr, hafter⟩ := h fun g hg => hF g (by cases hg; rfl)
    cases hr
    rw [run_bind_error hy]
    exact ⟨.error f, hafter⟩
  · obtain ⟨a', after', hy, ha, hafter⟩ := hxy.value henv hx
    rw [run_bind_ok hx] at hF ⊢
    rw [run_bind_ok hy]
    exact hk a a' ha after after' hafter hF

/-- A sequence goes on with the same value. -/
theorem Simulates.next {x y : Eval K α} {k : α → Eval K β} {k' : α → Eval K β'}
    (hxy : Simulates R Eq F x y) (hk : ∀ a, Simulates R S F (k a) (k' a)) :
    Simulates R S F (x >>= k) (y >>= k') :=
  hxy.bind fun a _ ha => ha ▸ hk a

/-- The environments. -/
theorem Simulates.get :
    Simulates R R F (get : Eval K (Environment K)) get :=
  fun _ _ henv _ => ⟨.ok henv, henv⟩

/-- Other environments that agree. -/
theorem Simulates.set {env env' : Environment K} (henv : R env env') :
    Simulates R Eq F (set env : Eval K PUnit) (set env') := fun _ _ _ _ => ⟨.ok rfl, henv⟩

/-- Results that are related. -/
theorem Simulates.ofResult {r : Result K α} {r' : Result K α'} (h : Result.Rel Q r r') :
    Simulates R Q F (ofResult r) (ofResult r') := by
  cases h with
  | ok ha => exact .pure ha
  | error cause => exact .throw _

/-- The same result. -/
theorem Simulates.result (r : Result K α) : Simulates R Eq F (Eval.ofResult r) (Eval.ofResult r) :=
  .ofResult (.refl r)

/-- A scope of its own. -/
theorem Simulates.inScope {scope : Scope K}
    (hpush : ∀ {env env'}, R env env' → R (env.push scope) (env'.push scope))
    (hpop : ∀ {env env'}, R env env' → R env.pop env'.pop) (hxy : Simulates R Q F x y) :
    Simulates R Q F (inScope scope x) (inScope scope y) := fun _ _ henv hF =>
  (hxy _ _ (hpush henv) hF).imp_right hpop

/-- The same number, or a larger one where running out of fuel does not count. -/
def Lasts (F : Failure K → Prop) (n m : Nat) : Prop := n = m ∨ ¬F .outOfFuel ∧ n ≤ m

/-- A loop, that may run longer. -/
theorem Simulates.loop {c c' : Eval K Bool} {b b' : Eval K Unit}
    (hc : Simulates R Eq F c c') (hb : Simulates R Eq F b b') :
    ∀ {n m : Nat}, Lasts F n m → Simulates R Eq F (loop c b n) (loop c' b' m)
  | 0, 0, _ => .throw _
  | 0, _ + 1, .inr ⟨hfuel, _⟩ => .uncounted hfuel
  | n + 1, m + 1, hnm => hc.next fun holds => by
    have hless : Lasts F n m := hnm.imp Nat.succ.inj fun h => ⟨h.1, Nat.le_of_succ_le_succ h.2⟩
    cases holds with
    | true => exact hb.next fun _ => .loop hc hb hless
    | false => exact .pure rfl

end

/-! ## Names -/

/-- Related environments are used alike: for the names with `N`, and for user functions with bodies
that `B` relates. -/
structure Respects (R : Environment K → Environment K → Prop) (N : String → Prop)
    (B : Expr K → Expr K → Prop) : Prop where
  depth : ∀ {env env'}, R env env' → env'.depth = env.depth
  get? : ∀ {env env' name}, N name → R env env' → env'.get? name = env.get? name
  function? : ∀ {env env'} name arity, R env env' →
    Option.Rel (FunctionDefinition.Agrees B) (env.function? name arity) (env'.function? name arity)
  set : ∀ {env env' name} value, N name → R env env' →
    Result.Rel R (env.set name value) (env'.set name value)
  remove : ∀ {env env' name}, N name → R env env' →
    Result.Rel (fun removed removed' => removed'.1 = removed.1 ∧ R removed.2 removed'.2)
      (env.remove name) (env'.remove name)
  defineFunction : ∀ {env env' definition definition'} name, definition.Agrees B definition' →
    R env env' → R (env.defineFunction name definition) (env'.defineFunction name definition')
  removeFunction : ∀ {env env'} name arity, R env env' →
    R (env.removeFunction name arity).2 (env'.removeFunction name arity).2

/-- Environments that agree but for bodies related by `B` are used alike, for all names. -/
theorem respects_agrees (B : Expr K → Expr K → Prop) :
    Respects (Environment.Agrees B) (fun _ => True) B where
  depth henv := henv.depth
  get? _ henv := henv.get? _
  function? name arity henv := henv.function? name arity
  set value _ henv := henv.set _ value
  remove _ henv := henv.remove _
  defineFunction name hdefinition henv := henv.defineFunction name hdefinition
  removeFunction name arity henv := henv.removeFunction name arity

section

variable {N : String → Prop} {B : Expr K → Expr K → Prop} (h : Respects R N B) {name : String}

include h

/-- The same functions are defined. -/
theorem Respects.isSome_function? {env env' : Environment K} (henv : R env env') (arity : Nat) :
    (env'.function? name arity).isSome = (env.function? name arity).isSome := by
  have hdefinition := h.function? name arity henv
  generalize env.function? name arity = definition at hdefinition ⊢
  generalize env'.function? name arity = definition' at hdefinition ⊢
  cases hdefinition <;> rfl

/-- The tree that a symbolic function works on. -/
theorem Respects.symbolicArgument {env env' : Environment K} {e : Expr K}
    (he : ∀ x, e = .var x → N x) (henv : R env env') :
    symbolicArgument env' e = symbolicArgument env e := by
  unfold Expr.symbolicArgument
  split
  · next x => rw [h.get? (he x rfl) henv]
  · rfl

/-- The value of a name. -/
theorem Simulates.lookup (hname : N name) :
    Simulates R Eq F (lookup name : Eval K (Value K)) (lookup name) :=
  Simulates.get.bind fun env env' henv => by
    rw [h.get? hname henv]
    split
    · exact .pure rfl
    · exact .throw _

/-- Binding a name. -/
theorem Simulates.store (hname : N name) {value : Value K} :
    Simulates R Eq F (store name value) (store name value) :=
  Simulates.get.bind fun _ _ henv =>
    (Simulates.ofResult (h.set value hname henv)).bind fun _ _ henv => .set henv

/-- The definition of a variable. -/
theorem Simulates.defineVariable [Scalar K] (hname : N name) {value : Value K} :
    Simulates R Eq F (defineVariable name value) (defineVariable name value) :=
  (Simulates.store h hname).next fun _ => .pure rfl

/-- The definition of a function, with bodies that are related. -/
theorem Simulates.defineFunction [Scalar K] {arguments : List (Expr K)} {body body' : Expr K}
    (hbody : B body body') :
    Simulates R Eq F (defineFunction name arguments body)
      (defineFunction name arguments body') := by
  unfold Expr.defineFunction
  split
  · next parameters _ =>
    have hmodify : Simulates R Eq F
        (modify (·.defineFunction name ⟨parameters, body⟩) : Eval K PUnit)
        (modify (·.defineFunction name ⟨parameters, body'⟩)) :=
      fun _ _ henv _ => ⟨.ok rfl, h.defineFunction name ⟨rfl, hbody⟩ henv⟩
    exact hmodify.next fun _ => .pure rfl
  · exact .throw _

/-- The removal of a key. -/
theorem Simulates.remove [Scalar K] {key : Expr K} (hkey : ∀ x, key = .var x → N x) :
    Simulates R Eq F (remove key) (remove key) := by
  unfold Expr.remove
  split
  · next x =>
    refine Simulates.get.bind fun _ _ henv =>
      (Simulates.ofResult (h.remove (hkey x rfl) henv)).bind ?_
    rintro ⟨old, env⟩ ⟨old', env'⟩ ⟨rfl, henv⟩
    exact (Simulates.set henv).next fun _ => (Simulates.pure rfl).next fun _ => .pure rfl
  · next name arguments =>
    refine Simulates.get.bind fun env env' henv => ?_
    exact (Simulates.set (h.removeFunction _ _ henv)).next fun _ =>
      (Simulates.pure (h.isSome_function? henv _).symm).next fun _ => .pure rfl
  · exact (Simulates.throw _).next fun _ => .pure rfl

/-- A step. -/
theorem Simulates.applyStep [Scalar K] {op : StepOp} (hname : N name) :
    Simulates R Eq F (applyStep op name : Eval K (Value K)) (applyStep op name) :=
  (Simulates.lookup h hname).next fun _ => (Simulates.result _).next fun _ =>
    (Simulates.store h hname).next fun _ => .pure rfl

/-- The definition that a call goes to. -/
theorem Simulates.callee {arity : Nat} :
    Simulates R (FunctionDefinition.Agrees B) F (callee name arity) (callee name arity) :=
  Simulates.get.bind fun env env' henv => by
    have hdefinition := h.function? name arity henv
    generalize env.function? name arity = definition at hdefinition ⊢
    generalize env'.function? name arity = definition' at hdefinition ⊢
    cases hdefinition with
    | none => exact .throw _
    | some hdefinition =>
      dsimp only
      rw [h.depth henv, hdefinition.parameters]
      split
      · exact .throw _
      · split
        · exact .throw _
        · exact .pure hdefinition

end

/-- A count of arguments is checked. -/
theorem Simulates.checkArity {f : Builtin} {count : Nat} :
    Simulates R Eq F (checkArity f count : Eval K Unit) (checkArity f count) := by
  unfold Expr.checkArity
  split
  · exact .pure rfl
  · exact .throw _

/-! ## Trees -/

section

variable [Scalar K] {enter enter' : Expr K → Eval K (Value K)} {loops loops' : Nat}
  {N : String → Prop} {B : Expr K → Expr K → Prop} {a a' b b' c c' d d' : Expr K}
  {as as' : List (Expr K)}

/-- An operator of one operand. -/
theorem Simulates.unary {op : UnaryOp}
    (ha : Simulates R Eq F (eval enter loops a) (eval enter' loops' a')) :
    Simulates R Eq F (eval enter loops (.unary op a)) (eval enter' loops' (.unary op a')) :=
  ha.next fun _ => .result _

/-- An operator of two operands. -/
theorem Simulates.binary {op : BinaryOp}
    (ha : Simulates R Eq F (eval enter loops a) (eval enter' loops' a'))
    (hb : Simulates R Eq F (eval enter loops b) (eval enter' loops' b')) :
    Simulates R Eq F (eval enter loops (.binary op a b))
      (eval enter' loops' (.binary op a' b')) := by
  rw [eval, eval]
  split
  · refine ha.next fun v => (Simulates.result _).next fun left => ?_
    split
    · exact .pure rfl
    · exact hb.next fun _ => (Simulates.result _).next fun _ => .pure rfl
  · exact ha.next fun _ => hb.next fun _ => .result _

/-- A conditional with one branch. -/
theorem Simulates.ifThen (hc : Simulates R Eq F (eval enter loops c) (eval enter' loops' c'))
    (ha : Simulates R Eq F (eval enter loops a) (eval enter' loops' a')) :
    Simulates R Eq F (eval enter loops (.ifThen c a)) (eval enter' loops' (.ifThen c' a')) :=
  hc.next fun _ => (Simulates.result _).next fun holds => by
    cases holds with
    | true => exact ha
    | false => exact .pure rfl

/-- A conditional with two branches. -/
theorem Simulates.ifThenElse (hc : Simulates R Eq F (eval enter loops c) (eval enter' loops' c'))
    (ha : Simulates R Eq F (eval enter loops a) (eval enter' loops' a'))
    (hb : Simulates R Eq F (eval enter loops b) (eval enter' loops' b')) :
    Simulates R Eq F (eval enter loops (.ifThenElse c a b))
      (eval enter' loops' (.ifThenElse c' a' b')) :=
  hc.next fun _ => (Simulates.result _).next fun holds => by
    cases holds with
    | true => exact ha
    | false => exact hb

/-- A list of trees. -/
theorem Simulates.list
    (h : List.Forall₂ (fun a a' => Simulates R Eq F (eval enter loops a) (eval enter' loops' a'))
      as as') : Simulates R Eq F (evalList enter loops as) (evalList enter' loops' as') := by
  induction h with
  | nil => exact .pure rfl
  | cons ha _ ih => exact ha.next fun _ => ih.next fun _ => .pure rfl

/-- A list of numbers. -/
theorem Simulates.numbers {operation : String}
    (h : List.Forall₂ (fun a a' => Simulates R Eq F (eval enter loops a) (eval enter' loops' a'))
      as as') :
    Simulates R Eq F (evalNumbers enter loops operation as)
      (evalNumbers enter' loops' operation as') := by
  induction h with
  | nil => exact .pure rfl
  | cons ha _ ih =>
    exact ha.next fun _ => (Simulates.result _).next fun _ => ih.next fun _ => .pure rfl

/-- The rows of a matrix. -/
theorem Simulates.rows {rows rows' : List (List (Expr K))}
    (h : List.Forall₂ (List.Forall₂ fun a a' =>
      Simulates R Eq F (eval enter loops a) (eval enter' loops' a')) rows rows') :
    Simulates R Eq F (evalRows enter loops rows) (evalRows enter' loops' rows') := by
  induction h with
  | nil => exact .pure rfl
  | cons hrow _ ih => exact (Simulates.numbers hrow).next fun _ => ih.next fun _ => .pure rfl

/-- A built-in function on values. -/
theorem Simulates.builtin {f : Builtin} (hf : f.isSymbolic = false)
    (h : List.Forall₂ (fun a a' => Simulates R Eq F (eval enter loops a) (eval enter' loops' a'))
      as as') :
    Simulates R Eq F (eval enter loops (.builtin f as)) (eval enter' loops' (.builtin f as')) := by
  rw [eval_builtin hf, eval_builtin hf, h.length_eq]
  exact Simulates.checkArity.next fun _ => (Simulates.list h).next fun _ => .result _

/-- A vector. -/
theorem Simulates.vector
    (h : List.Forall₂ (fun a a' => Simulates R Eq F (eval enter loops a) (eval enter' loops' a'))
      as as') :
    Simulates R Eq F (eval enter loops (.vector as)) (eval enter' loops' (.vector as')) :=
  (Simulates.numbers h).next fun _ => .pure rfl

/-- A matrix. -/
theorem Simulates.matrix {rows rows' : List (List (Expr K))}
    (h : List.Forall₂ (List.Forall₂ fun a a' =>
      Simulates R Eq F (eval enter loops a) (eval enter' loops' a')) rows rows') :
    Simulates R Eq F (eval enter loops (.matrix rows)) (eval enter' loops' (.matrix rows')) :=
  (Simulates.rows h).next fun _ => .pure rfl

/-- A compound assignment. -/
theorem Simulates.assign {op : AssignOp} {name : String} (h : Respects R N B) (hname : N name)
    (ha : Simulates R Eq F (eval enter loops a) (eval enter' loops' a')) :
    Simulates R Eq F (eval enter loops (.assign op name a))
      (eval enter' loops' (.assign op name a')) :=
  (Simulates.lookup h hname).next fun _ => (Simulates.result _).next fun _ => ha.next fun _ =>
    (Simulates.result _).next fun _ => (Simulates.store h hname).next fun _ => .pure rfl

/-- A definition: of a variable with a value, or of a function with a body. -/
theorem Simulates.define {key : Expr K} (h : Respects R N B)
    (hvariable : ∀ x, key = .var x →
      N x ∧ Simulates R Eq F (eval enter loops a) (eval enter' loops' a'))
    (hbody : key.kind = .call → B a a') :
    Simulates R Eq F (eval enter loops (.define key a)) (eval enter' loops' (.define key a')) := by
  cases key with
  | var x =>
    obtain ⟨hname, ha⟩ := hvariable x rfl
    exact ha.next fun _ => .defineVariable h hname
  | call => exact .defineFunction h (hbody rfl)
  | _ => exact .throw _

/-- A loop with a count. -/
theorem Simulates.forLoop (hloops : Lasts F loops loops')
    (hbody : Simulates R Eq F (eval enter loops b) (eval enter' loops' b'))
    (hinit : Simulates R Eq F (eval enter loops a) (eval enter' loops' a'))
    (hc : Simulates R Eq F (eval enter loops c) (eval enter' loops' c'))
    (hd : Simulates R Eq F (eval enter loops d) (eval enter' loops' d')) :
    Simulates R Eq F (eval enter loops (.forLoop b a c d))
      (eval enter' loops' (.forLoop b' a' c' d')) := by
  refine hinit.next fun _ => (Simulates.loop ?_ ?_ hloops).next fun _ => .pure rfl
  · exact hc.next fun _ => .result _
  · exact hbody.next fun _ => hd.next fun _ => .pure rfl

/-- A loop without a count. -/
theorem Simulates.whileLoop (hloops : Lasts F loops loops')
    (hbody : Simulates R Eq F (eval enter loops b) (eval enter' loops' b'))
    (hc : Simulates R Eq F (eval enter loops c) (eval enter' loops' c')) :
    Simulates R Eq F (eval enter loops (.whileLoop b c))
      (eval enter' loops' (.whileLoop b' c')) := by
  refine (Simulates.loop ?_ ?_ hloops).next fun _ => .pure rfl
  · exact hc.next fun _ => .result _
  · exact hbody.next fun _ => .pure rfl

/-- A call of a user function, if bodies that are related do the same in a scope of their own. -/
theorem Simulates.call {name : String} (h : Respects R N B)
    (henter : ∀ scope e e', B e e' →
      Simulates R Eq F (Eval.inScope scope (enter e)) (Eval.inScope scope (enter' e')))
    (has : List.Forall₂ (fun a a' => Simulates R Eq F (eval enter loops a) (eval enter' loops' a'))
      as as') :
    Simulates R Eq F (eval enter loops (.call name as)) (eval enter' loops' (.call name as')) := by
  rw [eval, eval, has.length_eq]
  refine (Simulates.callee h).bind fun definition definition' hdefinition =>
    (Simulates.list has).next fun _ => ?_
  rw [hdefinition.parameters]
  exact henter _ _ _ hdefinition.body

/-- The derivative of a symbolic argument. -/
theorem Simulates.deriveArgument {second? : Option (Expr K)}
    (h : ∀ {env env'}, R env env' → symbolicArgument env' a = symbolicArgument env a) :
    Simulates R Eq F (deriveArgument a second?) (deriveArgument a second?) :=
  (Simulates.result _).next fun _ => Simulates.get.bind fun _ _ henv => by
    rw [h henv]
    split
    · exact .pure rfl
    · exact .throw _

/-- A derivative, of arguments that have the same one. Of the others only a point is evaluated. -/
theorem Simulates.derivative
    (henter : as.length = 2 → ∀ scope e,
      Simulates R Eq F (Eval.inScope scope (enter e)) (Eval.inScope scope (enter' e)))
    (hderived : Simulates R Eq F (Expr.deriveArgument a as.head?)
      (Expr.deriveArgument a' as'.head?)) (hlength : as'.length = as.length)
    (h : List.Forall₂ (fun a a' => Simulates R Eq F (eval enter loops a) (eval enter' loops' a'))
      (as.drop 1) (as'.drop 1)) :
    Simulates R Eq F (eval enter loops (.builtin .derivative (a :: as)))
      (eval enter' loops' (.builtin .derivative (a' :: as'))) := by
  match as, as', hlength, h with
  | [], [], _, _ | [_], [_], _, _ =>
    exact Simulates.checkArity.next fun _ => hderived.next fun _ => .pure rfl
  | [_, _], [_, _], _, .cons hpoint .nil =>
    exact Simulates.checkArity.next fun _ => hderived.next fun _ => hpoint.next fun _ =>
      henter rfl _ _
  | _ :: _ :: _ :: _, _ :: _ :: _ :: _, hlength, _ =>
    simp only [List.length_cons, Nat.add_right_cancel_iff] at hlength
    simp only [eval, List.length_cons, hlength]
    exact Simulates.checkArity.next fun _ => .throw _

/-- A simplification, of arguments that have the same one. -/
theorem Simulates.simplify
    (h : ∀ {env env'}, R env env' →
      (symbolicArgument env' a').simplify = (symbolicArgument env a).simplify)
    (hlength : as'.length = as.length) :
    Simulates R Eq F (eval enter loops (.builtin .simplify (a :: as)))
      (eval enter' loops' (.builtin .simplify (a' :: as'))) := by
  rw [eval, eval, List.length_cons, List.length_cons, hlength]
  refine Simulates.checkArity.next fun _ => Simulates.get.bind fun env env' henv => .pure ?_
  rw [h henv]

end

end Formula.Eval

/-! ## The same tree -/

namespace Formula.Expr

open Eval

variable {K : Type}

/-- The direct subtrees that are evaluated when the tree is. Symbolic functions take trees, and
definitions of functions store them. -/
def evaluated : Expr K → List (Expr K)
  | builtin .simplify _ => []
  | builtin .derivative as => as.drop 2
  | define (var _) value => [value]
  | define _ _ | undefine _ => []
  | e => e.children

/-- The names that the root of a tree reads or writes. -/
def accessed : Expr K → List String
  | var x | assign _ x _ | step _ x | define (var x) _ | undefine (var x) => [x]
  | builtin .simplify (var x :: _) | builtin .derivative (var x :: _) => [x]
  | _ => []

/-- Only children are evaluated. -/
theorem mem_children_of_evaluated {e c : Expr K} (hc : c ∈ e.evaluated) : c ∈ e.children := by
  unfold evaluated at hc
  split at hc
  · cases hc
  · exact List.mem_of_mem_drop hc
  · exact .tail _ hc
  · cases hc
  · cases hc
  · exact hc

variable {R : Environment K → Environment K → Prop} {N : String → Prop}
  {B : Expr K → Expr K → Prop} {T : Expr K → Prop} {F : Failure K → Prop}
  {enter enter' : Expr K → Eval K (Value K)} {loops loops' : Nat}

/-- What two evaluations need to do the same with every tree that satisfies `T`: the trees access
names with `N` only, and what they lead to does the same in a scope of its own. -/
structure Mirrors (enter enter' : Expr K → Eval K (Value K)) (T : Expr K → Prop)
    (R : Environment K → Environment K → Prop) (N : String → Prop)
    (B : Expr K → Expr K → Prop) (F : Failure K → Prop) : Prop extends Respects R N B where
  evaluated : ∀ {e c}, T e → c ∈ e.evaluated → T c
  accessed : ∀ {e x}, T e → x ∈ e.accessed → N x
  call : ∀ {name as scope e e'}, T (.call name as) → B e e' →
    Simulates R Eq F (inScope scope (enter e)) (inScope scope (enter' e'))
  point : ∀ {a second value scope e}, T (.builtin .derivative [a, second, value]) →
    Simulates R Eq F (inScope scope (enter e)) (inScope scope (enter' e))
  body : ∀ {name as value}, T (.define (.call name as) value) → B value value

/-- What environments that agree need, for all trees. -/
theorem mirrors_agrees (hB : ∀ e, B e e)
    (henter : ∀ e e', B e e' → Simulates (Environment.Agrees B) Eq F (enter e) (enter' e')) :
    Mirrors enter enter' (fun _ => True) (Environment.Agrees B) (fun _ => True) B F where
  toRespects := respects_agrees B
  evaluated _ _ := trivial
  accessed _ _ := trivial
  call _ hbody := .inScope (·.push _) (·.pop) (henter _ _ hbody)
  point _ := .inScope (·.push _) (·.pop) (henter _ _ (hB _))
  body _ := hB _

variable [Scalar K]

/-- **A tree simulates itself** in environments that are used alike, also with loops that may run
longer. -/
theorem eval_mirrors (h : Mirrors enter enter' T R N B F) (hloops : Lasts F loops loops')
    {e : Expr K} (he : T e) : Simulates R Eq F (eval enter loops e) (eval enter' loops' e) := by
  have hrespects : Respects R N B := h.toRespects
  induction e using children_induction with
  | h e ih =>
    have hsame : ∀ c ∈ e.evaluated,
        Simulates R Eq F (eval enter loops c) (eval enter' loops' c) :=
      fun c hc => ih c (mem_children_of_evaluated hc) (h.evaluated he hc)
    cases e with
    | number | bool | polar | string | angle => exact .pure rfl
    | var x => exact .lookup hrespects (h.accessed he (.head _))
    | unary op a => exact .unary (hsame a (.head _))
    | binary op a b => exact .binary (hsame a (.head _)) (hsame b (.tail _ (.head _)))
    | builtin f as =>
      cases f with
      | simplify =>
        cases as with
        | nil => exact Simulates.checkArity.next fun _ => .throw _
        | cons a as =>
          refine .simplify (fun henv => ?_) rfl
          rw [hrespects.symbolicArgument ?_ henv]
          rintro x rfl
          exact h.accessed he (.head _)
      | derivative =>
        cases as with
        | nil => exact Simulates.checkArity.next fun _ => .throw _
        | cons a as =>
          refine .derivative (fun hlength scope d => ?_) (.deriveArgument ?_) rfl
            (List.forall₂_same.2 hsame)
          · obtain ⟨second, value, rfl⟩ := List.length_eq_two.1 hlength
            exact h.point he
          · refine hrespects.symbolicArgument ?_
            rintro x rfl
            exact h.accessed he (.head _)
      | _ => exact .builtin rfl (List.forall₂_same.2 hsame)
    | call name as =>
      exact .call hrespects (fun _ _ _ hbody => h.call he hbody) (List.forall₂_same.2 hsame)
    | vector as => exact .vector (List.forall₂_same.2 hsame)
    | matrix rows =>
      exact .matrix (List.forall₂_same.2 fun row hrow => List.forall₂_same.2 fun a ha =>
        hsame a (List.mem_flatten.2 ⟨row, hrow, ha⟩))
    | ifThen c a => exact .ifThen (hsame c (.head _)) (hsame a (.tail _ (.head _)))
    | ifThenElse c a b =>
      exact .ifThenElse (hsame c (.head _)) (hsame a (.tail _ (.head _)))
        (hsame b (.tail _ (.tail _ (.head _))))
    | forLoop body init c a =>
      exact .forLoop hloops (hsame body (by simp [Expr.evaluated, children]))
        (hsame init (by simp [Expr.evaluated, children]))
        (hsame c (by simp [Expr.evaluated, children]))
        (hsame a (by simp [Expr.evaluated, children]))
    | whileLoop body c =>
      exact .whileLoop hloops (hsame body (.head _)) (hsame c (.tail _ (.head _)))
    | define key value =>
      refine .define hrespects ?_ ?_
      · rintro x rfl
        exact ⟨h.accessed he (.head _), hsame value (.head _)⟩
      · intro hkey
        cases key with
        | call => exact h.body he
        | _ => cases hkey
    | undefine key =>
      refine .remove hrespects ?_
      rintro x rfl
      exact h.accessed he (.head _)
    | assign op x value => exact .assign hrespects (h.accessed he (.head _)) (hsame value (.head _))
    | step op x => exact .applyStep hrespects (h.accessed he (.head _))

/-- A tree simulates itself in environments that agree. -/
theorem eval_simulates (hloops : Lasts F loops loops') (hB : ∀ e, B e e)
    (henter : ∀ e e', B e e' → Simulates (Environment.Agrees B) Eq F (enter e) (enter' e'))
    (e : Expr K) :
    Simulates (Environment.Agrees B) Eq F (eval enter loops e) (eval enter' loops' e) :=
  eval_mirrors (mirrors_agrees hB henter) hloops trivial

end Formula.Expr

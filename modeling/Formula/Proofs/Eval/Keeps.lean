import Formula.Proofs.Environment
import Formula.Proofs.Eval
import Formula.Proofs.Eval.Errors
import Formula.Proofs.Typing.Functions
import Formula.Proofs.WellFormed

/-!
# What evaluations keep

`Keeps I Q F x` says that the evaluation `x` leads from every environment that satisfies `I` to one
that satisfies `I`, however it ends: with a value, which satisfies `Q`, or with a failure, which
satisfies `F`. It composes along sequences, and for each construct of a tree there is a rule that
leads from the parts to the whole.

The rules ask little of an invariant. `Value.Closed V` says that operators and functions lead from
values with `V` to values with `V`, and `Binds I V F` that the values bound in an environment
satisfy it. `Rebinds I V F` says that the invariant also survives the binding of names to such
values and their removal. Constructs that leave the tree, calls and derivatives at a point, continue
in a scope of their own, under an invariant `J` that holds inside of it.

A failure with an error that values and names cause satisfies `F`. The evaluator also refuses nodes
that the constructors would not build, and for these `Allows F` has to say either that the node is
no such node or that `F` holds of every error.
-/

namespace Formula

/-- The value is no vector, no matrix and no tree. -/
def Value.isSimple {K : Type} : Value K → Bool
  | vector _ | matrix _ | function _ => false
  | _ => true

/-- Operators and functions lead from values with `V` to values with `V`, and values that hold no
others satisfy it anyway. -/
structure Value.Closed {K : Type} [Scalar K] (V : Value K → Prop) : Prop where
  simple : ∀ {v}, v.isSimple = true → V v
  unary : ∀ {op v w}, V v → v.applyUnary op = .ok w → V w
  binary : ∀ {op v w u}, V v → V w → v.applyBinary op w = .ok u → V u
  builtin : ∀ {f vs w}, f.isSymbolic = false → f.arity.accepts vs.length = true →
    (∀ v ∈ vs, V v) → applyBuiltin f vs = .ok w → V w

/-- A property of trees alone: operators and functions make none. -/
theorem Value.Closed.of_plain {K : Type} [Scalar K] {V : Value K → Prop}
    (h : ∀ {v}, v.type ≠ .function → V v) : Closed V where
  simple {v} hv := h (by rintro htype; cases v <;> cases htype; cases hv)
  unary _ hw := h (applyUnary_ne_function hw)
  binary _ _ hu := h (applyBinary_ne_function hu)
  builtin hf hlength _ hw := h (applyBuiltin_ne_function hf hlength hw)

namespace Expr

variable {K : Type}

/-- The node evaluates its direct subtrees, each at most once, and does not change what names stand
for. -/
def isReading (e : Expr K) : Bool :=
  match e.kind with
  | .builtin f => !f.isSymbolic
  | .call | .forLoop | .whileLoop | .define | .undefine | .assign | .step => false
  | _ => true

/-- Whatever numbers a vector or a matrix is made of, the value satisfies `V`. -/
def Collects (V : Value K → Prop) : Expr K → Prop
  | vector as => ∀ values : List K, values.length = as.length → V (.vector values)
  | matrix rows => ∀ values : List (List K),
    values.map List.length = rows.map List.length → V (.matrix values)
  | _ => True

/-- A property of trees alone holds of every vector and matrix. -/
theorem collects_of_plain {V : Value K → Prop} (h : ∀ {v}, v.type ≠ .function → V v)
    (e : Expr K) : e.Collects V := by
  cases e with
  | vector => exact fun _ _ => h nofun
  | matrix => exact fun _ _ => h nofun
  | _ => trivial

end Expr

/-- The tree that a symbolic function works on is its argument or a function value. -/
theorem Environment.Stores.symbolicArgument {K : Type} {V : Value K → Prop} {B P : Expr K → Prop}
    {env : Environment K} {e : Expr K} (h : env.Stores V B)
    (hvalue : ∀ tree, V (.function tree) → P tree) (he : P e) :
    P (Expr.symbolicArgument env e) := by
  unfold Expr.symbolicArgument
  split
  · split
    · next tree hget => exact hvalue tree (h.get? hget)
    · exact he
  · exact he

end Formula

namespace Formula.Eval

open Formula.Expr

variable {K α β : Type} {I J : Environment K → Prop} {V : Value K → Prop} {F : Failure K → Prop}

/-- From every environment with `I` the evaluation leads to one with `I`, to values with `Q` and to
failures with `F`. -/
structure Keeps (I : Environment K → Prop) (Q : α → Prop) (F : Failure K → Prop) (x : Eval K α) :
    Prop where
  environment : ∀ {env}, I env → I (x.run env).2
  value : ∀ {env}, I env → ∀ {a}, (x.run env).1 = .ok a → Q a
  failure : ∀ {env}, I env → ∀ {f}, (x.run env).1 = .error f → F f

/-! ## Sequences -/

section

variable {P Q : α → Prop} {R : β → Prop} {x : Eval K α}

/-- A value. -/
theorem Keeps.pure {a : α} (ha : Q a) : Keeps I Q F (pure a : Eval K α) where
  environment henv := henv
  value _ _ h := by cases h; exact ha
  failure _ _ h := by cases h

/-- A failure. -/
theorem Keeps.throw {f : Failure K} (hf : F f) : Keeps I Q F (throw f : Eval K α) where
  environment henv := henv
  value _ _ h := by cases h
  failure _ _ h := by cases h; exact hf

/-- More failures are allowed. -/
theorem Keeps.imp {F' : Failure K → Prop} (hx : Keeps I Q F x) (hF : ∀ f, F f → F' f) :
    Keeps I Q F' x :=
  ⟨hx.environment, hx.value, fun henv _ h => hF _ (hx.failure henv h)⟩

/-- A sequence goes on with a value that its first part yields. -/
theorem Keeps.bind {k : α → Eval K β} (hx : Keeps I P F x)
    (hk : ∀ a, x.Yields a → P a → Keeps I R F (k a)) : Keeps I R F (x >>= k) := by
  have goesOn {env : Environment K} (henv : I env) :
      (∃ a, (x >>= k).run env = (k a).run (x.run env).2 ∧ Keeps I R F (k a)) ∨
        ∃ f, (x >>= k).run env = (.error f, (x.run env).2) ∧ F f := by
    rcases hr : (x.run env).1 with f | a
    · exact .inr ⟨f, run_bind_error (Prod.ext hr rfl), hx.failure henv hr⟩
    · have hrun : x.run env = (.ok a, (x.run env).2) := Prod.ext hr rfl
      exact .inl ⟨a, run_bind_ok hrun, hk a ⟨env, _, hrun⟩ (hx.value henv hr)⟩
  constructor
  · intro env henv
    obtain ⟨a, h, ha⟩ | ⟨f, h, -⟩ := goesOn henv <;> rw [h]
    · exact ha.environment (hx.environment henv)
    · exact hx.environment henv
  · intro env henv b hb
    obtain ⟨a, h, ha⟩ | ⟨f, h, -⟩ := goesOn henv <;> rw [h] at hb
    · exact ha.value (hx.environment henv) hb
    · cases hb
  · intro env henv e he
    obtain ⟨a, h, ha⟩ | ⟨f, h, hf⟩ := goesOn henv <;> rw [h] at he
    · exact ha.failure (hx.environment henv) he
    · cases he
      exact hf

/-- The environment itself. -/
theorem Keeps.get : Keeps I I F (get : Eval K (Environment K)) where
  environment henv := henv
  value henv _ h := by cases h; exact henv
  failure _ _ h := by cases h

/-- Another environment. -/
theorem Keeps.set {env : Environment K} (henv : I env) :
    Keeps I (fun _ => True) F (set env : Eval K PUnit) where
  environment _ := henv
  value _ _ _ := trivial
  failure _ _ h := by cases h

/-- A scope of its own, where `J` holds inside of the scope. -/
theorem Keeps.inScope {scope : Scope K} (hpush : ∀ {env}, I env → J (env.push scope))
    (hpop : ∀ {env}, J env → I env.pop) (hx : Keeps J Q F x) : Keeps I Q F (inScope scope x) where
  environment henv := hpop (hx.environment (hpush henv))
  value henv _ h := hx.value (hpush henv) h
  failure henv _ h := hx.failure (hpush henv) h

/-- A loop. -/
theorem Keeps.loop {condition : Eval K Bool} {body : Eval K Unit} (hfuel : F .outOfFuel)
    (hcondition : Keeps I (fun _ => True) F condition) (hbody : Keeps I (fun _ => True) F body) :
    ∀ fuel, Keeps I (fun _ => True) F (loop condition body fuel)
  | 0 => .throw hfuel
  | fuel + 1 => hcondition.bind fun holds _ _ => by
    cases holds with
    | true => exact hbody.bind fun _ _ _ => .loop hfuel hcondition hbody fuel
    | false => exact .pure trivial

end

/-! ## Nodes that only read

The rules for operators, functions and conditionals, which change nothing themselves. All of them
together say that such a node keeps what its direct subtrees keep (`Keeps.reading`). -/

/-- What an invariant says of the values in an environment. Errors that values and names cause
satisfy `F`. -/
structure Binds [Scalar K] (I : Environment K → Prop) (V : Value K → Prop)
    (F : Failure K → Prop) : Prop where
  closed : Value.Closed V
  bound : ∀ {env name v}, I env → env.get? name = some v → V v
  error : ∀ {cause}, cause.isDefensive = false → F (.error cause)

/-- The node is as the constructors make it, so that the evaluator does not refuse it, or every
error is allowed. -/
def Allows (F : Failure K → Prop) (e : Expr K) : Prop := e.IsBuilt ∨ ∀ cause, F (.error cause)

section

variable [Scalar K] {enter : Expr K → Eval K (Value K)} {loops : Nat} {a b c : Expr K}
  {as : List (Expr K)} (h : Binds I V F)

section

include h

/-- An error. -/
theorem Keeps.fail {Q : α → Prop} {cause : RuntimeError K} (hcause : cause.isDefensive = false) :
    Keeps I Q F (fail cause : Eval K α) := .throw (h.error hcause)

/-- A result. -/
theorem Keeps.ofResult {Q : α → Prop} {result : Result K α}
    (hordinary : result.IsOrdinary) (hresult : ∀ a, result = .ok a → Q a) :
    Keeps I Q F (ofResult result) := by
  cases result with
  | ok a => exact .pure (hresult a rfl)
  | error cause => exact .fail h (hordinary cause rfl)

/-- A result of which nothing is known. -/
theorem Keeps.anyResult {result : Result K α} (hordinary : result.IsOrdinary) :
    Keeps I (fun _ => True) F (Eval.ofResult result) :=
  .ofResult h hordinary fun _ _ => trivial

/-- The value of a name. -/
theorem Keeps.lookup {name : String} : Keeps I V F (lookup name) :=
  Keeps.get.bind fun env _ henv => by
    split
    · next v hget => exact .pure (h.bound henv hget)
    · exact .fail h rfl

/-- An operator of one operand. -/
theorem Keeps.unary {op : UnaryOp} (ha : Keeps I V F (eval enter loops a)) :
    Keeps I V F (eval enter loops (.unary op a)) :=
  ha.bind fun v _ hv => .ofResult h (Value.isOrdinary_applyUnary op v) fun _ hw =>
    h.closed.unary hv hw

/-- An operator of two operands. -/
theorem Keeps.binary {op : BinaryOp} (ha : Keeps I V F (eval enter loops a))
    (hb : Keeps I V F (eval enter loops b)) : Keeps I V F (eval enter loops (.binary op a b)) := by
  rw [eval]
  split
  · refine ha.bind fun v _ _ => (Keeps.anyResult h v.isOrdinary_asBool).bind fun left _ _ => ?_
    split
    · exact .pure (h.closed.simple rfl)
    · exact hb.bind fun w _ _ => (Keeps.anyResult h w.isOrdinary_asBool).bind fun right _ _ =>
        .pure (h.closed.simple rfl)
  · exact ha.bind fun v _ hv => hb.bind fun w _ hw =>
      .ofResult h (Value.isOrdinary_applyBinary op v w) fun u hu => h.closed.binary hv hw hu

/-- A conditional with one branch. -/
theorem Keeps.ifThen (hc : Keeps I V F (eval enter loops c))
    (ha : Keeps I V F (eval enter loops a)) : Keeps I V F (eval enter loops (.ifThen c a)) :=
  hc.bind fun v _ _ => (Keeps.anyResult h v.isOrdinary_asBool).bind fun holds _ _ => by
    cases holds with
    | true => exact ha
    | false => exact .pure (h.closed.simple rfl)

/-- A conditional with two branches. -/
theorem Keeps.ifThenElse (hc : Keeps I V F (eval enter loops c))
    (ha : Keeps I V F (eval enter loops a)) (hb : Keeps I V F (eval enter loops b)) :
    Keeps I V F (eval enter loops (.ifThenElse c a b)) :=
  hc.bind fun v _ _ => (Keeps.anyResult h v.isOrdinary_asBool).bind fun holds _ _ => by
    cases holds with
    | true => exact ha
    | false => exact hb

omit h [Scalar K] in
/-- A count of arguments is checked. -/
theorem Keeps.checkArity {f : Builtin} (hallows : Allows F (.builtin f as)) :
    Keeps I (fun _ => True) F (checkArity f as.length : Eval K Unit) := by
  unfold Expr.checkArity
  split
  · exact .pure trivial
  · next harity => exact .throw (hallows.elim (fun hbuilt => absurd hbuilt harity) (· _))

omit h in
/-- The values of a list of trees. -/
theorem Keeps.list : ∀ {as : List (Expr K)},
    (∀ a ∈ as, Keeps I V F (eval enter loops a)) →
      Keeps I (fun vs => ∀ v ∈ vs, V v) F (evalList enter loops as)
  | [], _ => .pure nofun
  | _ :: _, has => by
    obtain ⟨ha, has⟩ := List.forall_mem_cons.1 has
    exact ha.bind fun _ _ hv => (Keeps.list has).bind fun _ _ hvs =>
      .pure (List.forall_mem_cons.2 ⟨hv, hvs⟩)

/-- The values of a list of numbers, as many as trees. -/
theorem Keeps.numbers {operation : String} : ∀ {as : List (Expr K)},
    (∀ a ∈ as, Keeps I V F (eval enter loops a)) →
      Keeps I (fun values => values.length = as.length) F (evalNumbers enter loops operation as)
  | [], _ => .pure rfl
  | _ :: _, has => by
    obtain ⟨ha, has⟩ := List.forall_mem_cons.1 has
    exact ha.bind fun v _ _ => (Keeps.anyResult h v.isOrdinary_asNumber).bind fun _ _ _ =>
      (Keeps.numbers has).bind fun _ _ hvalues => .pure (congrArg Nat.succ hvalues)

/-- The values of the rows of a matrix, as many in a row as trees. -/
theorem Keeps.rows : ∀ {rows : List (List (Expr K))},
    (∀ row ∈ rows, ∀ a ∈ row, Keeps I V F (eval enter loops a)) →
      Keeps I (fun values => values.map List.length = rows.map List.length) F
        (evalRows enter loops rows)
  | [], _ => .pure rfl
  | _ :: _, hrows => by
    obtain ⟨hrow, hrows⟩ := List.forall_mem_cons.1 hrows
    exact (Keeps.numbers h hrow).bind fun _ _ hvalues =>
      (Keeps.rows hrows).bind fun _ _ hmore => .pure (congrArg₂ List.cons hvalues hmore)

/-- A built-in function on values. -/
theorem Keeps.builtin {f : Builtin} (hf : f.isSymbolic = false)
    (hallows : Allows F (.builtin f as)) (has : ∀ a ∈ as, Keeps I V F (eval enter loops a)) :
    Keeps I V F (eval enter loops (.builtin f as)) := by
  rw [eval_builtin hf]
  refine (Keeps.checkArity hallows).bind fun _ harity _ =>
    (Keeps.list has).bind fun vs hvs hall => ?_
  have hlen : f.arity.accepts vs.length := evalList_length hvs ▸ accepts_of_checkArity harity
  exact .ofResult h (Value.isOrdinary_applyBuiltin hlen) fun w hw =>
    h.closed.builtin hf hlen hall hw

/-- A vector. -/
theorem Keeps.vector (hcollects : (Expr.vector as).Collects V)
    (has : ∀ a ∈ as, Keeps I V F (eval enter loops a)) :
    Keeps I V F (eval enter loops (.vector as)) :=
  (Keeps.numbers h has).bind fun values _ hvalues => .pure (hcollects values hvalues)

/-- A matrix. -/
theorem Keeps.matrix {rows : List (List (Expr K))} (hcollects : (Expr.matrix rows).Collects V)
    (hrows : ∀ row ∈ rows, ∀ a ∈ row, Keeps I V F (eval enter loops a)) :
    Keeps I V F (eval enter loops (.matrix rows)) :=
  (Keeps.rows h hrows).bind fun values _ hvalues => .pure (hcollects values hvalues)

/-- A node that only reads. -/
theorem Keeps.reading {e : Expr K} (he : e.isReading = true) (hallows : Allows F e)
    (hcollects : e.Collects V) (hchildren : ∀ c ∈ e.children, Keeps I V F (eval enter loops c)) :
    Keeps I V F (eval enter loops e) := by
  cases e with
  | number | bool | polar | string | angle => exact .pure (h.closed.simple rfl)
  | var => exact .lookup h
  | unary _ a => exact .unary h (hchildren a (.head _))
  | binary _ a b => exact .binary h (hchildren a (.head _)) (hchildren b (.tail _ (.head _)))
  | builtin f _ => exact .builtin h (by simpa [isReading, kind] using he) hallows hchildren
  | vector _ => exact .vector h hcollects hchildren
  | matrix _ =>
    exact .matrix h hcollects fun row hrow a ha =>
      hchildren a (List.mem_flatten.2 ⟨row, hrow, ha⟩)
  | ifThen c a => exact .ifThen h (hchildren c (.head _)) (hchildren a (.tail _ (.head _)))
  | ifThenElse c a b =>
    exact .ifThenElse h (hchildren c (.head _)) (hchildren a (.tail _ (.head _)))
      (hchildren b (.tail _ (.tail _ (.head _))))
  | call | forLoop | whileLoop | define | undefine | assign | step => cases he

/-- A loop with a count. -/
theorem Keeps.forLoop {body init : Expr K} (hfuel : F .outOfFuel)
    (hbody : Keeps I V F (eval enter loops body)) (hinit : Keeps I V F (eval enter loops init))
    (hc : Keeps I V F (eval enter loops c)) (ha : Keeps I V F (eval enter loops a)) :
    Keeps I V F (eval enter loops (.forLoop body init c a)) := by
  refine hinit.bind fun _ _ _ => (Keeps.loop hfuel ?_ ?_ loops).bind fun _ _ _ =>
    .pure (h.closed.simple rfl)
  · exact hc.bind fun v _ _ => .anyResult h v.isOrdinary_asBool
  · exact hbody.bind fun _ _ _ => ha.bind fun _ _ _ => .pure trivial

/-- A loop without a count. -/
theorem Keeps.whileLoop {body : Expr K} (hfuel : F .outOfFuel)
    (hbody : Keeps I V F (eval enter loops body)) (hc : Keeps I V F (eval enter loops c)) :
    Keeps I V F (eval enter loops (.whileLoop body c)) := by
  refine (Keeps.loop hfuel ?_ ?_ loops).bind fun _ _ _ => .pure (h.closed.simple rfl)
  · exact hc.bind fun v _ _ => .anyResult h v.isOrdinary_asBool
  · exact hbody.bind fun _ _ _ => .pure trivial

end

end

/-! ## Trees that write -/

/-- What an invariant survives: names are bound to values with `V`, and names are removed. -/
structure Rebinds [Scalar K] (I : Environment K → Prop) (V : Value K → Prop)
    (F : Failure K → Prop) : Prop extends Binds I V F where
  set : ∀ {env env' name v}, I env → V v → env.set name v = .ok env' → I env'
  remove : ∀ {env env' name old}, I env → env.remove name = .ok (old, env') → I env'
  removeFunction : ∀ {env name arity}, I env → I (env.removeFunction name arity).2

section

variable [Scalar K] {enter : Expr K → Eval K (Value K)} {loops : Nat} {value : Expr K}
  {name : String} (h : Rebinds I V F)

include h

/-- Binding a name. -/
theorem Keeps.store {v : Value K} (hv : V v) : Keeps I (fun _ => True) F (store name v) :=
  Keeps.get.bind fun _ _ henv =>
    (Keeps.ofResult h.toBinds (Environment.isOrdinary_set v) fun _ hset =>
      h.set henv hv hset).bind fun _ _ henv' => .set henv'

/-- The definition of a variable. -/
theorem Keeps.defineVariable (hvalue : Keeps I V F (eval enter loops value)) :
    Keeps I V F (eval enter loops (.define (.var name) value)) :=
  hvalue.bind fun _ _ hv => (Keeps.store h hv).bind fun _ _ _ => .pure (h.closed.simple rfl)

/-- The definition of a function, whose body the invariant has to survive. -/
theorem Keeps.defineFunction {arguments : List (Expr K)}
    (hallows : Allows F (.define (.call name arguments) value))
    (hbody : ∀ {env parameters}, parameters? arguments = some parameters → I env →
      I (env.defineFunction name ⟨parameters, value⟩)) :
    Keeps I V F (eval enter loops (.define (.call name arguments) value)) := by
  rw [eval, Expr.defineFunction]
  split
  · next parameters hparameters =>
    have hmodify : Keeps I (fun _ => True) F
        (modify (·.defineFunction name ⟨parameters, value⟩) : Eval K PUnit) :=
      ⟨fun henv => hbody hparameters henv, fun _ _ _ => trivial, fun _ _ hf => by cases hf⟩
    exact hmodify.bind fun _ _ _ => .pure (h.closed.simple rfl)
  · next hnone =>
    refine .throw (hallows.elim (fun hbuilt => ?_) (· _))
    cases hbuilt with
    | declaration _ harguments =>
      have hsome := parameters?_isSome.2 harguments
      rw [hnone] at hsome
      cases hsome

/-- The removal of a key. -/
theorem Keeps.undefine {key : Expr K} (hallows : Allows F (.undefine key)) :
    Keeps I V F (eval enter loops (.undefine key)) := by
  have hstring (s : String) : V (.string s) := h.closed.simple rfl
  rw [eval]
  unfold Expr.remove
  split
  · exact Keeps.get.bind fun _ _ henv =>
      (Keeps.ofResult (Q := fun r => I r.2) h.toBinds Environment.isOrdinary_remove fun _ hremove =>
        h.remove henv hremove).bind fun _ _ henv' => (Keeps.set henv').bind fun _ _ _ =>
          (Keeps.pure (Q := fun _ => True) trivial).bind fun _ _ _ => .pure (hstring _)
  · exact Keeps.get.bind fun _ _ henv => (Keeps.set (h.removeFunction henv)).bind fun _ _ _ =>
      (Keeps.pure (Q := fun _ => True) trivial).bind fun _ _ _ => .pure (hstring _)
  · next hvar hcall =>
    have hrefused : Keeps I (fun _ => True) F (Eval.fail (.construction (.notAssignable key.kind)) :
        Eval K Bool) := by
      refine .throw (hallows.elim (fun hbuilt => ?_) (· _))
      cases hbuilt with
      | var name => exact absurd rfl (hvar name)
      | declaration => exact absurd rfl (hcall _ _)
    exact hrefused.bind fun _ _ _ => .pure (hstring _)

/-- A compound assignment. -/
theorem Keeps.assign {op : AssignOp} (hvalue : Keeps I V F (eval enter loops value)) :
    Keeps I V F (eval enter loops (.assign op name value)) :=
  (Keeps.lookup h.toBinds).bind fun old _ hold =>
    (Keeps.anyResult h.toBinds old.isOrdinary_asNumber).bind fun _ _ _ =>
      hvalue.bind fun right _ hright =>
        (Keeps.ofResult h.toBinds (Value.isOrdinary_applyBinary _ old right) fun _ hw =>
          h.closed.binary hold hright hw).bind
            fun _ _ hw => (Keeps.store h hw).bind fun _ _ _ => .pure hw

/-- A step. -/
theorem Keeps.step {op : StepOp} : Keeps I V F (eval enter loops (.step op name)) := by
  have hnumber (a : K) : V (.number a) := h.closed.simple rfl
  exact (Keeps.lookup h.toBinds).bind fun old _ _ =>
    (Keeps.anyResult h.toBinds old.isOrdinary_asNumber).bind fun _ _ _ =>
      (Keeps.store h (hnumber _)).bind fun _ _ _ => .pure (hnumber _)

end

/-! ## Trees that lead to others -/

section

variable [Scalar K] {enter : Expr K → Eval K (Value K)} {loops : Nat} {a : Expr K}
  {as : List (Expr K)} {name : String} (h : Binds I V F)

include h

/-- The definition that a call goes to. -/
theorem Keeps.callee {arity : Nat} :
    Keeps I (fun definition => ∃ env, I env ∧ env.function? name arity = some definition ∧
      env.depth ≤ maxCallDepth) F (callee name arity : Eval K (FunctionDefinition K)) :=
  Keeps.get.bind fun env _ henv => by
    split
    · next definition hdefinition =>
      split
      · exact .fail h rfl
      · split
        · exact .fail h rfl
        · next hdepth => exact .pure ⟨env, henv, hdefinition, Nat.not_lt.1 hdepth⟩
    · exact .fail h rfl

/-- A call of a user function. -/
theorem Keeps.call (has : ∀ a ∈ as, Keeps I V F (eval enter loops a))
    (hpush : ∀ {env scope}, I env → scope.All V → J (env.push scope))
    (hpop : ∀ {env}, J env → I env.pop)
    (hbody : ∀ {env definition}, I env → env.function? name as.length = some definition →
      env.depth ≤ maxCallDepth → Keeps J V F (enter definition.body)) :
    Keeps I V F (eval enter loops (.call name as)) :=
  (Keeps.callee h).bind fun definition _ ⟨env, henv, hdefinition, hdepth⟩ =>
    (Keeps.list has).bind fun vs _ hvs => by
      have hscope : Bindings.All V (.ofList (definition.parameters.zip vs)) :=
        .ofList fun _ hentry => hvs _ (List.of_mem_zip hentry).2
      exact .inScope (fun henv => hpush henv hscope) hpop (hbody henv hdefinition hdepth)

/-- The derivative of a symbolic argument. -/
theorem Keeps.deriveArgument {Q : Expr K → Prop} {second? : Option (Expr K)}
    (hderivative : ∀ {env x tree}, I env →
      derivative x (symbolicArgument env a) = .ok tree → Q tree.simplifyReal) :
    Keeps I (fun derived => Q derived.2) F (deriveArgument a second?) :=
  (Keeps.anyResult h (isOrdinary_derivativeVariable second?)).bind fun x _ _ =>
    Keeps.get.bind fun env _ henv => by
      split
      · next tree htree => exact .pure (hderivative henv htree)
      · next cause hcause =>
        obtain ⟨kind, rfl, -⟩ := derivative_eq_error hcause
        exact .fail h rfl

/-- A derivative without a point is a value. -/
theorem Keeps.derivativeTree (hlength : as.length ≠ 3)
    (hallows : Allows F (.builtin .derivative as))
    (hvalue : ∀ a ∈ as, ∀ {env x tree}, I env →
      Expr.derivative x (symbolicArgument env a) = .ok tree → V (.function tree.simplifyReal)) :
    Keeps I V F (eval enter loops (.builtin .derivative as)) := by
  match as with
  | [a] | [a, _] =>
    exact (Keeps.checkArity hallows).bind fun _ _ _ =>
      (Keeps.deriveArgument (Q := fun tree => V (.function tree)) h
        (hvalue a (.head _))).bind fun _ _ hderived => .pure hderived
  | [_, _, _] => exact absurd rfl hlength
  | [] | _ :: _ :: _ :: _ :: _ =>
    refine (Keeps.checkArity hallows).bind fun _ hchecked _ => ?_
    have hcount := accepts_between.1 (accepts_of_checkArity hchecked)
    simp only [List.length_cons, List.length_nil] at hcount
    omega

/-- A derivative: without a point it is a value, at a point it is evaluated. -/
theorem Keeps.derivative (hallows : Allows F (.builtin .derivative as))
    (hpoint : ∀ a x point, as = [a, x, point] → Keeps I V F (eval enter loops point))
    (hpush : ∀ {env scope}, I env → scope.All V → J (env.push scope))
    (hpop : ∀ {env}, J env → I env.pop)
    (hvalue : as.length ≠ 3 → ∀ a ∈ as, ∀ {env x tree}, I env →
      Expr.derivative x (symbolicArgument env a) = .ok tree → V (.function tree.simplifyReal))
    (htree : ∀ a y point, as = [a, y, point] → ∀ {env x tree}, I env →
      Expr.derivative x (symbolicArgument env a) = .ok tree →
        Keeps J V F (enter tree.simplifyReal)) :
    Keeps I V F (eval enter loops (.builtin .derivative as)) := by
  by_cases hlength : as.length = 3
  · obtain ⟨a, x, point, rfl⟩ := List.length_eq_three.1 hlength
    exact (Keeps.checkArity hallows).bind fun _ _ _ =>
      (Keeps.deriveArgument (Q := fun tree => Keeps J V F (enter tree)) h
        (htree a x point rfl)).bind
        fun derived _ hderived => (hpoint a x point rfl).bind fun v _ hv => by
          have hscope : Bindings.All V (.ofList [(derived.1, v)]) :=
            .ofList (List.forall_mem_singleton.2 hv)
          exact .inScope (fun henv => hpush henv hscope) hpop hderived
  · exact .derivativeTree h hlength hallows (hvalue hlength)

omit h in
/-- A simplification. -/
theorem Keeps.simplify (hallows : Allows F (.builtin .simplify as))
    (hsimplify : ∀ a ∈ as, ∀ {env}, I env → V (.function (symbolicArgument env a).simplify)) :
    Keeps I V F (eval enter loops (.builtin .simplify as)) :=
  (Keeps.checkArity hallows).bind fun _ hchecked _ => by
    cases as with
    | nil => cases accepts_of_checkArity hchecked
    | cons a as =>
      exact Keeps.get.bind fun env _ henv => .pure (hsimplify a (.head _) henv)

end

end Formula.Eval

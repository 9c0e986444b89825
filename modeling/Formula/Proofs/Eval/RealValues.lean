import Formula.Proofs.Eval
import Formula.Proofs.Expr
import Formula.Proofs.Result

/-!
# Values over the real numbers

`Expr.value?` is the value of a tree as a formula of real analysis: sums, differences, products,
quotients and powers are those of real numbers, no denominator is zero, and no power of a negative
number is complex. The operands of other operators and the arguments of functions may have any type.
A tree that changes something, repeats something or looks at another tree has no such value.

The value depends on what the names stand for and on nothing else. In an environment where they do
stand for that, evaluation gives the value and changes nothing (`execute_of_value?`).
-/

namespace Formula

open Formula.Expr

variable {K : Type}

/-- What variables stand for, and what user functions make of values. -/
structure Valuation (K : Type) where
  var? : String → Option (Value K)
  call? : String → List (Value K) → Option (Value K)

/-- The operators of real analysis. -/
def BinaryOp.isAnalytic : BinaryOp → Bool
  | .add | .sub | .mul | .div | .pow => true
  | _ => false

variable [Scalar K]

namespace Value

/-- Whether the value is this number. -/
def isNumberEqual (a : K) : Value K → Bool
  | number b => Scalar.identical b a
  | _ => false

/-- An operator of real analysis on two real numbers, where it is defined. -/
def analytic? (op : BinaryOp) : Value K → Value K → Option (Value K)
  | number a, number b =>
    if op = .div && Scalar.identical b Scalar.zero || op = .pow && leavesReals a b then none
    else some (number (realArithmetic op a b))
  | _, _ => none

/-- A binary operator that needs both operands, where it is defined. -/
def combine? (op : BinaryOp) (v w : Value K) : Option (Value K) :=
  if op.isAnalytic then v.analytic? op w else (v.applyBinary op w).toOption

end Value

namespace Expr

section

variable (ρ : Valuation K)

mutual

/-- The value of a tree over the real numbers, where it has one. -/
def value? : Expr K → Option (Value K)
  | number a => some (.number a)
  | bool b => some (.bool b)
  | polar magnitude phase =>
    some (.complex (.ofPolar magnitude (phase * (Scalar.pi / Scalar.ofInt 180))))
  | string s => some (.string s)
  | angle a => some (.angle a)
  | var x => ρ.var? x
  | unary op a => do ((← value? a).applyUnary op).toOption
  | binary op a b => do
    let v ← value? a
    match op.decidedBy? with
    | some decisive => do
      let left ← (v.asBool op.symbol).toOption
      if left = decisive then return .bool decisive
      else return .bool (← ((← value? b).asBool op.symbol).toOption)
    | none => v.combine? op (← value? b)
  | builtin f as => do
    let values ← values? as
    if f.arity.accepts as.length then (Value.applyBuiltin f values).toOption else none
  | call f as => do ρ.call? f (← values? as)
  | vector as => do
    let numbers ← (← values? as).mapM fun v => (v.asNumber "vector").toOption
    return .vector numbers
  | matrix rows => do
    let numbers ← (← rows? rows).mapM fun row => row.mapM fun v => (v.asNumber "matrix").toOption
    return .matrix numbers
  | ifThen c a => do
    if ← ((← value? c).asBool "if").toOption then value? a else return .empty
  | ifThenElse c a b => do
    if ← ((← value? c).asBool "if").toOption then value? a else value? b
  | forLoop _ _ _ _ | whileLoop _ _ | define _ _ | undefine _ | assign _ _ _ | step _ _ => none

/-- The values of a list of trees. -/
def values? : List (Expr K) → Option (List (Value K))
  | [] => some []
  | a :: as => do
    let v ← value? a
    return v :: (← values? as)

/-- The values of the rows of a matrix. -/
def rows? : List (List (Expr K)) → Option (List (List (Value K)))
  | [] => some []
  | row :: rows => do
    let vs ← values? row
    return vs :: (← rows? rows)

end

end

/-- What the value of a binary operator comes from: both operands, or the left one if it decides. -/
inductive BinaryValue (ρ : Valuation K) (op : BinaryOp) (a b : Expr K) : Value K → Prop
  | combined {u w v : Value K} (hop : op.decidedBy? = none) (ha : a.value? ρ = some u)
      (hb : b.value? ρ = some w) (hv : u.combine? op w = some v) : BinaryValue ρ op a b v
  | decided {u : Value K} {decisive : Bool} (hop : op.decidedBy? = some decisive)
      (ha : a.value? ρ = some u) (hleft : u.asBool op.symbol = .ok decisive) :
      BinaryValue ρ op a b (.bool decisive)
  | undecided {u w : Value K} {decisive left right : Bool} (hop : op.decidedBy? = some decisive)
      (ha : a.value? ρ = some u) (hleft : u.asBool op.symbol = .ok left) (hopen : left ≠ decisive)
      (hb : b.value? ρ = some w) (hright : w.asBool op.symbol = .ok right) :
      BinaryValue ρ op a b (.bool right)

/-- A binary operator with a value. -/
theorem value?_binary {ρ : Valuation K} {op : BinaryOp} {a b : Expr K} {v : Value K}
    (h : (binary op a b).value? ρ = some v) : BinaryValue ρ op a b v := by
  obtain ⟨u, ha, h⟩ := Option.bind_eq_some_iff.1 h
  cases hop : op.decidedBy? with
  | none =>
    rw [hop] at h
    obtain ⟨w, hb, hv⟩ := Option.bind_eq_some_iff.1 h
    exact .combined hop ha hb hv
  | some decisive =>
    rw [hop] at h
    obtain ⟨left, hleft, h⟩ := Option.bind_eq_some_iff.1 h
    replace hleft := Result.ok_of_toOption hleft
    split at h
    · next hdecided =>
      cases h
      exact .decided hop ha (hdecided ▸ hleft)
    · next hopen =>
      obtain ⟨w, hb, h⟩ := Option.bind_eq_some_iff.1 h
      obtain ⟨right, hright, h⟩ := Option.bind_eq_some_iff.1 h
      cases h
      exact .undecided hop ha hleft hopen hb (Result.ok_of_toOption hright)

end Expr

/-- The environment gives the names the meaning that the valuation gives them, with this fuel for
the bodies of functions. A call has a meaning only where it changes nothing. -/
structure Valuation.Holds (ρ : Valuation K) (fuel : Nat) (env : Environment K) : Prop where
  var {x : String} {v : Value K} : ρ.var? x = some v → env.get? x = some v
  call {f : String} {vs : List (Value K)} {v : Value K} : ρ.call? f vs = some v →
    ∃ definition, (callee f vs.length).run env = (.ok definition, env) ∧
      (Eval.inScope (.ofList (definition.parameters.zip vs))
        (definition.body.evalWithin fuel)).run env = (.ok v, env)

namespace Expr

open Eval

variable {ρ : Valuation K} {fuel loops : Nat} {env : Environment K} {e : Expr K}
  {as : List (Expr K)} {vs : List (Value K)} {v : Value K}

/-! ## Evaluation gives the value -/

omit [Scalar K] in
/-- A result that is there. -/
theorem run_ofResult {α : Type} {r : Result K α} {a : α} (h : r.toOption = some a) :
    (ofResult r).run env = (.ok a, env) := by
  rw [Result.ok_of_toOption h]
  rfl

/-- An operator that is defined. -/
theorem applyBinary_of_combine? {op : BinaryOp} {v w u : Value K} (h : v.combine? op w = some u) :
    (v.applyBinary op w).toOption = some u := by
  unfold Value.combine? at h
  split at h
  · next hop =>
    unfold Value.analytic? at h
    split at h
    · split at h
      · cases h
      · next a b hdefined =>
        cases h
        have hreal : (op = .pow && Value.leavesReals a b) = false :=
          (Bool.or_eq_false_iff.1 (Bool.not_eq_true _ ▸ hdefined)).2
        have happly : (Value.number a).applyBinary op (.number b) =
            .ok (Value.arithmeticReal op a b) := by
          cases op <;> first | rfl | cases hop
        rw [happly, Value.arithmeticReal, hreal]
        rfl
    · cases h
  · exact h

section

variable {enter : Expr K → Eval K (Value K)}

/-- The values of a list. -/
theorem run_evalList (h : ∀ a ∈ as, ∀ v, a.value? ρ = some v →
      (eval enter loops a).run env = (.ok v, env)) (hvs : values? ρ as = some vs) :
    (evalList enter loops as).run env = (.ok vs, env) := by
  induction as generalizing vs with
  | nil =>
    cases hvs
    rfl
  | cons a as ih =>
    obtain ⟨v, hv, hvs⟩ := Option.bind_eq_some_iff.1 hvs
    obtain ⟨rest, hrest, hvs⟩ := Option.bind_eq_some_iff.1 hvs
    cases hvs
    rw [evalList, run_bind_ok (h a (.head _) v hv),
      run_bind_ok (ih (fun a ha => h a (.tail _ ha)) hrest)]
    rfl

/-- The values of a list of numbers. -/
theorem run_evalNumbers {operation : String} {xs : List K} (h : ∀ a ∈ as, ∀ v,
      a.value? ρ = some v → (eval enter loops a).run env = (.ok v, env))
    (hvs : values? ρ as = some vs)
    (hxs : vs.mapM (fun v => (v.asNumber operation).toOption) = some xs) :
    (evalNumbers enter loops operation as).run env = (.ok xs, env) := by
  induction as generalizing vs xs with
  | nil =>
    cases hvs
    cases hxs
    rfl
  | cons a as ih =>
    obtain ⟨v, hv, hvs⟩ := Option.bind_eq_some_iff.1 hvs
    obtain ⟨rest, hrest, hvs⟩ := Option.bind_eq_some_iff.1 hvs
    cases hvs
    rw [List.mapM_cons] at hxs
    obtain ⟨x, hx, hxs⟩ := Option.bind_eq_some_iff.1 hxs
    obtain ⟨ys, hys, hxs⟩ := Option.bind_eq_some_iff.1 hxs
    cases hxs
    rw [evalNumbers, run_bind_ok (h a (.head _) v hv), run_bind_ok (run_ofResult hx),
      run_bind_ok (ih (fun a ha => h a (.tail _ ha)) hrest hys)]
    rfl

/-- The values of rows of numbers. -/
theorem run_evalRows {rows : List (List (Expr K))} {vss : List (List (Value K))}
    {xss : List (List K)} (h : ∀ row ∈ rows, ∀ a ∈ row, ∀ v,
      a.value? ρ = some v → (eval enter loops a).run env = (.ok v, env))
    (hvss : rows? ρ rows = some vss)
    (hxss : vss.mapM (fun row => row.mapM fun v => (v.asNumber "matrix").toOption) = some xss) :
    (evalRows enter loops rows).run env = (.ok xss, env) := by
  induction rows generalizing vss xss with
  | nil =>
    cases hvss
    cases hxss
    rfl
  | cons row rows ih =>
    obtain ⟨vs, hvs, hvss⟩ := Option.bind_eq_some_iff.1 hvss
    obtain ⟨rest, hrest, hvss⟩ := Option.bind_eq_some_iff.1 hvss
    cases hvss
    rw [List.mapM_cons] at hxss
    obtain ⟨xs, hxs, hxss⟩ := Option.bind_eq_some_iff.1 hxss
    obtain ⟨yss, hyss, hxss⟩ := Option.bind_eq_some_iff.1 hxss
    cases hxss
    rw [evalRows, run_bind_ok (run_evalNumbers (h row (.head _)) hvs hxs),
      run_bind_ok (ih (fun row hrow => h row (.tail _ hrow)) hrest hyss)]
    rfl

end

/-- As many values as trees. -/
theorem length_values? : ∀ {as : List (Expr K)} {vs : List (Value K)}, values? ρ as = some vs →
    vs.length = as.length
  | [], _, h => by
    cases h
    rfl
  | a :: as, _, h => by
    obtain ⟨v, -, h⟩ := Option.bind_eq_some_iff.1 h
    obtain ⟨vs, hvs, h⟩ := Option.bind_eq_some_iff.1 h
    cases h
    exact congrArg Nat.succ (length_values? hvs)

/-- **Evaluation gives the value** and leaves the environment as it is. -/
theorem eval_of_value? (hρ : ρ.Holds fuel env) (h : e.value? ρ = some v) :
    (eval (evalWithin fuel) loops e).run env = (.ok v, env) := by
  induction e using Expr.induction generalizing v with
  | number | bool | polar | string | angle =>
    cases h
    rfl
  | var x =>
    rw [eval, lookup]
    refine (run_bind_ok rfl).trans ?_
    rw [hρ.var h]
    rfl
  | unary op a iha =>
    obtain ⟨u, hu, h⟩ := Option.bind_eq_some_iff.1 h
    rw [eval, run_bind_ok (iha hu)]
    exact run_ofResult h
  | binary op a b iha ihb =>
    rw [eval]
    cases value?_binary h with
    | combined hop hu hw hv =>
      rw [hop]
      dsimp only
      rw [run_bind_ok (iha hu), run_bind_ok (ihb hw)]
      exact run_ofResult (applyBinary_of_combine? hv)
    | decided hop hu hleft =>
      rw [hop]
      dsimp only
      rw [run_bind_ok (iha hu), hleft]
      exact (run_bind_ok rfl).trans (by rw [if_pos rfl]; rfl)
    | undecided hop hu hleft hopen hw hright =>
      rw [hop]
      dsimp only
      rw [run_bind_ok (iha hu), hleft]
      refine (run_bind_ok rfl).trans ?_
      rw [if_neg hopen, run_bind_ok (ihb hw), hright]
      rfl
  | builtin f as ih =>
    obtain ⟨vs, hvs, h⟩ := Option.bind_eq_some_iff.1 h
    split at h
    · next harity =>
      cases hf : f.isSymbolic with
      | false =>
        rw [eval_builtin hf, checkArity, if_pos harity]
        refine (run_bind_ok rfl).trans ?_
        rw [run_bind_ok (run_evalList (fun a ha v hv => ih a ha hv) hvs)]
        exact run_ofResult h
      | true => cases f <;> cases hf <;> cases vs <;> cases h
    · cases h
  | call f as ih =>
    obtain ⟨vs, hvs, h⟩ := Option.bind_eq_some_iff.1 h
    obtain ⟨definition, hcallee, hbody⟩ := hρ.call h
    rw [eval, ← length_values? hvs, run_bind_ok hcallee,
      run_bind_ok (run_evalList (fun a ha v hv => ih a ha hv) hvs)]
    exact hbody
  | vector as ih =>
    obtain ⟨vs, hvs, h⟩ := Option.bind_eq_some_iff.1 h
    obtain ⟨xs, hxs, h⟩ := Option.bind_eq_some_iff.1 h
    cases h
    rw [eval, run_bind_ok (run_evalNumbers (fun a ha v hv => ih a ha hv) hvs hxs)]
    rfl
  | matrix rows ih =>
    obtain ⟨vss, hvss, h⟩ := Option.bind_eq_some_iff.1 h
    obtain ⟨xss, hxss, h⟩ := Option.bind_eq_some_iff.1 h
    cases h
    rw [eval, run_bind_ok (run_evalRows (fun row hrow a ha v hv => ih row hrow a ha hv) hvss hxss)]
    rfl
  | ifThen c a ihc iha =>
    obtain ⟨u, hu, h⟩ := Option.bind_eq_some_iff.1 h
    obtain ⟨holds, hholds, h⟩ := Option.bind_eq_some_iff.1 h
    rw [eval, run_bind_ok (ihc hu), run_bind_ok (run_ofResult hholds)]
    cases holds with
    | true => exact iha h
    | false =>
      cases h
      rfl
  | ifThenElse c a b ihc iha ihb =>
    obtain ⟨u, hu, h⟩ := Option.bind_eq_some_iff.1 h
    obtain ⟨holds, hholds, h⟩ := Option.bind_eq_some_iff.1 h
    rw [eval, run_bind_ok (ihc hu), run_bind_ok (run_ofResult hholds)]
    cases holds with
    | true => exact iha h
    | false => exact ihb h
  | forLoop | whileLoop | define | undefine | assign | step => cases h

/-- **Execution gives the value** and leaves the environment as it is. -/
theorem execute_of_value? (hρ : ρ.Holds (evaluationFuel - 1) env) (h : e.value? ρ = some v) :
    e.execute env = (.ok v, env) := by
  rw [execute_eq_eval]
  exact eval_of_value? hρ h

end Expr

end Formula

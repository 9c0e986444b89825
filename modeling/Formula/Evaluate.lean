import Formula.Environment
import Formula.Simplify
import Formula.Derivative

/-!
# Evaluation

`Expr.execute` gives the value of a tree in an environment, or the error that stopped it, and in
either case the environment it leaves. Operands are evaluated from left to right.

Evaluation recurses over the tree. It leaves the tree in two places, for the body of a user
function and for a derivative taken at a point, and it repeats in loops. `Expr.evalWithin` counts
both: it re-enters at most `fuel` trees inside each other and runs a loop at most `fuel` times, and
says `outOfFuel` when that is not enough. Calls refuse to nest deeper than `maxCallDepth` scopes,
long before the fuel of `execute` runs out; only a loop can use it up, or derivatives at a point
that lead to each other.
-/

namespace Formula

/-- Why an evaluation stops without a value. -/
inductive Failure (K : Type) where
  | error (cause : RuntimeError K)
  | outOfFuel

/-- A computation that changes an environment and may stop; what it changed before stays. -/
abbrev Eval (K : Type) := ExceptT (Failure K) (StateM (Environment K))

namespace Eval

variable {K α : Type}

/-- A result that needs no environment. -/
def ofResult (result : Result K α) : Eval K α :=
  match result with
  | .ok a => return a
  | .error cause => throw (.error cause)

/-- Stops with an error. -/
def fail (cause : RuntimeError K) : Eval K α := throw (.error cause)

/-- The value a name stands for. -/
def lookup (name : String) : Eval K (Value K) := do
  match (← get).get? name with
  | some value => return value
  | none => fail (.unknownVariable name)

/-- Binds a name. -/
def store (name : String) (value : Value K) : Eval K Unit := do
  set (← ofResult ((← get).set name value))

/-- A computation in a scope of its own, which is closed also after an error. -/
def inScope (scope : Scope K) (body : Eval K α) : Eval K α := ExceptT.mk fun env =>
  let (result, after) := body.run (env.push scope)
  (result, after.pop)

/-- Runs a body as long as a condition holds, at most `fuel` times. -/
def loop (condition : Eval K Bool) (body : Eval K Unit) : (fuel : Nat) → Eval K Unit
  | 0 => throw .outOfFuel
  | fuel + 1 => do
    if ← condition then
      body
      loop condition body fuel

end Eval

/-- How many scopes may be open where a user function is called. -/
def maxCallDepth : Nat := 256

/-- The variable of a derivative that names none. -/
def defaultVariable : String := "x"

namespace Expr

variable {K : Type} [Scalar K]

open Eval

/-! ## Trees as arguments -/

/-- The tree a symbolic function works on: the tree a variable stands for, if it stands for one,
and otherwise the argument itself. -/
def symbolicArgument (env : Environment K) (e : Expr K) : Expr K :=
  match e with
  | var name =>
    match env.get? name with
    | some (.function tree) => tree
    | _ => e
  | _ => e

/-- The variable named by the second argument of a derivative. -/
def derivativeVariable : Option (Expr K) → Result K String
  | none => .ok defaultVariable
  | some (var name) => .ok name
  | some other => .error (.invalidArgument "deriv" s!"'{other.text}' is not a variable")

/-- The derivative of a symbolic argument, simplified for real variables. -/
def deriveArgument (e : Expr K) (second? : Option (Expr K)) : Eval K (String × Expr K) := do
  let x ← ofResult (derivativeVariable second?)
  match derivative x (symbolicArgument (← get) e) with
  | .ok tree => return (x, tree.simplifyReal)
  | .error cause => fail (.differentiation cause)

/-- Refuses a built-in call with a number of arguments it does not take. -/
def checkArity (f : Builtin) (count : Nat) : Eval K Unit :=
  if f.arity.accepts count then return () else fail (.construction (.argumentCount f count))

/-! ## Definitions -/

/-- Binds a variable to a value and says so. -/
def defineVariable (name : String) (value : Value K) : Eval K (Value K) := do
  store name value
  return .string s!"The value '{value.text}' was assigned to '{name}'."

/-- Binds a user function and says so. -/
def defineFunction (name : String) (arguments : List (Expr K)) (body : Expr K) :
    Eval K (Value K) :=
  match parameters? arguments with
  | some parameters => do
    modify (·.defineFunction name ⟨parameters, body⟩)
    return .string s!"The function '{(call name arguments).text}' was defined."
  | none => fail (.construction (.badDeclaration name))

/-- Removes what a key stands for and says whether there was anything. -/
def remove (key : Expr K) : Eval K (Value K) := do
  let removed ← match key with
    | var name => do
      let (old, env) ← ofResult ((← get).remove name)
      set env
      pure old.isSome
    | call name arguments => do
      let (old, env) := (← get).removeFunction name arguments.length
      set env
      pure old.isSome
    | other => fail (.construction (.notAssignable other.kind))
  return .string <|
    if removed then s!"'{key.text}' was removed." else s!"'{key.text}' is not defined."

/-- Adds the step to a variable. -/
def applyStep (op : StepOp) (name : String) : Eval K (Value K) := do
  let old ← ofResult ((← lookup name).asNumber op.symbol)
  let value : Value K := .number (old + Scalar.ofInt op.delta)
  store name value
  return value

/-- The definition a call goes to, if the calls do not nest too deep. -/
def callee (name : String) (arity : Nat) : Eval K (FunctionDefinition K) := do
  let env ← get
  match env.function? name arity with
  | some definition =>
    if definition.parameters.length ≠ arity then fail (.unknownFunction name arity)
    else if maxCallDepth < env.depth then fail (.callDepthExceeded name maxCallDepth)
    else return definition
  | none => fail (.unknownFunction name arity)

/-! ## Evaluation -/

section

variable (enter : Expr K → Eval K (Value K)) (loops : Nat)

mutual

/-- The value of a tree, where `enter` evaluates the trees it leads to and a loop runs at most
`loops` times. -/
def eval : Expr K → Eval K (Value K)
  | number value => return .number value
  | bool value => return .bool value
  | polar magnitude phase =>
    return .complex (.ofPolar magnitude (phase * (Scalar.pi / Scalar.ofInt 180)))
  | string value => return .string value
  | angle value => return .angle value
  | var name => lookup name
  | unary op a => do ofResult ((← eval a).applyUnary op)
  | binary op a b =>
    match op.decidedBy? with
    | some decisive => do
      let left ← ofResult ((← eval a).asBool op.symbol)
      if left = decisive then return .bool decisive
      else return .bool (← ofResult ((← eval b).asBool op.symbol))
    | none => do
      let left ← eval a
      let right ← eval b
      ofResult (left.applyBinary op right)
  | builtin .simplify as => do
    checkArity .simplify as.length
    match as with
    | a :: _ => return .function (symbolicArgument (← get) a).simplify
    | [] => fail (.noRule (.builtin .simplify))
  | builtin .derivative as => do
    checkArity .derivative as.length
    match as with
    | [a] => return .function (← deriveArgument a none).2
    | [a, x] => return .function (← deriveArgument a (some x)).2
    | [a, x, point] => do
      let (name, tree) ← deriveArgument a (some x)
      let value ← eval point
      inScope (.ofList [(name, value)]) (enter tree)
    | _ => fail (.noRule (.builtin .derivative))
  | builtin f as => do
    checkArity f as.length
    ofResult (Value.applyBuiltin f (← evalList as))
  | call name as => do
    let definition ← callee name as.length
    let values ← evalList as
    inScope (.ofList (definition.parameters.zip values)) (enter definition.body)
  | vector as => do return .vector (← evalNumbers "vector" as)
  | matrix rows => do return .matrix (← evalRows rows)
  | ifThen c a => do
    if ← ofResult ((← eval c).asBool "if") then eval a else return .empty
  | ifThenElse c a b => do
    if ← ofResult ((← eval c).asBool "if") then eval a else eval b
  | forLoop body init condition iteration => do
    let _ ← eval init
    loop (do ofResult ((← eval condition).asBool "for"))
      (do let _ ← eval body; let _ ← eval iteration) loops
    return .empty
  | whileLoop body condition => do
    loop (do ofResult ((← eval condition).asBool "while")) (do let _ ← eval body) loops
    return .empty
  | define key value =>
    match key with
    | var name => do defineVariable name (← eval value)
    | call name arguments => defineFunction name arguments value
    | other => fail (.construction (.notAssignable other.kind))
  | undefine key => remove key
  | assign op name value => do
    let old ← lookup name
    let _ ← ofResult (old.asNumber op.symbol)
    let right ← eval value
    let result ← ofResult (old.applyBinary op.binary right)
    store name result
    return result
  | step op name => applyStep op name

/-- The values of a list of trees. -/
def evalList : List (Expr K) → Eval K (List (Value K))
  | [] => return []
  | a :: as => do
    let value ← eval a
    return value :: (← evalList as)

/-- The values of a list of trees, each of them a number. -/
def evalNumbers (operation : String) : List (Expr K) → Eval K (List K)
  | [] => return []
  | a :: as => do
    let value ← ofResult ((← eval a).asNumber operation)
    return value :: (← evalNumbers operation as)

/-- The values of the rows of a matrix. -/
def evalRows : List (List (Expr K)) → Eval K (List (List K))
  | [] => return []
  | row :: rows => do
    let values ← evalNumbers "matrix" row
    return values :: (← evalRows rows)

end

end

/-- The value of a tree with limited fuel. -/
def evalWithin : (fuel : Nat) → Expr K → Eval K (Value K)
  | 0, _ => throw .outOfFuel
  | fuel + 1, e => eval (evalWithin fuel) fuel e

/-- The fuel of an evaluation. -/
def evaluationFuel : Nat := 10 ^ 9

/-- Evaluates a tree in an environment, which is returned also with an error. -/
def execute (e : Expr K) (env : Environment K) :
    Except (Failure K) (Value K) × Environment K := (e.evalWithin evaluationFuel).run env

/-- Evaluates a tree over the constants alone. -/
def evaluate (e : Expr K) : Except (Failure K) (Value K) := (e.execute .initial).1

end Expr

end Formula

import Formula.Value
import Formula.Expr.Build
import Formula.Scalar.Integer

/-!
# Errors of evaluation

Why a formula has no value or no derivative, and the views of a value as the number, truth value
or list an operation needs. A view of the wrong sort is an error that names the operation.
-/

namespace Formula

/-- Why a tree has no derivative. -/
inductive DerivativeError where
  /-- A node mentions the variable and no rule covers it. -/
  | noRule (kind : Kind)
  /-- A node of the derivative cannot be built. -/
  | construction (cause : BuildError)
  deriving DecidableEq, Repr

/-- The error in words. -/
def DerivativeError.message : DerivativeError → String
  | noRule kind => s!"Differentiation of {kind.describe} is not supported."
  | construction cause => cause.message

/-- Why a formula has no value. -/
inductive RuntimeError (K : Type) where
  /-- The operation does not take operands of these types. -/
  | unsupported (operation : String) (operands : List ValueType)
  | unknownVariable (name : String)
  | unknownFunction (name : String) (arity : Nat)
  /-- Too many calls and scopes inside each other. -/
  | callDepthExceeded (name : String) (maxDepth : Nat)
  | constantAssignment (name : String)
  | expectedNumber (operation : String)
  | expectedBool (operation : String)
  | expectedInteger (operation : String) (value : K)
  | dimensionMismatch (operation : String)
  /-- An argument lies outside the domain of the operation. -/
  | invalidArgument (operation details : String)
  | differentiation (cause : DerivativeError)
  | construction (cause : BuildError)

/-- The evaluator has no rule for a node of this kind, whatever its operands are. -/
def RuntimeError.noRule {K : Type} (kind : Kind) : RuntimeError K := .unsupported kind.describe []

/-- The error in words. -/
def RuntimeError.message {K : Type} [Scalar K] : RuntimeError K → String
  | unsupported operation operands =>
    s!"Operation '{operation}' is not supported for " ++
      String.intercalate " and " (operands.map ValueType.describe) ++ "."
  | unknownVariable name => s!"Unknown variable '{name}'."
  | unknownFunction name arity => s!"Unknown function '{name}' with {arity} parameter(s)."
  | callDepthExceeded name maxDepth =>
    s!"Calls of '{name}' nested deeper than {maxDepth} levels."
  | constantAssignment name => s!"'{name}' is a constant and cannot be changed."
  | expectedNumber operation => s!"'{operation}' expects a number."
  | expectedBool operation => s!"'{operation}' expects a boolean."
  | expectedInteger operation value =>
    s!"'{operation}' expects an integer, found {Scalar.text value}."
  | dimensionMismatch operation => s!"Dimensions do not match for '{operation}'."
  | invalidArgument operation details => s!"Invalid argument for '{operation}': {details}"
  | differentiation cause => cause.message
  | construction cause => cause.message

/-- A result, or the reason why there is none. -/
abbrev Result (K α : Type) := Except (RuntimeError K) α

namespace Value

variable {K : Type}

/-! ## Views -/

/-- The value as a real number. -/
def asNumber (operation : String) : Value K → Result K K
  | number value => .ok value
  | _ => .error (.expectedNumber operation)

/-- The value as a truth value. -/
def asBool (operation : String) : Value K → Result K Bool
  | bool value => .ok value
  | _ => .error (.expectedBool operation)

/-- The value as a vector. -/
def asVector (operation : String) : Value K → Result K (List K)
  | vector elements => .ok elements
  | other => .error (.unsupported operation [other.type])

/-- The value as a matrix. -/
def asMatrix (operation : String) : Value K → Result K (List (List K))
  | matrix rows => .ok rows
  | other => .error (.unsupported operation [other.type])

variable [Scalar K]

/-- A number as an integer of the safe range. -/
def integerOf (operation : String) (value : K) : Result K Int :=
  match Scalar.toSafeInt? value with
  | some n => .ok n
  | none => .error (.expectedInteger operation value)

/-- The value as an integer of the safe range. -/
def asInteger (operation : String) (v : Value K) : Result K Int :=
  v.asNumber operation >>= integerOf operation

/-- The value as a complex number; a real number is one. -/
def asComplex (operation : String) : Value K → Result K (Complex K)
  | complex value => .ok value
  | number value => .ok (.ofReal value)
  | _ => .error (.expectedNumber operation)

/-- An integer of the safe range as a value; any other is too large for the operation. -/
def ofInteger (operation : String) (n : Int) : Result K (Value K) :=
  match Scalar.ofSafeInt? n with
  | some value => .ok (.number value)
  | none =>
    .error (.invalidArgument operation s!"{n} is too large to be represented exactly")

end Value

end Formula

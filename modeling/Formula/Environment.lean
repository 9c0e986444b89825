import Formula.Value.Error

/-!
# Environments

What names stand for while formulas are evaluated: variables in a stack of scopes, constants
beneath them, and user functions by name and number of parameters. A variable is looked up from
the innermost scope outwards and changed where it is found; a new one begins in the innermost
scope. A scope may shadow a constant, but no assignment changes or removes one.
-/

namespace Formula

/-! ## Bindings -/

/-- What keys stand for. -/
structure Bindings (α β : Type) where
  entries : List (α × β)

namespace Bindings

variable {α β : Type} [BEq α]

/-- No bindings. -/
def empty : Bindings α β := ⟨[]⟩

/-- What a key stands for. -/
def get? (b : Bindings α β) (key : α) : Option β := b.entries.lookup key

/-- Whether a key is bound. -/
def contains (b : Bindings α β) (key : α) : Bool := (b.get? key).isSome

/-- The bindings without a key. -/
def erase (b : Bindings α β) (key : α) : Bindings α β := ⟨b.entries.filter (·.1 != key)⟩

/-- The bindings with a key bound anew. -/
def insert (b : Bindings α β) (key : α) (value : β) : Bindings α β :=
  ⟨(key, value) :: (b.erase key).entries⟩

/-- Bindings from a list, a later entry replacing an earlier one. -/
def ofList (entries : List (α × β)) : Bindings α β :=
  entries.foldl (fun b (key, value) => b.insert key value) empty

end Bindings

/-! ## Environments -/

/-- The names bound in one scope. -/
abbrev Scope (K : Type) := Bindings String (Value K)

/-- A user function. -/
structure FunctionDefinition (K : Type) where
  parameters : List String
  body : Expr K

/-- What names stand for. -/
structure Environment (K : Type) where
  /-- The open scopes, the innermost first. -/
  scopes : List (Scope K)
  constants : Bindings String (Value K)
  /-- The user functions by name and number of parameters. -/
  functions : Bindings (String × Nat) (FunctionDefinition K)

namespace Environment

variable {K : Type}

/-- One empty scope and nothing else. -/
def withoutConstants : Environment K := ⟨[.empty], .empty, .empty⟩

/-- One empty scope over the constants `pi`, `π`, `e` and `i`. -/
def initial [Scalar K] : Environment K where
  scopes := [.empty]
  constants := .ofList [("pi", .number Scalar.pi), ("π", .number Scalar.pi),
    ("e", .number Scalar.euler), ("i", .complex .imaginaryUnit)]
  functions := .empty

/-- How many scopes are open. -/
def depth (env : Environment K) : Nat := env.scopes.length

/-- What a name stands for, in the innermost scope that binds it or as a constant. -/
def get? (env : Environment K) (name : String) : Option (Value K) :=
  (env.scopes.findSome? (·.get? name)).or (env.constants.get? name)

/-- Whether a name is a constant. -/
def isConstant (env : Environment K) (name : String) : Bool := env.constants.contains name

/-- The first scope that binds the name, changed; the scopes as they are if none does. -/
def modifyScope (name : String) (f : Scope K → Scope K) : List (Scope K) → List (Scope K)
  | [] => []
  | scope :: outer =>
    if scope.contains name then f scope :: outer else scope :: modifyScope name f outer

/-- The innermost scope changed. -/
def modifyInnermost (f : Scope K → Scope K) : List (Scope K) → List (Scope K)
  | [] => []
  | scope :: outer => f scope :: outer

/-- Binds a name: where it is bound already, and otherwise in the innermost scope. -/
def set (env : Environment K) (name : String) (value : Value K) : Result K (Environment K) :=
  if env.isConstant name then .error (.constantAssignment name)
  else
    let bind (scope : Scope K) := scope.insert name value
    let change := if env.scopes.any (·.contains name) then modifyScope name bind
      else modifyInnermost bind
    .ok { env with scopes := change env.scopes }

/-- Removes the innermost binding of a name and tells what it was. -/
def remove (env : Environment K) (name : String) :
    Result K (Option (Value K) × Environment K) :=
  if env.isConstant name then .error (.constantAssignment name)
  else
    .ok (env.scopes.findSome? (·.get? name),
      { env with scopes := modifyScope name (·.erase name) env.scopes })

/-- A user function by name and number of parameters. -/
def function? (env : Environment K) (name : String) (arity : Nat) :
    Option (FunctionDefinition K) := env.functions.get? (name, arity)

/-- Binds a user function under the number of its parameters. -/
def defineFunction (env : Environment K) (name : String) (definition : FunctionDefinition K) :
    Environment K :=
  { env with functions := env.functions.insert (name, definition.parameters.length) definition }

/-- Removes a user function and tells what it was. -/
def removeFunction (env : Environment K) (name : String) (arity : Nat) :
    Option (FunctionDefinition K) × Environment K :=
  (env.function? name arity, { env with functions := env.functions.erase (name, arity) })

/-- Opens a scope. -/
def push (env : Environment K) (scope : Scope K) : Environment K :=
  { env with scopes := scope :: env.scopes }

/-- Closes the innermost scope; the outermost stays open. -/
def pop (env : Environment K) : Environment K :=
  match env.scopes with
  | _ :: outer :: rest => { env with scopes := outer :: rest }
  | _ => env

end Environment

end Formula

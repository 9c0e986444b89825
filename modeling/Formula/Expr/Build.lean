import Formula.Expr

/-!
# Checked construction

The constructors that keep a tree meaningful: a built-in call has an accepted number of
arguments, a vector has an element, a matrix has rows of one length, and a definition has a key
that can be bound. Reading a formula and copying a tree with new children both go through them.

`withChildren` replaces some children of a node and keeps the rest of it. It refuses a list of
the wrong length, and otherwise exactly the keys that cannot be bound.
-/

namespace Formula

/-- Why a node cannot be built. -/
inductive BuildError where
  /-- A row of a matrix differs in length from the first row. -/
  | raggedMatrix (row expected found : Nat)
  | emptyVector
  | emptyMatrix
  /-- A built-in function does not take this many arguments. -/
  | argumentCount (function : Builtin) (found : Nat)
  /-- A declaration lists something other than variables. -/
  | badDeclaration (name : String)
  /-- A definition would change a built-in function. -/
  | redefinesBuiltin (name : String)
  /-- A definition has a key that names nothing. -/
  | notAssignable (kind : Kind)
  /-- A node is copied with the wrong number of children. -/
  | childCount (kind : Kind) (expected found : Nat)
  deriving DecidableEq, Repr

/-- The error in words. -/
def BuildError.message : BuildError → String
  | raggedMatrix row expected found =>
    s!"Invalid matrix: row {row} has {found} elements, expected {expected}."
  | emptyVector => "A vector must contain at least one element."
  | emptyMatrix => "A matrix must contain at least one row."
  | argumentCount function found =>
    s!"Function '{function.name}' expects {function.arity.describe}, found {found}."
  | badDeclaration name => s!"Declaration of '{name}' may only list variables as parameters."
  | redefinesBuiltin name => s!"Built-in function '{name}' cannot be redefined."
  | notAssignable kind => s!"Cannot assign to a {kind.describe}."
  | childCount kind expected found =>
    s!"A {kind.describe} node has {expected} children, {found} were supplied."

namespace Expr

variable {K : Type}

/-! ## Nodes with a condition -/

/-- A call of a built-in function with an accepted number of arguments. -/
def mkBuiltin (function : Builtin) (arguments : List (Expr K)) : Except BuildError (Expr K) :=
  if function.arity.accepts arguments.length then .ok (.builtin function arguments)
  else .error (.argumentCount function arguments.length)

/-- A vector with at least one element. -/
def mkVector (elements : List (Expr K)) : Except BuildError (Expr K) :=
  if elements.isEmpty then .error .emptyVector else .ok (.vector elements)

/-- The first row, with its number, that is not of the expected length. -/
def raggedRow? (expected : Nat) : Nat → List (List (Expr K)) → Option (Nat × Nat)
  | _, [] => none
  | i, row :: rows =>
    if row.length = expected then raggedRow? expected (i + 1) rows else some (i, row.length)

/-- A matrix with at least one row, each row a vector, all of one length. -/
def mkMatrix (rows : List (List (Expr K))) : Except BuildError (Expr K) :=
  if rows.any List.isEmpty then .error .emptyVector
  else match rows with
    | [] => .error .emptyMatrix
    | first :: rest =>
      match raggedRow? first.length 1 rest with
      | some (row, found) => .error (.raggedMatrix row first.length found)
      | none => .ok (.matrix (first :: rest))

/-- The names of a declaration's parameters, if all of them are variables. -/
def parameters? (arguments : List (Expr K)) : Option (List String) := arguments.mapM varName?

/-- Whether a definition can bind the key: a variable, or the declaration of a function that is
not built in, with variables for its parameters. -/
def checkKey : Expr K → Except BuildError Unit
  | var _ => .ok ()
  | call name arguments =>
    if (Builtin.ofName? name).isSome then .error (.redefinesBuiltin name)
    else if (parameters? arguments).isNone then .error (.badDeclaration name)
    else .ok ()
  | builtin function _ => .error (.redefinesBuiltin function.name)
  | other => .error (.notAssignable other.kind)

/-- A definition with a key that can be bound. -/
def mkDefine (key value : Expr K) : Except BuildError (Expr K) :=
  match checkKey key with
  | .ok () => .ok (.define key value)
  | .error e => .error e

/-- The removal of a key that can be bound. -/
def mkUndefine (key : Expr K) : Except BuildError (Expr K) :=
  match checkKey key with
  | .ok () => .ok (.undefine key)
  | .error e => .error e

/-! ## New children -/

/-- A list cut into rows as long as the given ones. -/
def cutLike : List (List (Expr K)) → List (Expr K) → List (List (Expr K))
  | [], _ => []
  | row :: rows, elements => elements.take row.length :: cutLike rows (elements.drop row.length)

/-- The node with other children, as many as it has. -/
def rebuild (e : Expr K) (children : List (Expr K)) : Except BuildError (Expr K) :=
  match e, children with
  | unary op _, [a] => .ok (unary op a)
  | binary op _ _, [a, b] => .ok (binary op a b)
  | builtin function _, arguments => mkBuiltin function arguments
  | call name _, arguments => .ok (call name arguments)
  | vector _, elements => mkVector elements
  | matrix rows, elements => mkMatrix (cutLike rows elements)
  | ifThen _ _, [c, a] => .ok (ifThen c a)
  | ifThenElse _ _ _, [c, a, b] => .ok (ifThenElse c a b)
  | forLoop _ _ _ _, [body, init, condition, iteration] =>
    .ok (forLoop body init condition iteration)
  | whileLoop _ _, [body, condition] => .ok (whileLoop body condition)
  | define _ _, [key, value] => mkDefine key value
  | undefine _, [key] => mkUndefine key
  | assign op name _, [value] => .ok (assign op name value)
  | leaf, _ => .ok leaf

/-- The node with those of its children replaced for which a replacement is given. -/
def withChildren (e : Expr K) (replacements : List (Option (Expr K))) :
    Except BuildError (Expr K) :=
  if replacements.length = e.children.length then
    e.rebuild (List.zipWith (fun old new => new.getD old) e.children replacements)
  else .error (.childCount e.kind e.children.length replacements.length)

end Expr

end Formula

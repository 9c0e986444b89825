import Formula.Complex
import Formula.Expr.Text

/-!
# Values

What a formula evaluates to, and the type of each value. Vectors and matrices hold real numbers; a
function value is a tree that was derived or simplified and is not evaluated yet. Statements that
produce nothing have the empty value.
-/

namespace Formula

/-- The types of values. -/
inductive ValueType where
  | number | boolean | complex | angle | string | vector | matrix | function | empty
  deriving DecidableEq, Repr

namespace ValueType

/-- Every type. -/
def all : List ValueType :=
  [number, boolean, complex, angle, string, vector, matrix, function, empty]

/-- The type in words. -/
def describe : ValueType → String
  | number => "number"
  | boolean => "boolean"
  | complex => "complex number"
  | angle => "angle"
  | string => "string"
  | vector => "vector"
  | matrix => "matrix"
  | function => "function"
  | empty => "empty value"

end ValueType

/-- A value. -/
inductive Value (K : Type) where
  | number (value : K)
  | bool (value : Bool)
  | complex (value : Complex K)
  | angle (value : Angle K)
  | string (value : String)
  | vector (elements : List K)
  /-- A matrix by its rows. -/
  | matrix (rows : List (List K))
  /-- A tree that stands for a function. -/
  | function (tree : Expr K)
  | empty

namespace Value

variable {K : Type}

instance : Inhabited (Value K) := ⟨.empty⟩

/-- The type of a value. -/
def type : Value K → ValueType
  | number _ => .number
  | bool _ => .boolean
  | complex _ => .complex
  | angle _ => .angle
  | string _ => .string
  | vector _ => .vector
  | matrix _ => .matrix
  | function _ => .function
  | empty => .empty

/-- Whether the value is a real number. -/
def isNumber : Value K → Bool
  | number _ => true
  | _ => false

variable [Scalar K]

/-- Numbers in braces. -/
def elementsText (elements : List K) : String :=
  Expr.braced (Expr.commaSeparated (elements.map Scalar.text))

/-- The value as it is shown; the empty value shows nothing. -/
def text : Value K → String
  | number value => Scalar.text value
  | bool value => if value then "true" else "false"
  | complex value => value.text
  | angle value => value.text
  | string value => value
  | vector elements => elementsText elements
  | matrix rows => Expr.braced (Expr.commaSeparated (rows.map elementsText))
  | function tree => tree.text
  | empty => ""

end Value

end Formula

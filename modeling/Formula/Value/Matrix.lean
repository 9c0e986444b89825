import Formula.Value.Error

/-!
# Vectors and matrices

Linear algebra on lists of numbers and lists of rows. Shapes are checked where two operands meet
and where a matrix has to be square; a shape that does not fit is an error of the operation.

The determinant and the inverse come from elimination by columns. Each step chooses the row whose
first entry is largest, the last of several, brings it to the front by a swap and clears the first
column of the other rows, which then lose it. The determinant multiplies the chosen entries and
changes its sign with every swap; the inverse runs on rows extended by those of the identity, and
also clears the rows that were chosen before.
-/

namespace Formula.Matrix

variable {K : Type} [Scalar K]

/-! ## Sums and products -/

/-- Two vectors of one length combined entry by entry. -/
def elementwise (operation : String) (f : K → K → K) (a b : List K) : Result K (List K) :=
  if a.length = b.length then .ok (List.zipWith f a b) else .error (.dimensionMismatch operation)

/-- Rows combined one by one. -/
def elementwiseRows (operation : String) (f : K → K → K) :
    List (List K) → List (List K) → Result K (List (List K))
  | row :: rows, row' :: rows' => do
    let first ← elementwise operation f row row'
    let rest ← elementwiseRows operation f rows rows'
    return first :: rest
  | _, _ => .ok []

/-- Two matrices of one shape combined entry by entry. -/
def elementwiseMatrix (operation : String) (f : K → K → K) (a b : List (List K)) :
    Result K (List (List K)) :=
  if a.length = b.length then elementwiseRows operation f a b
  else .error (.dimensionMismatch operation)

/-- Every entry multiplied by a factor. -/
def scale (m : List (List K)) (factor : K) : List (List K) := m.map (·.map (· * factor))

/-- How many columns a matrix has. -/
def columnCount (m : List (List K)) : Nat := (m.headD []).length

/-- The entries of one column. -/
def column (m : List (List K)) (j : Nat) : List K := m.map (·.getD j Scalar.zero)

/-- Rows and columns exchanged. -/
def transpose (m : List (List K)) : List (List K) := (List.range (columnCount m)).map (column m)

/-- The sum of the products of corresponding entries. -/
def sumOfProducts (a b : List K) : K := Scalar.sum (List.zipWith (· * ·) a b)

/-- The scalar product of two vectors of one length. -/
def dot (operation : String) (a b : List K) : Result K K := do
  return Scalar.sum (← elementwise operation (· * ·) a b)

/-- The product of two matrices that fit. -/
def multiply (a b : List (List K)) : Result K (List (List K)) :=
  if columnCount a = b.length then
    .ok (a.map fun row => (List.range (columnCount b)).map fun j => sumOfProducts row (column b j))
  else .error (.dimensionMismatch "*")

/-- The product of a matrix and a column vector that fit. -/
def multiplyVector (m : List (List K)) (v : List K) : Result K (List K) := m.mapM (dot "*" · v)

/-- The vector product of two vectors of three entries. -/
def cross : List K → List K → Result K (List K)
  | [a₁, a₂, a₃], [b₁, b₂, b₃] =>
    .ok [Scalar.mulAdd a₂ b₃ (-(a₃ * b₂)), Scalar.mulAdd a₃ b₁ (-(a₁ * b₃)),
      Scalar.mulAdd a₁ b₂ (-(a₂ * b₁))]
  | _, _ => .error (.dimensionMismatch "crossproduct")

/-! ## Elimination -/

/-- Entries below this are no pivots. -/
def pivotThreshold : K := Scalar.ofDecimal 1 (-12)

/-- The first entry of a row. -/
def lead (row : List K) : K := row.headD Scalar.zero

/-- The better of the best row so far, given by its index and the size of its first entry, and the
rows from index `i` on. A later row of the same size is the better one. -/
def pivotFrom : (i best : Nat) → (size : K) → List (List K) → Nat
  | _, best, _, [] => best
  | i, best, size, row :: rows =>
    let candidate := Scalar.abs (lead row)
    if Scalar.rank size candidate = .gt then pivotFrom (i + 1) best size rows
    else pivotFrom (i + 1) i candidate rows

/-- The index of the row with the largest first entry, the last of several. -/
def pivotIndex : List (List K) → Nat
  | [] => 0
  | row :: rows => pivotFrom 1 0 (Scalar.abs (lead row)) rows

/-- The row at an index exchanged with the first row, and taken apart from the others. -/
def takePivot (rows : List (List K)) (index : Nat) : Option (List K × List (List K)) :=
  match rows, index with
  | [], _ => none
  | first :: rest, 0 => some (first, rest)
  | first :: rest, i + 1 => (rest[i]?).map fun pivot => (pivot, rest.set i first)

/-- A row without its first entry, less a multiple of another. -/
def subtractMultiple (factor : K) (pivot row : List K) : List K :=
  List.zipWith (fun a b => a - factor * b) row.tail pivot

/-- Whether an entry is too small to divide by. -/
def isNegligible (a : K) : Bool := Scalar.lt (Scalar.abs a) pivotThreshold

/-- The number of rows of a square matrix. -/
def squareSize (operation : String) (m : List (List K)) : Result K Nat :=
  if m.all (·.length = m.length) then .ok m.length else .error (.dimensionMismatch operation)

/-- The product of `sign` and the pivots of a square matrix of the given size; zero if one of them
is negligible. -/
def eliminate : (size : Nat) → (sign : K) → List (List K) → K
  | 0, acc, _ => acc
  | size + 1, acc, rows =>
    let index := pivotIndex rows
    match takePivot rows index with
    | none => acc
    | some (pivot, rest) =>
      if isNegligible (lead pivot) then Scalar.zero
      else
        let signed := if index = 0 then acc else -acc
        eliminate size (signed * lead pivot)
          (rest.map fun row => subtractMultiple (lead row / lead pivot) pivot.tail row)

/-- The determinant of a square matrix. -/
def determinant (m : List (List K)) : Result K K := do
  let size ← squareSize "det" m
  return eliminate size Scalar.one m

/-- The rows of the identity matrix. -/
def identity (size : Nat) : List (List K) :=
  (List.range size).map fun i =>
    (List.range size).map fun j => if i = j then Scalar.one else Scalar.zero

/-- Clears `size` columns. The rows in `done` were chosen before and stay in their order; those in
`todo` are still to be chosen from. Nothing if a pivot is negligible. -/
def clearColumns : (size : Nat) → (done todo : List (List K)) → Option (List (List K))
  | 0, done, todo => some (done ++ todo)
  | size + 1, done, todo => do
    let (pivot, rest) ← takePivot todo (pivotIndex todo)
    if isNegligible (lead pivot) then none
    else
      let unit := pivot.tail.map (· / lead pivot)
      let clear := fun row => subtractMultiple (lead row) unit row
      clearColumns size (done.map clear ++ [unit]) (rest.map clear)

/-- The inverse of a square matrix. -/
def inverse (m : List (List K)) : Result K (List (List K)) := do
  let size ← squareSize "inverse" m
  match clearColumns size [] (List.zipWith (· ++ ·) m (identity size)) with
  | some result => return result
  | none => .error (.invalidArgument "inverse" "the matrix is singular")

end Formula.Matrix

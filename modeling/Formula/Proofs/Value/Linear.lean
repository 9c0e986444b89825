import Mathlib
import Formula.Proofs.Scalar.Exact
import Formula.Proofs.Value.Shape

/-!
# Rows as matrices

Lists of rows of one width are matrices over two finite sets of indices, and with exact arithmetic
the routines on rows are the operations on such matrices. `toMatrix` reads rows by their indices and
`ofMatrix` writes the rows of a matrix, which are the same again where the shape is right
(`ofMatrix_toMatrix`). So a statement about rows is one about matrices.
-/

namespace Formula

attribute [local instance] Scalar.commRing

/-! ## Sums -/

namespace Scalar

variable {K : Type} [Scalar K] [ExactRing K]

/-- A sum of exact numbers is the sum of the list. -/
theorem sum_eq (values : List K) : sum values = values.sum := by
  rw [sum, neg_zero_eq, List.sum_eq_foldl]
  rfl

end Scalar

namespace Matrix

variable {K : Type} {height width n : Nat}

/-! ## Lists by their indices -/

section

variable {α β γ : Type}

/-- A list of so many numbers by its indices. -/
theorem ofFn_getD {l : List α} (hl : l.length = n) (default : α) :
    List.ofFn (fun i : Fin n => l.getD i default) = l := by
  subst hl
  refine List.ext_getElem List.length_ofFn fun i hi _ => ?_
  rw [List.getElem_ofFn]
  exact List.getD_eq_getElem l default _

/-- An element of a list that is given by its indices. -/
theorem getD_ofFn (f : Fin n → α) (i : Fin n) (default : α) :
    (List.ofFn f).getD i default = f i := by
  have hi : (i : Nat) < (List.ofFn f).length := List.length_ofFn.symm ▸ i.isLt
  rw [List.getD_eq_getElem _ _ hi, List.getElem_ofFn]

/-- Lists that are given by their indices, combined one by one. -/
theorem zipWith_ofFn (op : α → β → γ) (f : Fin n → α) (g : Fin n → β) :
    List.zipWith op (List.ofFn f) (List.ofFn g) = List.ofFn fun i => op (f i) (g i) := by
  refine List.ext_getElem ?_ fun i _ _ => ?_
  · rw [List.length_zipWith, List.length_ofFn, List.length_ofFn, List.length_ofFn, Nat.min_self]
  · rw [List.getElem_zipWith, List.getElem_ofFn, List.getElem_ofFn, List.getElem_ofFn]

/-- A list of so many results by the indices. -/
theorem map_range (f : Nat → α) :
    (List.range n).map f = List.ofFn fun i : Fin n => f i := by
  refine List.ext_getElem ?_ fun i _ _ => ?_
  · rw [List.length_map, List.length_range, List.length_ofFn]
  · rw [List.getElem_map, List.getElem_range, List.getElem_ofFn]

end

/-! ## Rows -/

/-- The rows of a matrix. -/
def ofMatrix (M : Matrix (Fin height) (Fin width) K) : List (List K) :=
  List.ofFn fun i => List.ofFn fun j => M i j

/-- The rows of a matrix have its shape. -/
theorem hasShape_ofMatrix (M : Matrix (Fin height) (Fin width) K) :
    HasShape height width (ofMatrix M) := by
  refine ⟨List.length_ofFn, fun row hrow => ?_⟩
  obtain ⟨i, rfl⟩ := List.mem_ofFn.1 hrow
  exact List.length_ofFn

variable [Scalar K]

/-- The matrix with these rows; an entry that is missing is zero. -/
def toMatrix (height width : Nat) (rows : List (List K)) : Matrix (Fin height) (Fin width) K :=
  .of fun i j => (rows.getD i []).getD j Scalar.zero

/-- Rows of a shape are those of the matrix that they are read as. -/
theorem ofMatrix_toMatrix {rows : List (List K)} (h : HasShape height width rows) :
    ofMatrix (toMatrix height width rows) = rows := by
  have hrow (i : Fin height) :
      List.ofFn (fun j => toMatrix height width rows i j) = rows.getD i [] := by
    refine ofFn_getD (h.width _ ?_) _
    rw [List.getD_eq_getElem _ _ (h.height ▸ i.isLt)]
    exact List.getElem_mem _
  rw [ofMatrix, funext hrow, ofFn_getD h.height]

/-- A column of a matrix. -/
theorem column_ofMatrix (M : Matrix (Fin height) (Fin width) K) (j : Fin width) :
    column (ofMatrix M) j = List.ofFn fun i => M i j := by
  rw [column, ofMatrix, List.map_ofFn]
  exact congrArg List.ofFn (funext fun i => getD_ofFn (fun j => M i j) j Scalar.zero)

omit [Scalar K] in
/-- The columns of a square matrix are counted in its first row, if there is one. -/
theorem columnCount_ofMatrix (M : Matrix (Fin n) (Fin n) K) : columnCount (ofMatrix M) = n := by
  cases n with
  | zero => rfl
  | succ n => exact columnCount_eq (hasShape_ofMatrix M) (Nat.succ_pos n)

/-! ## Products -/

section

variable {u v p : List K} {a b : K}

variable [Scalar.ExactRing K]

/-- No products. -/
theorem sumOfProducts_nil : sumOfProducts [] v = (Scalar.zero : K) := Scalar.neg_zero_eq

/-- No products. -/
theorem sumOfProducts_nil_right : sumOfProducts u [] = (Scalar.zero : K) := by
  rw [sumOfProducts, List.zipWith_nil_right]
  exact Scalar.neg_zero_eq

/-- The first product and the others. -/
theorem sumOfProducts_cons :
    sumOfProducts (a :: u) (b :: v) = a * b + sumOfProducts u v := by
  rw [sumOfProducts, sumOfProducts, Scalar.sum_eq, Scalar.sum_eq]
  exact List.sum_cons

/-- Lists end to end. -/
theorem sumOfProducts_append {u' v' : List K} (h : u.length = v.length) :
    sumOfProducts (u ++ u') (v ++ v') = sumOfProducts u v + sumOfProducts u' v' := by
  rw [sumOfProducts, sumOfProducts, sumOfProducts, Scalar.sum_eq, Scalar.sum_eq, Scalar.sum_eq,
    List.zipWith_append h]
  exact List.sum_append

/-- A multiple of a row. -/
theorem sumOfProducts_map_mul (factor : K) :
    sumOfProducts (u.map (· * factor)) v = sumOfProducts u v * factor := by
  induction u generalizing v with
  | nil => rw [List.map_nil, sumOfProducts_nil, Scalar.zero_mul_eq]
  | cons a u ih =>
    cases v with
    | nil => rw [sumOfProducts_nil_right, sumOfProducts_nil_right, Scalar.zero_mul_eq]
    | cons b v =>
      rw [List.map_cons, sumOfProducts_cons, sumOfProducts_cons, ih]
      ring

/-- A row less a multiple of another one. -/
theorem sumOfProducts_minusMultiple (factor : K) (h : u.length = p.length) :
    sumOfProducts (List.zipWith (fun a b => a - factor * b) u p) v =
      sumOfProducts u v - factor * sumOfProducts p v := by
  induction u generalizing p v with
  | nil =>
    obtain rfl := List.length_eq_zero_iff.1 h.symm
    rw [List.zipWith_nil_left, sumOfProducts_nil, Scalar.mul_zero_eq, Scalar.sub_zero_eq]
  | cons a u ih =>
    cases p with
    | nil => cases h
    | cons b p =>
      cases v with
      | nil =>
        rw [sumOfProducts_nil_right, sumOfProducts_nil_right, sumOfProducts_nil_right,
          Scalar.mul_zero_eq, Scalar.sub_zero_eq]
      | cons c v =>
        rw [List.zipWith_cons_cons, sumOfProducts_cons, sumOfProducts_cons, sumOfProducts_cons,
          ih (Nat.succ.inj h)]
        ring

/-- A sum of products by the indices of its factors. -/
theorem sumOfProducts_ofFn (f g : Fin n → K) :
    sumOfProducts (List.ofFn f) (List.ofFn g) = f ⬝ᵥ g := by
  rw [sumOfProducts, zipWith_ofFn, Scalar.sum_eq, List.sum_ofFn]
  rfl

end

/-- **The product of rows** is that of the matrices, where the columns of both are counted. -/
theorem multiply_ofMatrix [Scalar.ExactRing K] {inner : Nat}
    {M : Matrix (Fin height) (Fin inner) K} {N : Matrix (Fin inner) (Fin width) K}
    (hM : columnCount (ofMatrix M) = inner) (hN : columnCount (ofMatrix N) = width) :
    multiply (ofMatrix M) (ofMatrix N) = .ok (ofMatrix (M * N)) := by
  have hentry (i : Fin height) (j : Fin width) :
      sumOfProducts (List.ofFn fun k => M i k) (column (ofMatrix N) j) = (M * N) i j := by
    rw [column_ofMatrix, sumOfProducts_ofFn, Matrix.mul_apply']
  have hrow (i : Fin height) : (List.range width).map
      (fun j => sumOfProducts (List.ofFn fun k => M i k) (column (ofMatrix N) j)) =
        List.ofFn fun j => (M * N) i j := by
    rw [map_range]
    exact congrArg List.ofFn (funext (hentry i))
  have hrows : (ofMatrix M).map (fun row =>
      (List.range width).map fun j => sumOfProducts row (column (ofMatrix N) j)) =
        ofMatrix (M * N) :=
    List.map_ofFn.trans (congrArg List.ofFn (funext hrow))
  rw [multiply, if_pos (hM.trans (hasShape_ofMatrix N).height.symm), hN, hrows]

/-- The identity matrix. -/
theorem identity_eq [Scalar.ExactRing K] :
    identity n = ofMatrix (1 : Matrix (Fin n) (Fin n) K) := by
  rw [identity, map_range]
  refine congrArg List.ofFn (funext fun i => ?_)
  rw [map_range]
  refine congrArg List.ofFn (funext fun j => ?_)
  simp only [Matrix.one_apply, Fin.ext_iff]
  rfl

end Matrix

end Formula

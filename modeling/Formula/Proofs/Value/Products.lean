import Mathlib
import Formula.Proofs.Scalar.Real
import Formula.Proofs.Value.Linear

/-!
# Products and transposes

The product of a matrix with a vector and that with the column of the vector are two routines: one
compares the vector with each row, the other one counts columns in the first row only. On
rectangular rows they fail alike, and the results are the same numbers (`multiply_asColumn`).

With exact numbers the routines are the operations on matrices over finite sets of indices
(`multiplyVector_ofMatrix`, `transpose_ofMatrix`), and the laws of these hold for rows: products may
be regrouped (`products_agree`), and a transpose exchanges their operands
(`transpose_reverses_products`). Rows without entries are the exception to the latter: transposed
they are no rows at all, so that nothing tells how many columns there were.
-/

namespace Formula

namespace Matrix

variable {K : Type} {height inner width : Nat} {a b m : List (List K)} {v : List K}

attribute [local instance] Scalar.commRing

/-! ## Columns -/

/-- The columns of a matrix with rows. -/
theorem columnCount_ofMatrix_of_pos (M : Matrix (Fin height) (Fin width) K) (hheight : 0 < height) :
    columnCount (ofMatrix M) = width :=
  columnCount_eq (hasShape_ofMatrix M) hheight

/-- No rows, or rows without entries, have no columns. -/
theorem columnCount_eq_zero (h : HasShape height 0 m) : columnCount m = 0 := by
  cases m with
  | nil => rfl
  | cons row rows => exact h.width row (.head _)

/-- There is a row where there are columns. -/
theorem length_pos_of_columnCount (h : 0 < columnCount m) : 0 < m.length := by
  cases m with
  | nil => exact h
  | cons row rows => exact Nat.succ_pos _

/-! ## Products with a vector -/

/-- A vector as a matrix of one column. -/
def asColumn (v : List K) : List (List K) := v.map fun a => [a]

section

variable [Scalar K]

/-- The column of a vector has the entries of the vector. -/
theorem column_asColumn (v : List K) : column (asColumn v) 0 = v := by
  rw [column, asColumn, List.map_map]
  exact List.map_id v

/-- A vector that fits each row. -/
theorem multiplyVector_eq_ok (h : HasShape height v.length m) :
    multiplyVector m v = .ok (m.map (sumOfProducts · v)) := by
  refine Result.mapM_eq_ok_map fun row hrow => ?_
  rw [dot, elementwise, if_pos (h.width row hrow)]
  rfl

/-- A vector that does not fit the first row. -/
theorem multiplyVector_eq_error (h : HasShape height width m) (hheight : 0 < height)
    (hv : v.length ≠ width) : multiplyVector m v = .error (.dimensionMismatch "*") := by
  cases m with
  | nil => exact absurd h.height (Nat.ne_of_lt hheight)
  | cons row rows =>
    have hrow : row.length ≠ v.length := fun heq => hv (heq.symm.trans (h.width row (.head _)))
    rw [multiplyVector, List.mapM_cons, dot, elementwise, if_neg hrow]
    rfl

/-- **The product with a column is the column of the product**, and one fails if the other does. -/
theorem multiply_asColumn (h : HasShape height width m) (hheight : 0 < height) (hv : v ≠ []) :
    multiply m (asColumn v) = asColumn <$> multiplyVector m v := by
  have hlength : (asColumn v).length = v.length := List.length_map _
  have hcolumns : columnCount (asColumn v) = 1 := by
    cases v with
    | nil => exact absurd rfl hv
    | cons => rfl
  rw [multiply, columnCount_eq h hheight, hlength, hcolumns]
  by_cases hwidth : v.length = width
  · subst hwidth
    have hrow (row : List K) :
        (List.range 1).map (fun j => sumOfProducts row (column (asColumn v) j)) =
          [sumOfProducts row v] := by
      rw [List.range_one, List.map_singleton, column_asColumn]
    have hrows : asColumn (m.map (sumOfProducts · v)) = m.map fun row => [sumOfProducts row v] :=
      List.map_map
    rw [multiplyVector_eq_ok h, if_pos rfl, funext hrow, ← hrows]
    rfl
  · rw [multiplyVector_eq_error h hheight hwidth, if_neg (Ne.symm hwidth)]
    rfl

/-- The product of a matrix and a vector by their indices. -/
theorem multiplyVector_ofMatrix [Scalar.ExactRing K] (M : Matrix (Fin height) (Fin width) K)
    (f : Fin width → K) :
    multiplyVector (ofMatrix M) (List.ofFn f) = .ok (List.ofFn (M.mulVec f)) := by
  have hM : HasShape height (List.ofFn f).length (ofMatrix M) :=
    List.length_ofFn.symm ▸ hasShape_ofMatrix M
  rw [multiplyVector_eq_ok hM, ofMatrix, List.map_ofFn]
  refine congrArg (Except.ok ∘ List.ofFn) (funext fun i => ?_)
  exact sumOfProducts_ofFn _ f

/-- The product of two matrices with rows by their indices. -/
theorem multiply_ofMatrix_of_pos [Scalar.ExactRing K] (M : Matrix (Fin height) (Fin inner) K)
    (N : Matrix (Fin inner) (Fin width) K) (hheight : 0 < height) (hinner : 0 < inner) :
    multiply (ofMatrix M) (ofMatrix N) = .ok (ofMatrix (M * N)) :=
  multiply_ofMatrix (columnCount_ofMatrix_of_pos M hheight) (columnCount_ofMatrix_of_pos N hinner)

/-- **Products may be regrouped**: the product of two matrices times a vector is the first matrix
times the product of the second one and the vector. -/
theorem multiplyVector_multiply [Scalar.ExactRing K] (ha : HasShape height inner a)
    (hb : HasShape inner width b) (hheight : 0 < height) (hinner : 0 < inner)
    (hv : v.length = width) : ∃ ab bv w, multiply a b = .ok ab ∧ multiplyVector b v = .ok bv ∧
      multiplyVector ab v = .ok w ∧ multiplyVector a bv = .ok w := by
  obtain ⟨f, rfl⟩ : ∃ f : Fin width → K, v = List.ofFn f := by
    subst hv
    exact ⟨v.get, (List.ofFn_get v).symm⟩
  rw [← ofMatrix_toMatrix ha, ← ofMatrix_toMatrix hb]
  generalize toMatrix height inner a = M
  generalize toMatrix inner width b = N
  refine ⟨_, _, _, multiply_ofMatrix_of_pos M N hheight hinner, multiplyVector_ofMatrix N f,
    multiplyVector_ofMatrix _ f, ?_⟩
  rw [multiplyVector_ofMatrix, Matrix.mulVec_mulVec]

/-! ## Transposes -/

/-- Rows and columns exchanged by their indices. -/
theorem transpose_ofMatrix (M : Matrix (Fin height) (Fin width) K) (hheight : 0 < height) :
    transpose (ofMatrix M) = ofMatrix M.transpose := by
  rw [transpose, columnCount_ofMatrix_of_pos M hheight, map_range]
  exact congrArg List.ofFn (funext (column_ofMatrix M))

/-- **Two transposes** give the rows back. -/
theorem transpose_transpose_eq (h : IsRectangular m) : transpose (transpose m) = m := by
  obtain ⟨height, width, hheight, hwidth, hshape⟩ := h
  rw [← ofMatrix_toMatrix hshape, transpose_ofMatrix _ hheight, transpose_ofMatrix _ hwidth,
    Matrix.transpose_transpose]

/-- What has no columns is transposed to nothing. -/
theorem transpose_eq_nil (h : columnCount m = 0) : transpose m = [] := by
  rw [transpose, h]
  rfl

/-- A transpose has a row for each column. -/
theorem length_transpose (m : List (List K)) : (transpose m).length = columnCount m := by
  rw [transpose, List.length_map, List.length_range]

/-- Nothing times nothing, as rows without entries times no rows. -/
theorem multiply_transpose_nil (ha : columnCount a = 0) :
    ∃ c, multiply a [] = .ok c ∧ multiply (transpose []) (transpose a) = .ok (transpose c) := by
  have hproduct : multiply a [] = .ok (a.map fun _ => []) := if_pos ha
  have hshape : HasShape a.length 0 (a.map fun _ => ([] : List K)) :=
    ⟨List.length_map _, by simp⟩
  refine ⟨_, hproduct, ?_⟩
  rw [transpose_eq_nil ha, transpose_eq_nil (columnCount_eq_zero hshape)]
  rfl

/-- **The transpose of a product** is that of the transposes, the other way round. -/
theorem multiply_transpose [Scalar.ExactRing K] (ha : HasShape height inner a)
    (hb : HasShape inner width b) (hheight : 0 < height) (hinner : 0 < inner) (hwidth : 0 < width) :
    ∃ c, multiply a b = .ok c ∧ multiply (transpose b) (transpose a) = .ok (transpose c) := by
  rw [← ofMatrix_toMatrix ha, ← ofMatrix_toMatrix hb]
  generalize toMatrix height inner a = M
  generalize toMatrix inner width b = N
  refine ⟨_, multiply_ofMatrix_of_pos M N hheight hinner, ?_⟩
  rw [transpose_ofMatrix M hheight, transpose_ofMatrix N hinner, transpose_ofMatrix _ hheight,
    multiply_ofMatrix_of_pos _ _ hwidth hinner, Matrix.transpose_mul]

/-- Rows without entries have no transpose that a matrix could be multiplied by. -/
theorem multiply_transpose_eq_error (hcount : columnCount a = b.length) (hb : b ≠ [])
    (hcolumns : columnCount b = 0) :
    multiply (transpose b) (transpose a) = .error (.dimensionMismatch "*") := by
  have hne : columnCount ([] : List (List K)) ≠ (transpose a).length := by
    rw [length_transpose, hcount]
    exact (List.length_pos_iff.2 hb).ne
  rw [transpose_eq_nil hcolumns]
  exact if_neg hne

end

/-! ## Laws of the routines on rows -/

/-- **The two products agree.** The product with a vector and the product with the column that the
vector is transposed to have the same entries if the vector is as long as the rows, and are refused
for the same reason otherwise. With exact numbers, products with a vector may be regrouped. -/
theorem products_agree [Scalar K] :
    (∀ {height width : Nat} {a : List (List K)} {v : List K},
      HasShape height width a → 0 < height → v ≠ [] →
        Value.applyBuiltin .transpose [.vector v] = .ok (.matrix (asColumn v)) ∧
        (v.length = width →
          ∃ w, multiplyVector a v = .ok w ∧ multiply a (asColumn v) = .ok (asColumn w)) ∧
        (v.length ≠ width → multiplyVector a v = .error (.dimensionMismatch "*") ∧
          multiply a (asColumn v) = .error (.dimensionMismatch "*"))) ∧
    ∀ [Scalar.ExactRing K] {height inner width : Nat} {a b : List (List K)} {v : List K},
      HasShape height inner a → HasShape inner width b → 0 < height → 0 < inner →
        v.length = width →
          ∃ ab bv w, multiply a b = .ok ab ∧ multiplyVector b v = .ok bv ∧
            multiplyVector ab v = .ok w ∧ multiplyVector a bv = .ok w := by
  constructor
  · intro height width a v ha hheight hv
    refine ⟨rfl, fun hwidth => ?_, fun hwidth => ?_⟩
    · have hproduct := multiplyVector_eq_ok (hwidth ▸ ha)
      refine ⟨_, hproduct, ?_⟩
      rw [multiply_asColumn ha hheight hv, hproduct]
      rfl
    · have hrefused := multiplyVector_eq_error ha hheight hwidth
      refine ⟨hrefused, ?_⟩
      rw [multiply_asColumn ha hheight hv, hrefused]
      rfl
  · intro _ height inner width a b v ha hb hheight hinner hv
    exact multiplyVector_multiply ha hb hheight hinner hv

/-- Two rows of two numbers times three columns. -/
theorem products_agree_rows :
    let a : List (List ℝ) := [[1, 2], [3, 4]]
    let b : List (List ℝ) := [[1, 0, 2], [0, 1, 3]]
    HasShape 2 2 a ∧ HasShape 2 3 b ∧
      (∃ w, multiplyVector a [5, 6] = .ok w ∧
        multiply a (asColumn [5, 6]) = .ok (asColumn w)) ∧
      (multiplyVector a [5] = .error (.dimensionMismatch "*") ∧
        multiply a (asColumn [5]) = .error (.dimensionMismatch "*")) ∧
      ∃ ab bv w, multiply a b = .ok ab ∧ multiplyVector b [5, 6, 7] = .ok bv ∧
        multiplyVector ab [5, 6, 7] = .ok w ∧ multiplyVector a bv = .ok w := by
  intro a b
  have ha : HasShape 2 2 a := ⟨rfl, by simp [a]⟩
  have hb : HasShape 2 3 b := ⟨rfl, by simp [b]⟩
  obtain ⟨hcolumn, hregroup⟩ := products_agree (K := ℝ)
  refine ⟨ha, hb, ?_, ?_, hregroup ha hb Nat.two_pos Nat.two_pos rfl⟩
  · exact (hcolumn ha Nat.two_pos (List.cons_ne_nil _ _)).2.1 rfl
  · exact (hcolumn ha Nat.two_pos (List.cons_ne_nil _ _)).2.2 (by decide)

/-- **Transposes.** Two of them give a matrix back. With exact numbers the transpose of a product is
the product of the transposes, the other way round, unless the right operand consists of rows
without entries. -/
theorem transpose_reverses_products [Scalar K] :
    (∀ {m : List (List K)}, IsRectangular m → transpose (transpose m) = m) ∧
    ∀ [Scalar.ExactRing K] {height inner inner' width : Nat} {a b : List (List K)},
      HasShape height inner a → HasShape inner' width b → columnCount a = b.length →
        ((∃ c, multiply a b = .ok c ∧
          multiply (transpose b) (transpose a) = .ok (transpose c)) ↔
            b = [] ∨ 0 < columnCount b) := by
  refine ⟨transpose_transpose_eq, ?_⟩
  intro _ height inner inner' width a b ha hb hcount
  constructor
  · rintro ⟨c, -, hproduct⟩
    by_contra hempty
    obtain ⟨hnil, hcolumns⟩ := not_or.1 hempty
    rw [multiply_transpose_eq_error hcount hnil (Nat.eq_zero_of_not_pos hcolumns)] at hproduct
    cases hproduct
  · rintro (rfl | hcolumns)
    · exact multiply_transpose_nil hcount
    · -- A first row of `b` has entries, so that there are rows in `b` and with them in `a`.
      have hrows : 0 < b.length := length_pos_of_columnCount hcolumns
      have hinner : 0 < inner' := hb.height ▸ hrows
      have hheight : 0 < height := ha.height ▸ length_pos_of_columnCount (hcount ▸ hrows)
      rw [columnCount_eq ha hheight, hb.height] at hcount
      rw [columnCount_eq hb hinner] at hcolumns
      subst hcount
      exact multiply_transpose ha hb hheight hinner hcolumns

/-- Three columns in two rows, and their product with one of the columns. -/
theorem transpose_reverses_products_rows :
    let a : List (List ℝ) := [[1, 2, 0], [3, 4, 1]]
    let b : List (List ℝ) := [[5], [6], [7]]
    IsRectangular a ∧ transpose (transpose a) = a ∧
      HasShape 2 3 a ∧ HasShape 3 1 b ∧ columnCount a = b.length ∧
        ∃ c, multiply a b = .ok c ∧ multiply (transpose b) (transpose a) = .ok (transpose c) := by
  intro a b
  have ha : HasShape 2 3 a := ⟨rfl, by simp [a]⟩
  have hb : HasShape 3 1 b := ⟨rfl, by simp [b]⟩
  have hrectangular : IsRectangular a := ⟨2, 3, Nat.two_pos, Nat.succ_pos 2, ha⟩
  obtain ⟨htwice, hproduct⟩ := transpose_reverses_products (K := ℝ)
  exact ⟨hrectangular, htwice hrectangular, ha, hb, rfl,
    (hproduct ha hb rfl).2 (.inr Nat.one_pos)⟩

/-- A row without entries: the product is there, and so is its transpose, but the product of the
transposes is refused. -/
theorem transpose_of_empty_row :
    let a : List (List ℝ) := [[1]]
    let b : List (List ℝ) := [[]]
    HasShape 1 1 a ∧ HasShape 1 0 b ∧ columnCount a = b.length ∧
      (transpose <$> multiply a b) = .ok [] ∧
      multiply (transpose b) (transpose a) = .error (.dimensionMismatch "*") ∧
      (transpose <$> multiply a b) ≠ multiply (transpose b) (transpose a) := by
  intro a b
  refine ⟨⟨rfl, by simp [a]⟩, ⟨rfl, by simp [b]⟩, rfl, rfl, rfl, ?_⟩
  nofun

end Matrix

end Formula

import Formula.Proofs.Scalar.Ordered
import Formula.Proofs.Value.Elimination
import Formula.Proofs.Value.Linear

/-!
# Pivots of exact numbers

In an ordered field zero is negligible, so that a pivot that is not has a reciprocal. `pivots` lists
the pivots of an elimination up to the first negligible one. They depend on no columns but those
that are cleared (`pivots_take`), and there are always rows to choose them from
(`exists_takePivot`).
-/

namespace Formula.Matrix

variable {K : Type} [Scalar K]

/-! ## Square matrices -/

section

variable {m : List (List K)} {n : Nat}

omit [Scalar K] in
/-- The size of a square matrix is found. -/
theorem squareSize_eq_ok (hm : HasShape n n m) (operation : String) :
    squareSize operation m = .ok n := by
  obtain rfl := hm.height
  rw [squareSize, if_pos]
  simpa using hm.width

omit [Scalar K] in
/-- What is not square has no size. -/
theorem squareSize_eq_error (hm : ¬HasShape m.length m.length m) (operation : String) :
    squareSize operation m = .error (.dimensionMismatch operation) := by
  rw [squareSize, if_neg]
  exact fun hall => hm ⟨rfl, by simpa using hall⟩

/-- The determinant of a square matrix is what its elimination leaves. -/
theorem determinant_of_hasShape (hm : HasShape n n m) :
    determinant m = .ok (eliminate n Scalar.one m) := by
  rw [determinant, squareSize_eq_ok hm]
  rfl

/-- The rows of a square matrix and of the identity end to end. -/
theorem length_zipWith_identity (hm : HasShape n n m) :
    (List.zipWith (· ++ ·) m (identity n)).length = n := by
  rw [List.length_zipWith, hm.height, identity_hasShape.height, Nat.min_self]

/-- A square matrix has an inverse if all its columns can be cleared, and is singular otherwise. -/
theorem inverse_of_hasShape (hm : HasShape n n m) : inverse m =
    (clearColumns n [] (List.zipWith (· ++ ·) m (identity n))).elim
      (.error (.invalidArgument "inverse" "the matrix is singular")) .ok := by
  unfold inverse
  rw [squareSize_eq_ok hm]
  cases hclear : clearColumns n [] (List.zipWith (· ++ ·) m (identity n)) <;>
    simp only [bind, Except.bind, hclear, pure, Except.pure, Option.elim_none, Option.elim_some]

end

/-! ## Pivots -/

/-- The pivots that are chosen in a matrix with at least so many columns, one for each of them. No
others are chosen after a negligible one. -/
def pivots : (size : Nat) → List (List K) → List K
  | 0, _ => []
  | size + 1, rows =>
    match takePivot rows (pivotIndex rows) with
    | none => []
    | some (pivot, rest) =>
      if isNegligible (lead pivot) then [lead pivot]
      else lead pivot ::
        pivots size (rest.map fun row => subtractMultiple (lead row / lead pivot) pivot.tail row)

/-- Where there are rows, a pivot is taken from them. -/
theorem exists_takePivot {rows : List (List K)} {size : Nat} (h : rows.length = size + 1) :
    ∃ pivot rest, takePivot rows (pivotIndex rows) = some (pivot, rest) ∧ rest.length = size := by
  have hne : rows ≠ [] := List.ne_nil_of_length_pos (h ▸ Nat.succ_pos size)
  obtain ⟨pivot, rest, -, hswap⟩ := InPlace.exists_swapRows (InPlace.pivotIndex_lt hne)
  rw [InPlace.swapRows_eq_takePivot, Option.map_eq_some_iff] at hswap
  obtain ⟨⟨pivot', rest'⟩, htake, heq⟩ := hswap
  cases heq
  refine ⟨pivot', rest', htake, ?_⟩
  have hlength := (takePivot_perm htake).length_eq
  rw [h, List.length_cons] at hlength
  exact Nat.succ.inj hlength

/-! ## Columns -/

/-- A row that begins with the entries of another one. -/
theorem lead_take {row : List K} {size : Nat} : lead (row.take (size + 1)) = lead row := by
  cases row <;> rfl

/-- A row cleared in its first columns. -/
theorem subtractMultiple_take {factor : K} {pivot row : List K} {size : Nat} :
    subtractMultiple factor (pivot.take (size + 1)).tail (row.take (size + 1)) =
      (subtractMultiple factor pivot.tail row).take size := by
  rw [subtractMultiple, subtractMultiple, List.take_zipWith]
  cases pivot <;> cases row <;> simp

/-- The best row is chosen by first entries. -/
theorem pivotIndex_take {rows : List (List K)} {size : Nat} :
    pivotIndex (rows.map (·.take (size + 1))) = pivotIndex rows := by
  have hfrom (i best : Nat) (a : K) : ∀ rows : List (List K),
      pivotFrom i best a (rows.map (·.take (size + 1))) = pivotFrom i best a rows := by
    intro rows
    induction rows generalizing i best a with
    | nil => rfl
    | cons row rows ih =>
      rw [List.map_cons, pivotFrom, pivotFrom, lead_take, ih, ih]
  cases rows with
  | nil => rfl
  | cons row rows => rw [List.map_cons, pivotIndex, pivotIndex, lead_take, hfrom]

omit [Scalar K] in
/-- What is taken from changed rows. -/
theorem takePivot_map_rows (f : List K → List K) (rows : List (List K)) (index : Nat) :
    takePivot (rows.map f) index =
      (takePivot rows index).map fun taken => (f taken.1, taken.2.map f) := by
  cases rows with
  | nil => rfl
  | cons first rest =>
    cases index with
    | zero => rfl
    | succ i =>
      rw [List.map_cons, takePivot, takePivot, List.getElem?_map, Option.map_map, Option.map_map]
      exact congrArg (Option.map · rest[i]?) (funext fun pivot => by simp [List.map_set])

/-- **The pivots are those of the columns that are cleared.** -/
theorem pivots_take (size : Nat) (rows : List (List K)) :
    pivots size (rows.map (·.take size)) = pivots size rows := by
  induction size generalizing rows with
  | zero => rfl
  | succ size ih =>
    rw [pivots, pivots, pivotIndex_take, takePivot_map_rows]
    cases takePivot rows (pivotIndex rows) with
    | none => rfl
    | some taken =>
      have hrest : (taken.2.map (·.take (size + 1))).map (fun row =>
          subtractMultiple (lead row / lead taken.1) (taken.1.take (size + 1)).tail row) =
            (taken.2.map fun row => subtractMultiple (lead row / lead taken.1) taken.1.tail row).map
              (·.take size) := by
        rw [List.map_map, List.map_map]
        refine List.map_congr_left fun row _ => ?_
        exact (congrArg (subtractMultiple · _ _) (by rw [lead_take])).trans subtractMultiple_take
      rw [Option.map_some]
      simp only [lead_take, hrest, ih]

/-! ## Exact numbers -/

section

variable [Scalar.OrderedField K]

/-- Zero is no pivot. -/
theorem isNegligible_zero : isNegligible (Scalar.zero : K) = true := by
  rw [isNegligible, Scalar.abs_zero_eq]
  exact Scalar.ofDecimal_pos 0 12

/-- What is no pivot can be divided by. -/
theorem ne_zero_of_not_negligible {a : K} (h : isNegligible a = false) : a ≠ Scalar.zero := by
  rintro rfl
  rw [isNegligible_zero] at h
  cases h

/-- The multiple of the pivot's row may be taken of the row divided by the pivot. -/
theorem subtractMultiple_div {a b : K} (hb : b ≠ Scalar.zero) (pivot row : List K) :
    subtractMultiple a (pivot.map (· / b)) row = subtractMultiple (a / b) pivot row := by
  rw [subtractMultiple, subtractMultiple, List.zipWith_map_right]
  simp only [Scalar.div_mul_eq_mul_div _ _ hb]

end

/-- Real numbers are compared with the threshold as they are. -/
theorem isNegligible_real (a : ℝ) : isNegligible a = decide (|a| < 1 / 10 ^ 12) := by
  have hthreshold : (pivotThreshold : ℝ) = 1 / 10 ^ 12 := by
    change ((1 : Nat) : ℝ) * 10 ^ (-12 : Int) = 1 / 10 ^ 12
    norm_num
  rw [isNegligible, hthreshold]
  rfl

end Formula.Matrix

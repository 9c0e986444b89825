import Formula.Proofs.Value.Pivots

/-!
# Singular matrices

The elimination of the determinant and that of the inverse choose the same pivots, though one of
them runs on longer rows and divides the row of a pivot by it (`clearColumns_eq_none_iff`,
`eliminate_eq_zero_iff`). So a matrix has no inverse exactly if its determinant is zero
(`singular_iff_determinant_eq_zero`).
-/

namespace Formula.Matrix

open Scalar (zero one)

variable {K : Type} [Scalar K] [Scalar.OrderedField K] {m rows done todo : List (List K)}
  {n size : Nat} {acc : K}

/-! ## Negligible pivots -/

/-- Columns are not cleared exactly if a pivot is negligible. -/
theorem clearColumns_eq_none_iff (hlength : todo.length = size) :
    clearColumns size done todo = none ↔ ∃ a ∈ pivots size todo, isNegligible a = true := by
  induction size generalizing done todo with
  | zero => simp [clearColumns, pivots]
  | succ size ih =>
    obtain ⟨pivot, rest, htake, hrest⟩ := exists_takePivot hlength
    rw [clearColumns, pivots, htake, Option.bind_eq_bind, Option.bind_some]
    dsimp only
    cases hnegligible : isNegligible (lead pivot) with
    | true => simp [hnegligible]
    | false =>
      have hp : lead pivot ≠ zero := ne_zero_of_not_negligible hnegligible
      have hclear (row : List K) :
          subtractMultiple (lead row) (pivot.tail.map (· / lead pivot)) row =
            subtractMultiple (lead row / lead pivot) pivot.tail row := subtractMultiple_div hp _ _
      simp only [hclear]
      rw [if_neg Bool.false_ne_true, if_neg Bool.false_ne_true, ih (by rw [List.length_map, hrest])]
      simp [hnegligible]

/-- The product of the pivots is zero exactly if one of them is negligible. -/
theorem eliminate_eq_zero_iff (hlength : rows.length = size) (hacc : acc ≠ zero) :
    eliminate size acc rows = zero ↔ ∃ a ∈ pivots size rows, isNegligible a = true := by
  induction size generalizing acc rows with
  | zero => simp [eliminate, pivots, hacc]
  | succ size ih =>
    obtain ⟨pivot, rest, htake, hrest⟩ := exists_takePivot hlength
    rw [eliminate, pivots, htake]
    dsimp only
    cases hnegligible : isNegligible (lead pivot) with
    | true => simp [hnegligible]
    | false =>
      have hsigned : (if pivotIndex rows = 0 then acc else -acc) ≠ zero := by
        split
        · exact hacc
        · exact Scalar.neg_ne_zero_of_ne hacc
      have hproduct := Scalar.mul_ne_zero_of_ne hsigned (ne_zero_of_not_negligible hnegligible)
      rw [if_neg Bool.false_ne_true, if_neg Bool.false_ne_true,
        ih (by rw [List.length_map, hrest]) hproduct]
      simp [hnegligible]

/-! ## Singular matrices -/

omit [Scalar.OrderedField K] in
/-- The rows of the identity at the end of the others do not change the pivots. -/
theorem pivots_zipWith_identity (hm : HasShape n n m) :
    pivots n (List.zipWith (· ++ ·) m (identity n)) = pivots n m := by
  have hlength : m.length = (identity n : List (List K)).length :=
    hm.height.trans identity_hasShape.height.symm
  have htake : (List.zipWith (· ++ ·) m (identity n)).map (List.take n) = m := by
    refine List.ext_getElem (by simp [hlength]) fun i _ hi => ?_
    have hwidth : m[i].length = n := hm.width _ (List.getElem_mem hi)
    rw [List.getElem_map, List.getElem_zipWith, List.take_left' hwidth]
  rw [← pivots_take, htake]

/-- **A matrix is singular exactly if its determinant is zero**, and both are asked of the same
matrices. -/
theorem singular_iff_determinant_eq_zero (m : List (List K)) :
    ((∃ operation details, inverse m = .error (.invalidArgument operation details)) ↔
      determinant m = .ok zero) ∧
    ((∃ operation, inverse m = .error (.dimensionMismatch operation)) ↔
      ¬HasShape m.length m.length m) ∧
    ((∃ operation, determinant m = .error (.dimensionMismatch operation)) ↔
      ¬HasShape m.length m.length m) := by
  by_cases hm : HasShape m.length m.length m
  · have hsingular : clearColumns m.length [] (List.zipWith (· ++ ·) m (identity m.length)) = none ↔
        eliminate m.length one m = zero := by
      rw [clearColumns_eq_none_iff (length_zipWith_identity hm), pivots_zipWith_identity hm,
        eliminate_eq_zero_iff rfl Scalar.OrderedField.one_ne_zero]
    rw [inverse_of_hasShape hm, determinant_of_hasShape hm, Except.ok.injEq, ← hsingular]
    cases clearColumns m.length [] (List.zipWith (· ++ ·) m (identity m.length)) <;> simp [hm]
  · have hinverse : inverse m = .error (.dimensionMismatch "inverse") := by
      rw [inverse, squareSize_eq_error hm]
      rfl
    have hdeterminant : determinant m = .error (.dimensionMismatch "det") := by
      rw [determinant, squareSize_eq_error hm]
      rfl
    simp [hinverse, hdeterminant, hm]

/-- Two rows of which one is twice the other. -/
theorem singular_iff_determinant_eq_zero_rows :
    let m : List (List ℝ) := [[1, 2], [2, 4]]
    inverse m = .error (.invalidArgument "inverse" "the matrix is singular") ∧
      determinant m = .ok zero := by
  intro m
  have hm : HasShape 2 2 m := ⟨rfl, by simp [m]⟩
  have hrows : List.zipWith (· ++ ·) m (identity 2) = [[1, 2, 1, 0], [2, 4, 0, 1]] := by
    simp [m, identity, List.range, List.range.loop]
  have hinverse : inverse m = .error (.invalidArgument "inverse" "the matrix is singular") := by
    rw [inverse_of_hasShape hm, hrows]
    norm_num [clearColumns, pivotIndex, pivotFrom, lead, takePivot, subtractMultiple,
      Scalar.rank_real, Scalar.abs_real, isNegligible_real]
  exact ⟨hinverse, (singular_iff_determinant_eq_zero m).1.1 ⟨_, _, hinverse⟩⟩

end Formula.Matrix

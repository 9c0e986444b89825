import Formula.Proofs.Value.Pivots

/-!
# Determinants

The determinant of rows is the signed sum over the permutations of their indices (`leibniz`). A
step of the elimination exchanges two rows, which changes the sign of that sum, and clears a column,
which leaves the pivot as a factor of it (`det_of_cleared`). So the elimination multiplies its start
by the determinant (`eliminate_ofMatrix`), unless it meets a negligible pivot.
-/

namespace Formula.Matrix

/-! ## Cleared columns -/

/-- **A cleared column leaves its pivot as a factor**: the other rows have lost their first entries
to multiples of the first row. -/
theorem det_of_cleared {R : Type} [CommRing R] {n : Nat} (M : Matrix (Fin (n + 1)) (Fin (n + 1)) R)
    (c : Fin n → R) (hc : ∀ i, c i * M 0 0 = M i.succ 0) :
    M.det = M 0 0 * (Matrix.of fun i j : Fin n => M i.succ j.succ - c i * M 0 j.succ).det := by
  let N : Matrix (Fin (n + 1)) (Fin (n + 1)) R :=
    .of (Fin.cons (M 0) fun i j => M i.succ j - c i * M 0 j)
  have hrows : M.det = N.det := by
    refine Matrix.det_eq_of_forall_row_eq_smul_add_const (Fin.cons 0 c) 0 rfl fun i j => ?_
    cases i using Fin.cases with
    | zero => simp [N]
    | succ i => simp [N]
  have hcolumn (i : Fin n) : N i.succ 0 = 0 := sub_eq_zero.2 (hc i).symm
  rw [hrows, Matrix.det_succ_column_zero, Fin.sum_univ_succ]
  simp only [hcolumn, mul_zero, zero_mul, Finset.sum_const_zero, add_zero]
  rw [Fin.val_zero, pow_zero, one_mul]
  rfl

variable {K : Type} {n width : Nat}

/-! ## Steps of an elimination -/

/-- A list that is given by its indices, with another element at one of them. -/
theorem set_ofFn {α : Type} (f : Fin n → α) (i : Fin n) (a : α) :
    (List.ofFn f).set i a = List.ofFn (Function.update f i a) := by
  refine List.ext_getElem ?_ fun k hk _ => ?_
  · rw [List.length_set, List.length_ofFn, List.length_ofFn]
  · rw [List.getElem_set, List.getElem_ofFn, List.getElem_ofFn, Function.update_apply]
    simp only [Fin.ext_iff, eq_comm]

/-- The rows of a matrix with two of them exchanged, the first one apart from the others. -/
theorem takePivot_ofMatrix (M : Matrix (Fin (n + 1)) (Fin width) K) (index : Fin (n + 1)) :
    takePivot (ofMatrix M) index = some (List.ofFn fun j => M (Equiv.swap 0 index 0) j,
      ofMatrix (M.submatrix (fun i : Fin n => Equiv.swap 0 index i.succ) id)) := by
  rw [ofMatrix, List.ofFn_succ]
  cases index using Fin.cases with
  | zero => simp [takePivot, ofMatrix]
  | succ index =>
    -- The first row goes where the pivot was.
    have hothers : Function.update (fun i : Fin n => List.ofFn fun j => M i.succ j) index
        (List.ofFn fun j => M 0 j) =
          fun i => List.ofFn fun j => M (Equiv.swap 0 index.succ i.succ) j := by
      funext i
      rw [Function.update_apply]
      split
      · next h => rw [h, Equiv.swap_apply_right]
      · next h =>
        rw [Equiv.swap_apply_of_ne_of_ne (Fin.succ_ne_zero i) (mt (Fin.succ_inj.1) h)]
    rw [Fin.val_succ, takePivot, set_ofFn, hothers, Equiv.swap_apply_left]
    simp [ofMatrix]

variable [Scalar K]

/-- What is left of the other rows when the first column is cleared. -/
def cleared (M : Matrix (Fin (n + 1)) (Fin (n + 1)) K) : Matrix (Fin n) (Fin n) K :=
  .of fun i j => M i.succ j.succ - M i.succ 0 / M 0 0 * M 0 j.succ

/-- Rows are cleared with the first one of a matrix. -/
theorem map_subtractMultiple_ofMatrix (M : Matrix (Fin (n + 1)) (Fin (n + 1)) K) :
    (ofMatrix (M.submatrix Fin.succ id)).map (fun row =>
      subtractMultiple (lead row / M 0 0) (List.ofFn fun j => M 0 j).tail row) =
        ofMatrix (cleared M) := by
  rw [ofMatrix, List.map_ofFn, ofMatrix]
  refine congrArg List.ofFn (funext fun i => ?_)
  simp only [Function.comp_apply, List.ofFn_succ, subtractMultiple, List.tail_cons, zipWith_ofFn]
  rfl

/-- **A step on the rows of a matrix** exchanges two of them, so that the pivot comes first, and
clears the first column of the others. -/
theorem exists_eliminate_succ (M : Matrix (Fin (n + 1)) (Fin (n + 1)) K) :
    ∃ index : Fin (n + 1), ∃ N, N = M.submatrix (Equiv.swap 0 index) id ∧
      pivots (n + 1) (ofMatrix M) = (if isNegligible (N 0 0) then [N 0 0]
        else N 0 0 :: pivots n (ofMatrix (cleared N))) ∧
      ∀ acc, eliminate (n + 1) acc (ofMatrix M) = if isNegligible (N 0 0) then Scalar.zero
        else eliminate n ((if (index : Nat) = 0 then acc else -acc) * N 0 0)
          (ofMatrix (cleared N)) := by
  have hlength : (ofMatrix M).length = n + 1 := (hasShape_ofMatrix M).height
  have hlt : pivotIndex (ofMatrix M) < n + 1 :=
    (InPlace.pivotIndex_lt (List.ne_nil_of_length_eq_add_one hlength)).trans_eq hlength
  obtain ⟨index, hindex⟩ : ∃ index : Fin (n + 1), pivotIndex (ofMatrix M) = index :=
    ⟨⟨_, hlt⟩, rfl⟩
  obtain ⟨N, hN⟩ : ∃ N, N = M.submatrix (Equiv.swap 0 index) id := ⟨_, rfl⟩
  have htake : takePivot (ofMatrix M) index =
      some (List.ofFn fun j => N 0 j, ofMatrix (N.submatrix Fin.succ id)) := by
    rw [takePivot_ofMatrix, hN]
    rfl
  have hlead : lead (List.ofFn fun j => N 0 j) = N 0 0 := by
    rw [List.ofFn_succ]
    rfl
  refine ⟨index, N, hN, ?_, fun acc => ?_⟩
  · rw [pivots, hindex, htake]
    simp only [hlead, map_subtractMultiple_ofMatrix]
  · rw [eliminate, hindex, htake]
    simp only [hlead, map_subtractMultiple_ofMatrix]

/-! ## The determinant -/

variable [Scalar.OrderedField K]

attribute [local instance] Scalar.commRing

/-- The signed sum over all permutations of the products of entries that they pick, one from each
column and each row. -/
def leibniz (n : Nat) (m : List (List K)) : K :=
  ∑ σ : Equiv.Perm (Fin n), Equiv.Perm.sign σ • ∏ i, toMatrix n n m (σ i) i

/-- The sign of an exchange is counted by the elimination. -/
theorem det_exchanged (M : Matrix (Fin (n + 1)) (Fin (n + 1)) K) (index : Fin (n + 1)) (acc : K) :
    (if (index : Nat) = 0 then acc else -acc) * (M.submatrix (Equiv.swap 0 index) id).det =
      acc * M.det := by
  rw [Matrix.det_permute, Equiv.Perm.sign_swap']
  by_cases h : index = 0
  · simp [h]
  · simp [h, Ne.symm h]

/-- **Elimination multiplies by the determinant**, if all pivots can be divided by. -/
theorem eliminate_ofMatrix (M : Matrix (Fin n) (Fin n) K) (acc : K)
    (hpivots : ∀ a ∈ pivots n (ofMatrix M), isNegligible a = false) :
    eliminate n acc (ofMatrix M) = acc * M.det := by
  induction n generalizing acc with
  | zero =>
    rw [Matrix.det_isEmpty]
    exact (Scalar.mul_one_eq acc).symm
  | succ n ih =>
    obtain ⟨index, N, hN, hlist, hstep⟩ := exists_eliminate_succ M
    -- A negligible pivot would be in the list too, as the last one.
    have hnegligible : isNegligible (N 0 0) = false := by
      refine hpivots _ ?_
      rw [hlist]
      split <;> exact List.mem_cons_self ..
    have hp : N 0 0 ≠ Scalar.zero := ne_zero_of_not_negligible hnegligible
    have hdet : N.det = N 0 0 * (cleared N).det :=
      det_of_cleared N _ fun i => Scalar.OrderedField.div_mul_cancel _ hp
    rw [hlist, hnegligible, if_neg Bool.false_ne_true] at hpivots
    rw [hstep, hnegligible, if_neg Bool.false_ne_true, ih _ _ (List.forall_mem_cons.1 hpivots).2,
      mul_assoc, ← hdet, hN, det_exchanged]

/-- **The determinant is the signed sum over permutations**, if no pivot is negligible. -/
theorem determinant_eq_leibniz {m : List (List K)} (hm : HasShape n n m)
    (hpivots : ∀ a ∈ pivots n m, isNegligible a = false) : determinant m = .ok (leibniz n m) := by
  have hdet : (toMatrix n n m).det = leibniz n m := Matrix.det_apply _
  rw [← ofMatrix_toMatrix hm] at hpivots
  have heliminate := eliminate_ofMatrix _ Scalar.one hpivots
  rw [ofMatrix_toMatrix hm, Scalar.one_mul_eq, hdet] at heliminate
  rw [determinant_of_hasShape hm, heliminate]

/-- Two exchanges, one of them in a smaller matrix. -/
theorem determinant_eq_leibniz_exchanged :
    let m : List (List ℝ) := [[0, 2, 1], [2, 1, 1], [4, 1, 0]]
    HasShape 3 3 m ∧ (∀ a ∈ pivots 3 m, isNegligible a = false) ∧
      determinant m = .ok 6 ∧ determinant m = .ok (leibniz 3 m) := by
  intro m
  have hm : HasShape 3 3 m := ⟨rfl, by simp [m]⟩
  have hpivots : ∀ a ∈ pivots 3 m, isNegligible a = false := by
    norm_num [m, pivots, pivotIndex, pivotFrom, lead, takePivot, subtractMultiple,
      Scalar.rank_real, Scalar.abs_real, isNegligible_real]
  refine ⟨hm, hpivots, ?_, determinant_eq_leibniz hm hpivots⟩
  rw [determinant_of_hasShape hm]
  refine congrArg Except.ok ?_
  norm_num [m, eliminate, pivotIndex, pivotFrom, lead, takePivot, subtractMultiple,
    Scalar.rank_real, Scalar.abs_real, isNegligible_real]

end Formula.Matrix

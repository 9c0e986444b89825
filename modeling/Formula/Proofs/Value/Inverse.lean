import Formula.Proofs.Value.Pivots

/-!
# Inverses

The rows of an elimination are equations. For a vector `v` and its image `w` under the matrix, a row
that is still to be chosen from says that its entries times those of `-v` and `w` add up to nothing,
and the row of a cleared column says so of the entry of `-v` in that column and the others
(`Balances`). A step keeps the equations, whichever row it chooses (`Balances.normalized`,
`Balances.cleared`), and in the end a row is left for each entry of `v` (`clearColumns_balances`).
So the inverse leads from `w` back to `v`: it is a left inverse, and of a square matrix also a right
one (`inverse_mul_cancel`).
-/

namespace Formula.Matrix

open Scalar (zero one)

variable {K : Type} [Scalar K] [Scalar.OrderedField K] {n : Nat} {m r : List (List K)}

attribute [local instance] Scalar.commRing

/-! ## Rows as equations -/

/-- A row has an entry for each number of a list, and its products with them and another number add
up to nothing. -/
structure Balances (us row : List K) (a : K) : Prop where
  length : row.length = us.length
  sum : a + sumOfProducts row us = zero

variable {a b p : K} {us row pivot : List K}

/-- The row of the pivot, divided by it. -/
theorem Balances.normalized (hp : p ≠ zero) (h : Balances (b :: us) (p :: pivot) zero) :
    Balances us (pivot.map (· / p)) b := by
  have hquotients : pivot.map (· / p) = pivot.map (· * (one / p)) :=
    List.map_congr_left fun c _ => Scalar.div_eq_mul_one_div c hp
  have hsum := h.sum
  rw [Scalar.zero_add_eq, sumOfProducts_cons] at hsum
  refine ⟨(List.length_map _).trans (Nat.succ.inj h.length), ?_⟩
  rw [hquotients, sumOfProducts_map_mul]
  calc b + sumOfProducts pivot us * (one / p)
      = b * (one / p * p) + sumOfProducts pivot us * (one / p) := by
        rw [Scalar.one_div_mul_cancel hp, Scalar.mul_one_eq]
    _ = (p * b + sumOfProducts pivot us) * (one / p) := by ring
    _ = zero := by rw [hsum, Scalar.zero_mul_eq]

/-- Another row, less a multiple of that one. -/
theorem Balances.cleared (hpivot : Balances us pivot b) (h : Balances (b :: us) row a) :
    Balances us (subtractMultiple (lead row) pivot row) a := by
  cases row with
  | nil => cases h.length
  | cons c row =>
    have hrow : row.length = us.length := Nat.succ.inj h.length
    have hlength : (c :: row).length = pivot.length + 1 := by
      rw [List.length_cons, hrow, hpivot.length]
    refine ⟨(subtractMultiple_length hlength).trans hpivot.length, ?_⟩
    have hsum : sumOfProducts pivot us = -b := eq_neg_of_add_eq_zero_right hpivot.sum
    rw [subtractMultiple, List.tail_cons, lead, List.headD_cons,
      sumOfProducts_minusMultiple c (Nat.succ.inj hlength), hsum, ← h.sum, sumOfProducts_cons]
    ring

/-- **Clearing columns keeps the equations**, of which one is left for each number. -/
theorem clearColumns_balances {as bs ws : List K} {done todo result : List (List K)}
    (hdone : List.Forall₂ (Balances (bs ++ ws)) done as)
    (htodo : ∀ row ∈ todo, Balances (bs ++ ws) row zero) (hlength : todo.length = bs.length)
    (hclear : clearColumns bs.length done todo = some result) :
    List.Forall₂ (Balances ws) result (as ++ bs) := by
  induction bs generalizing as done todo with
  | nil =>
    cases hclear
    obtain rfl := List.length_eq_zero_iff.1 hlength
    rwa [List.append_nil, List.append_nil]
  | cons b bs ih =>
    obtain ⟨⟨pivot, rest⟩, htake, hclear⟩ := Option.bind_eq_some_iff.1 hclear
    have hperm := takePivot_perm htake
    obtain ⟨hpivot, hrest⟩ := List.forall_mem_cons.1 fun row hrow =>
      htodo row (hperm.mem_iff.1 hrow)
    obtain ⟨p, entries, rfl⟩ := List.exists_cons_of_length_eq_add_one hpivot.length
    dsimp only at hclear
    split at hclear
    · cases hclear
    · next hnegligible =>
      have hp : p ≠ zero := ne_zero_of_not_negligible (Bool.eq_false_iff.2 hnegligible)
      have hunit : Balances (bs ++ ws) (entries.map (· / p)) b := hpivot.normalized hp
      -- The first number leaves the columns, and the row of its pivot gives it from now on.
      rw [List.append_cons]
      refine ih ?_ ?_ ?_ hclear
      · refine List.rel_append ?_ (.cons hunit .nil)
        exact List.forall₂_map_left_iff.2 (hdone.imp fun _ _ hrow => hunit.cleared hrow)
      · exact List.forall_mem_map.2 fun row hrow => hunit.cleared (hrest row hrow)
      · rw [List.length_map]
        exact Nat.succ.inj (hperm.length_eq.trans hlength)

/-! ## Inverses -/

variable {M : Matrix (Fin n) (Fin n) K}

omit [Scalar.OrderedField K] in
/-- An inverse is what is left of the rows when all columns are cleared. -/
theorem clearColumns_of_inverse (hm : HasShape n n m) (h : inverse m = .ok r) :
    clearColumns n [] (List.zipWith (· ++ ·) m (identity n)) = some r := by
  rw [inverse_of_hasShape hm] at h
  cases hclear : clearColumns n [] (List.zipWith (· ++ ·) m (identity n)) with
  | none =>
    rw [hclear] at h
    cases h
  | some result =>
    rw [hclear] at h
    exact congrArg some (Except.ok.inj h)

/-- The rows of a matrix and of the identity end to end are equations for a vector and its image. -/
theorem balances_identity (v : Fin n → K) :
    ∀ row ∈ List.zipWith (· ++ ·) (ofMatrix M) (identity n),
      Balances (List.ofFn (-v) ++ List.ofFn (M.mulVec v)) row zero := by
  intro row hrow
  rw [identity_eq, ofMatrix, ofMatrix, zipWith_ofFn] at hrow
  obtain ⟨i, rfl⟩ := List.mem_ofFn.1 hrow
  refine ⟨by simp only [List.length_append, List.length_ofFn], ?_⟩
  have himage : (fun j => M i j) ⬝ᵥ v = M.mulVec v i := rfl
  have hentry : (fun j => (1 : Matrix (Fin n) (Fin n) K) i j) ⬝ᵥ M.mulVec v = M.mulVec v i :=
    congrFun (Matrix.one_mulVec (M.mulVec v)) i
  rw [sumOfProducts_append (by simp only [List.length_ofFn]), sumOfProducts_ofFn,
    sumOfProducts_ofFn, dotProduct_neg, himage, hentry, neg_add_cancel]
  exact Scalar.zero_add_eq zero

/-- The inverse leads from the image of a vector back to the vector. -/
theorem inverse_mulVec {R : Matrix (Fin n) (Fin n) K} (h : inverse (ofMatrix M) = .ok (ofMatrix R))
    (v : Fin n → K) : R.mulVec (M.mulVec v) = v := by
  have hclear : clearColumns (List.ofFn (-v)).length []
      (List.zipWith (· ++ ·) (ofMatrix M) (identity n)) = some (ofMatrix R) := by
    rw [List.length_ofFn]
    exact clearColumns_of_inverse (hasShape_ofMatrix M) h
  have hlength : (List.zipWith (· ++ ·) (ofMatrix M) (identity n)).length =
      (List.ofFn (-v)).length := by
    rw [length_zipWith_identity (hasShape_ofMatrix M), List.length_ofFn]
  have hrows : List.Forall₂ (Balances (List.ofFn (M.mulVec v))) (ofMatrix R)
      (List.ofFn (-v)) := clearColumns_balances .nil (balances_identity v) hlength hclear
  funext i
  have hrow : Balances (List.ofFn (M.mulVec v)) (List.ofFn fun j => R i j) (-v i) := by
    have hi : (i : Nat) < (ofMatrix R).length := (hasShape_ofMatrix R).height.symm ▸ i.isLt
    have hget := hrows.get hi (hrows.length_eq ▸ hi)
    simpa [ofMatrix] using hget
  have hsum := hrow.sum
  rw [sumOfProducts_ofFn] at hsum
  exact (neg_add_eq_zero.1 hsum).symm

/-- **An inverse is an inverse on both sides.** -/
theorem inverse_mul_cancel (hm : HasShape n n m) (h : inverse m = .ok r) :
    HasShape n n r ∧ multiply m r = .ok (identity n) ∧ multiply r m = .ok (identity n) := by
  obtain rfl := hm.height
  have hr : HasShape m.length m.length r := (inverse_hasShape h).2
  generalize m.length = n at hm hr ⊢
  rw [← ofMatrix_toMatrix hm, ← ofMatrix_toMatrix hr] at h ⊢
  have hleft : toMatrix n n r * toMatrix n n m = 1 := by
    refine Matrix.ext_of_mulVec_single fun i => ?_
    rw [← Matrix.mulVec_mulVec, inverse_mulVec h, Matrix.one_mulVec]
  have hright : toMatrix n n m * toMatrix n n r = 1 := mul_eq_one_comm.1 hleft
  have hcount (N : Matrix (Fin n) (Fin n) K) : columnCount (ofMatrix N) = n :=
    columnCount_ofMatrix N
  refine ⟨hasShape_ofMatrix _, ?_, ?_⟩
  · rw [multiply_ofMatrix (hcount _) (hcount _), hright, identity_eq]
  · rw [multiply_ofMatrix (hcount _) (hcount _), hleft, identity_eq]

/-- A matrix whose rows have to be exchanged. -/
theorem inverse_mul_cancel_exchanged :
    let m : List (List ℝ) := [[0, 2], [4, 1]]
    let r : List (List ℝ) := [[-1 / 8, 1 / 4], [1 / 2, 0]]
    HasShape 2 2 m ∧ inverse m = .ok r ∧
      HasShape 2 2 r ∧ multiply m r = .ok (identity 2) ∧ multiply r m = .ok (identity 2) := by
  intro m r
  have hm : HasShape 2 2 m := ⟨rfl, by simp [m]⟩
  have hrows : List.zipWith (· ++ ·) m (identity 2) = [[0, 2, 1, 0], [4, 1, 0, 1]] := by
    simp [m, identity, List.range, List.range.loop]
  have hr : inverse m = .ok r := by
    rw [inverse_of_hasShape hm, hrows]
    norm_num [clearColumns, pivotIndex, pivotFrom, lead, takePivot, subtractMultiple, r,
      Scalar.rank_real, Scalar.abs_real, isNegligible_real]
  exact ⟨hm, hr, inverse_mul_cancel hm hr⟩

end Formula.Matrix

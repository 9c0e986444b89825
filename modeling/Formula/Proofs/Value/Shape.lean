import Formula.Proofs.Eval.Keeps
import Formula.Proofs.WellFormed
import Mathlib.Data.List.Perm.Basic

/-!
# Shapes of vectors and matrices

A value is shaped if it is a vector with elements, a matrix with rows of one length and at least one
column, a well-formed tree, or anything else. For each operation on matrices there is a lemma that
tells the shape of its result from the shapes of its operands; together they say that operators and
built-in functions make shaped values of shaped ones (`closed_shaped`).
-/

namespace Formula

/-! ## Matrices -/

namespace Matrix

variable {K : Type} {height width size : Nat} {a b c m result rows : List (List K)}
  {u v w row pivot : List K} {rest : List (List K)} {index : Nat}

/-- The columns of a matrix are counted in its first row. -/
theorem columnCount_eq (h : HasShape height width m) (hheight : 0 < height) :
    columnCount m = width := by
  cases m with
  | nil => exact absurd h.height (Nat.ne_of_lt hheight)
  | cons row rows => exact h.width row (.head _)

/-- The row that is taken and the others are the rows. -/
theorem takePivot_perm (h : takePivot rows index = some (pivot, rest)) :
    (pivot :: rest).Perm rows := by
  unfold takePivot at h
  split at h
  · cases h
  · cases h
    exact .refl _
  · next first others i =>
    obtain ⟨chosen, hchosen, heq⟩ := Option.map_eq_some_iff.1 h
    cases heq
    obtain ⟨hi, rfl⟩ := List.getElem?_eq_some_iff.1 hchosen
    calc
      (others[i] :: others.set i first).Perm (others[i] :: first :: others.eraseIdx i) :=
        .cons _ (List.set_perm_cons_eraseIdx hi first)
      _ |>.Perm (first :: others[i] :: others.eraseIdx i) := .swap _ _ _
      _ |>.Perm (first :: others) := .cons _ (List.getElem_cons_eraseIdx_perm hi)

/-- A change of the entries keeps the lengths of the rows. -/
theorem map_lengths (g : K → K) : (m.map (·.map g)).map List.length = m.map List.length := by
  simp [Function.comp_def]

variable {f : K → K → K} {operation : String}

/-- Vectors that are combined have one length. -/
theorem elementwise_ok (h : elementwise operation f u v = .ok w) :
    u.length = v.length ∧ w = List.zipWith f u v := by
  unfold elementwise at h
  split at h
  · next hlength =>
    cases h
    exact ⟨hlength, rfl⟩
  · cases h

/-- Combined vectors have the length of both. -/
theorem elementwise_length (h : elementwise operation f u v = .ok w) : w.length = u.length := by
  obtain ⟨hlength, rfl⟩ := elementwise_ok h
  rw [List.length_zipWith, ← hlength, Nat.min_self]

/-- Combined rows have the lengths of both. -/
theorem elementwiseRows_lengths (hlength : a.length = b.length)
    (h : elementwiseRows operation f a b = .ok c) : c.map List.length = a.map List.length := by
  induction a generalizing b c with
  | nil =>
    cases h
    rfl
  | cons row rows ih =>
    cases b with
    | nil => cases hlength
    | cons row' rows' =>
      obtain ⟨first, hfirst, h⟩ := Result.bind_ok h
      obtain ⟨others, hothers, h⟩ := Result.bind_ok h
      cases h
      rw [List.map_cons, List.map_cons, elementwise_length hfirst,
        ih (Nat.succ.inj hlength) hothers]

/-- Combined matrices have the shape of both. -/
theorem elementwiseMatrix_lengths (h : elementwiseMatrix operation f a b = .ok c) :
    c.map List.length = a.map List.length := by
  unfold elementwiseMatrix at h
  split at h
  · next hlength => exact elementwiseRows_lengths hlength h
  · cases h

/-- The size of a square matrix. -/
theorem squareSize_ok (h : squareSize operation m = .ok size) : HasShape size size m := by
  unfold squareSize at h
  split at h
  · next hall =>
    cases h
    exact ⟨rfl, by simpa using hall⟩
  · cases h

variable [Scalar K]

/-- Rows and columns exchanged. -/
theorem transpose_hasShape (h : HasShape height width m) (hheight : 0 < height) :
    HasShape width height (transpose m) := by
  constructor
  · rw [transpose, List.length_map, List.length_range, columnCount_eq h hheight]
  · intro row hrow
    obtain ⟨j, -, rfl⟩ := List.mem_map.1 hrow
    rw [column, List.length_map, h.height]

/-- A product has the rows of the left matrix and the columns of the right one. -/
theorem multiply_hasShape {left right : Nat} (ha : HasShape height left a)
    (hb : HasShape right width b) (hright : 0 < right) (h : multiply a b = .ok c) :
    HasShape height width c := by
  unfold multiply at h
  split at h
  · cases h
    constructor
    · rw [List.length_map, ha.height]
    · intro row hrow
      obtain ⟨of, -, rfl⟩ := List.mem_map.1 hrow
      rw [List.length_map, List.length_range, columnCount_eq hb hright]
  · cases h

/-- A product with a vector has an entry for each row. -/
theorem multiplyVector_length (h : multiplyVector m v = .ok w) : w.length = m.length :=
  Result.mapM_length h

/-- A vector product has entries. -/
theorem cross_ne_nil (h : cross u v = .ok w) : w ≠ [] := by
  unfold cross at h
  split at h <;> cases h
  exact List.cons_ne_nil _ _

/-! ### Elimination -/

/-- A row that is cleared by another loses its first entry. -/
theorem subtractMultiple_length {factor : K} (h : row.length = pivot.length + 1) :
    (subtractMultiple factor pivot row).length = pivot.length := by
  rw [subtractMultiple, List.length_zipWith, List.length_tail, h, Nat.add_sub_cancel, Nat.min_self]

/-- Clearing columns takes them away. -/
theorem clearColumns_hasShape {done todo : List (List K)}
    (h : HasShape height (width + size) (done ++ todo))
    (hclear : clearColumns size done todo = some result) : HasShape height width result := by
  induction size generalizing done todo with
  | zero =>
    cases hclear
    exact h
  | succ size ih =>
    obtain ⟨⟨pivot, rest⟩, htake, hclear⟩ := Option.bind_eq_some_iff.1 hclear
    have hperm : (done ++ pivot :: rest).Perm (done ++ todo) := (takePivot_perm htake).append_left _
    have hwidth : ∀ row ∈ done ++ pivot :: rest, row.length = width + size + 1 :=
      fun row hrow => h.width row (hperm.mem_iff.1 hrow)
    dsimp only at hclear
    split at hclear
    · cases hclear
    · have hunit : (pivot.tail.map (· / lead pivot)).length = width + size := by
        rw [List.length_map, List.length_tail, hwidth pivot (by simp), Nat.add_sub_cancel]
      have hcleared : ∀ row ∈ done ++ pivot :: rest,
          (subtractMultiple (lead row) (pivot.tail.map (· / lead pivot)) row).length =
            width + size := by
        intro row hrow
        rw [subtractMultiple_length, hunit]
        rw [hunit, hwidth row hrow]
      refine ih ⟨?_, fun row hrow => ?_⟩ hclear
      · rw [← h.height, ← hperm.length_eq]
        simp
      · rcases List.mem_append.1 hrow with hrow | hrow
        · rcases List.mem_append.1 hrow with hrow | hrow
          · obtain ⟨before, hbefore, rfl⟩ := List.mem_map.1 hrow
            exact hcleared before (List.mem_append_left _ hbefore)
          · rw [List.mem_singleton.1 hrow, hunit]
        · obtain ⟨before, hbefore, rfl⟩ := List.mem_map.1 hrow
          exact hcleared before (List.mem_append_right _ (.tail _ hbefore))

/-- The identity matrix. -/
theorem identity_hasShape : HasShape size size (identity size : List (List K)) := by
  constructor
  · rw [identity, List.length_map, List.length_range]
  · intro row hrow
    obtain ⟨i, -, rfl⟩ := List.mem_map.1 hrow
    rw [List.length_map, List.length_range]

/-- A matrix with an inverse is square, and so is the inverse. -/
theorem inverse_hasShape (h : inverse m = .ok result) :
    HasShape m.length m.length m ∧ HasShape m.length m.length result := by
  obtain ⟨size, hsize, h⟩ := Result.bind_ok h
  have hm := squareSize_ok hsize
  obtain rfl := hm.height
  refine ⟨hm, ?_⟩
  split at h
  · next rows hrows =>
    cases h
    have hextended : HasShape m.length (m.length + m.length)
        ([] ++ List.zipWith (· ++ ·) m (identity m.length)) := by
      constructor
      · rw [List.nil_append, List.length_zipWith, identity_hasShape.height, Nat.min_self]
      · intro row hrow
        rw [List.nil_append, ← List.map_uncurry_zip_eq_zipWith] at hrow
        obtain ⟨⟨left, right⟩, hpair, rfl⟩ := List.mem_map.1 hrow
        obtain ⟨hleft, hright⟩ := List.of_mem_zip hpair
        rw [Function.uncurry_apply_pair, List.length_append, hm.width left hleft,
          identity_hasShape.width right hright]
    exact clearColumns_hasShape hextended hrows
  · cases h

end Matrix

/-! ## Values -/

namespace Value

variable {K : Type}

/-- A vector has elements, a matrix is rectangular, and a tree is well formed. -/
def Shaped : Value K → Prop
  | vector elements => elements ≠ []
  | matrix rows => IsRectangular rows
  | function tree => tree.WellFormed
  | _ => True

/-- Values of all other types are shaped. -/
theorem shaped_of_type {v : Value K} (h : v.type ∉ [.vector, .matrix, .function]) : v.Shaped := by
  cases v with
  | vector | matrix | function => exact absurd (by simp [type]) h
  | _ => trivial

/-- Changed elements. -/
theorem shaped_vector_map {elements : List K} (h : (vector elements).Shaped) (g : K → K) :
    (vector (elements.map g)).Shaped := by
  intro hnil
  exact h (List.map_eq_nil_iff.1 hnil)

/-- Changed entries. -/
theorem shaped_matrix_map {rows : List (List K)} (h : (matrix rows).Shaped) (g : K → K) :
    (matrix (rows.map (·.map g))).Shaped := IsRectangular.of_lengths h (Matrix.map_lengths g)

variable [Scalar K] {v w u : Value K}

/-- Unary operators. -/
theorem shaped_applyUnary {op : UnaryOp} (hv : v.Shaped) (h : v.applyUnary op = .ok w) :
    w.Shaped := by
  cases op with
  | minus =>
    cases v with
    | vector =>
      cases h
      exact shaped_vector_map hv _
    | matrix =>
      cases h
      exact shaped_matrix_map hv _
    | number | complex | angle =>
      cases h
      trivial
    | _ => cases h
  | not =>
    obtain ⟨hmem, htype⟩ := Option.ite_none_right_eq_some.1 (applyUnary_type h)
    rw [Option.some.inj htype] at hmem
    refine shaped_of_type fun hmem' => ?_
    revert hmem hmem'
    generalize w.type = t
    cases t <;> simp
  | factorial =>
    obtain ⟨-, htype⟩ := Option.ite_none_right_eq_some.1 (applyUnary_type h)
    exact shaped_of_type (by simp [← Option.some.inj htype])

/-- Sums, differences and products of vectors and matrices, and their multiples. -/
theorem shaped_arithmetic {op : BinaryOp} (hv : v.Shaped) (hw : w.Shaped)
    (h : arithmetic op v w = .ok u) : u.Shaped := by
  unfold arithmetic at h
  split at h
  · cases h
    unfold arithmeticReal
    split <;> trivial
  iterate 3
    exact shaped_of_type (by simp [(arithmeticComplex_type h).2])
  · cases op <;> cases h <;> trivial
  iterate 2
    split at h <;> cases h <;> trivial
  · next a b =>
    split at h
    iterate 2
      obtain ⟨c, hc, rfl⟩ := Result.map_ok h
      have hpos : 0 < c.length := Matrix.elementwise_length hc ▸ List.length_pos_iff.2 hv
      exact List.ne_nil_of_length_pos hpos
    · cases h
  · split at h
    iterate 2
      cases h
      exact shaped_vector_map hv _
    · cases h
  · split at h
    · cases h
      exact shaped_vector_map hw _
    · cases h
  · next a b =>
    split at h
    iterate 2
      obtain ⟨c, hc, rfl⟩ := Result.map_ok h
      exact IsRectangular.of_lengths hv (Matrix.elementwiseMatrix_lengths hc)
    · obtain ⟨c, hc, rfl⟩ := Result.map_ok h
      obtain ⟨height, left, hheight, -, ha⟩ := hv
      obtain ⟨right, width, hright, hwidth, hb⟩ := hw
      exact ⟨height, width, hheight, hwidth, Matrix.multiply_hasShape ha hb hright hc⟩
    · cases h
  · split at h
    iterate 2
      cases h
      exact shaped_matrix_map hv _
    · cases h
  · split at h
    · cases h
      exact shaped_matrix_map hw _
    · cases h
  · next a b =>
    split at h
    · obtain ⟨c, hc, rfl⟩ := Result.map_ok h
      obtain ⟨height, width, hheight, -, ha⟩ := hv
      refine List.ne_nil_of_length_pos ?_
      rwa [Matrix.multiplyVector_length hc, ha.height]
    · cases h
  · split at h
    · cases h
      trivial
    · cases h

/-- Comparisons. -/
theorem shaped_comparison {op : BinaryOp} (h : comparison op v w = .ok u) : u.Shaped := by
  unfold comparison at h
  split at h
  all_goals
    split at h
    · cases h
      trivial
    · cases h

/-- Binary operators. -/
theorem shaped_applyBinary {op : BinaryOp} (hv : v.Shaped) (hw : w.Shaped)
    (h : v.applyBinary op w = .ok u) : u.Shaped := by
  cases op with
  | add | sub | mul | div | mod | pow => exact shaped_arithmetic hv hw h
  | lt | le | gt | ge | eq | ne =>
    dsimp only [applyBinary] at h
    exact shaped_comparison h
  | and | or | xor | nand | nor | andThen | orElse | implies | iff =>
    rcases logic_type h with ⟨-, -, hu⟩ | ⟨-, -, -, hu⟩ <;> exact shaped_of_type (by simp [hu])
  | shiftLeft | shiftRight => exact shaped_of_type (by simp [(shift_type h).2.2])

/-- A matrix with rows and columns exchanged, or a vector as a column. -/
theorem shaped_transposed {arguments : List (Value K)} (hv : v.Shaped)
    (h : transposed arguments v = .ok w) : w.Shaped := by
  cases v with
  | matrix rows =>
    cases h
    obtain ⟨height, width, hheight, hwidth, hshape⟩ := hv
    exact ⟨width, height, hwidth, hheight, Matrix.transpose_hasShape hshape hheight⟩
  | vector elements =>
    cases h
    refine ⟨elements.length, 1, List.length_pos_iff.2 hv, Nat.one_pos, List.length_map _, ?_⟩
    intro row hrow
    obtain ⟨a, -, rfl⟩ := List.mem_map.1 hrow
    rfl
  | _ => cases h

/-- The inverse of a matrix. -/
theorem shaped_inverse {rows result : List (List K)} (hv : (matrix rows).Shaped)
    (h : Matrix.inverse rows = .ok result) : (matrix result).Shaped := by
  obtain ⟨height, width, hheight, -, hshape⟩ := hv
  have hpos : 0 < rows.length := hshape.height ▸ hheight
  exact ⟨rows.length, rows.length, hpos, hpos, (Matrix.inverse_hasShape h).2⟩

omit [Scalar K] in
/-- An operation on two vectors comes from the operation on their elements. -/
theorem ofTwoVectors_ok {α : Type} {f : Builtin} {g : List K → List K → Result K α}
    {arguments : List (Value K)} {a : α} (h : ofTwoVectors f g arguments = .ok a) :
    ∃ u v, g u v = .ok a := by
  unfold ofTwoVectors at h
  split at h
  · obtain ⟨u, -, h⟩ := Result.bind_ok h
    obtain ⟨v, -, h⟩ := Result.bind_ok h
    exact ⟨u, v, h⟩
  · cases h

/-- Built-in functions on values. -/
theorem shaped_applyBuiltin {f : Builtin} {vs : List (Value K)} (hf : f.isSymbolic = false)
    (hlength : f.arity.accepts vs.length = true) (hvs : ∀ v ∈ vs, v.Shaped)
    (h : applyBuiltin f vs = .ok w) : w.Shaped := by
  cases vs with
  | nil => cases h
  | cons first others =>
    have hfirst := hvs first (.head _)
    obtain ⟨t, ht, hfits⟩ := applyBuiltin_fits hlength h
    rcases Typing.builtin_result ht with hmem | ⟨hmem, -⟩ | ⟨rfl, -⟩ | ⟨hsymbolic, -⟩
    · refine shaped_of_type ?_
      rcases hfits with heq | ⟨-, -, heq⟩ <;> rw [heq]
      · revert hmem
        cases t <;> simp
      · simp
    · rcases List.mem_pair.1 hmem with rfl | rfl
      · exact shaped_transposed hfirst h
      · obtain ⟨rows, hrows, h⟩ := Result.bind_ok h
        obtain ⟨result, hresult, h⟩ := Result.bind_ok h
        cases h
        cases first <;> cases hrows
        exact shaped_inverse hfirst hresult
    · obtain ⟨u, hu, rfl⟩ := Result.map_ok h
      obtain ⟨left, right, hu⟩ := ofTwoVectors_ok hu
      exact Matrix.cross_ne_nil hu
    · exact Bool.noConfusion (hf.symm.trans hsymbolic)

/-- **Operators and built-in functions make shaped values of shaped ones.** -/
theorem closed_shaped : Closed (Shaped : Value K → Prop) where
  simple {v} hv := by
    cases v with
    | vector | matrix | function => cases hv
    | _ => trivial
  unary := shaped_applyUnary
  binary := shaped_applyBinary
  builtin := shaped_applyBuiltin

end Value

end Formula

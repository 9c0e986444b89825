import Formula.Proofs.Value.InPlace

/-!
# Elimination in place

Elimination goes along the diagonal. At each step the matrix has rows `above` the diagonal and rows
`below` it, from which a pivot is chosen (`Chooses`). The loops go through whole rows, of which the
routines on lists have kept what is not cleared yet: for the determinant the entries from the column
on, for the inverse these and the row of the other matrix (`joined`).

A step in place and a step on lists lead from related rows to related rows, with the same pivot
(`eliminate_succ`, `eliminate_succ_drop`; `clearColumns_succ`, `clearColumns_succ_joined`). By
induction over the columns that are left, all steps in place succeed and have the result of all
steps on lists (`eliminate_eq`, `clearColumns_eq`).
-/

namespace Formula.Matrix.InPlace

variable {K α : Type}

/-! ## Rows around the diagonal -/

section

variable {l l' above below : List α} {i j : Nat}

/-- The row on the diagonal. -/
theorem getElem?_diagonal {p : α} {column : Nat} (hcolumn : above.length = column) :
    (above ++ p :: below)[column]? = some p := by
  rw [← hcolumn, List.getElem?_append_right (Nat.le_refl _), Nat.sub_self]
  rfl

/-- The rows below it. -/
theorem getElem?_below {p : α} (hi : above.length + 1 ≤ i) :
    (above ++ p :: below)[i]? = below[i - (above.length + 1)]? := by
  have hindex : i - above.length = i - (above.length + 1) + 1 := by omega
  rw [List.getElem?_append_right (by omega), hindex, List.getElem?_cons_succ]

/-- The other rows, where all of them are changed. -/
theorem getElem?_off_diagonal {p q : α} {f : α → α} (hi : i ≠ above.length) :
    (above.map f ++ q :: below.map f)[i]? = (above ++ p :: below)[i]?.map f := by
  rcases Nat.lt_or_gt_of_ne hi with hlt | hgt
  · rw [List.getElem?_append_left (by rwa [List.length_map]), List.getElem?_append_left hlt,
      List.getElem?_map]
  · rw [getElem?_below (by rwa [List.length_map]), getElem?_below hgt, List.length_map,
      List.getElem?_map]

/-! ## Exchanges -/

/-- A row exchanged with itself. -/
theorem swapRows_self (hi : i < l.length) : swapRows l i i = some l := by
  have hx : l[i]? = some l[i] := List.getElem?_eq_getElem hi
  simp [swapRows, hx]

/-- A pivot's row that is on the diagonal stays there. -/
theorem bringUp_eq {rows rows' : List (List K)} (h : swapRows rows i j = some rows') :
    bringUp rows i j = some rows' := by
  unfold bringUp
  split
  · next heq =>
    subst heq
    obtain ⟨a, ha, -⟩ := Option.bind_eq_some_iff.1 h
    rw [← h, swapRows_self (List.getElem?_eq_some_iff.1 ha).1]
  · exact h

/-- Exchanged rows are as many as before. -/
theorem swapRows_length (h : swapRows l i j = some l') : l'.length = l.length := by
  obtain ⟨a, -, h⟩ := Option.bind_eq_some_iff.1 h
  obtain ⟨b, -, h⟩ := Option.bind_eq_some_iff.1 h
  cases h
  rw [List.length_set, List.length_set]

/-- Exchanged rows are rows from before. -/
theorem swapRows_mem (h : swapRows l i j = some l') : ∀ x ∈ l', x ∈ l := by
  obtain ⟨a, ha, h⟩ := Option.bind_eq_some_iff.1 h
  obtain ⟨b, hb, h⟩ := Option.bind_eq_some_iff.1 h
  cases h
  intro x hx
  rcases List.mem_or_eq_of_mem_set hx with hx | rfl
  · rcases List.mem_or_eq_of_mem_set hx with hx | rfl
    · exact hx
    · exact List.mem_of_getElem? hb
  · exact List.mem_of_getElem? ha

/-- Exchanged rows that are changed alike. -/
theorem swapRows_map {β : Type} (f : α → β) :
    swapRows (l.map f) i j = (swapRows l i j).map (List.map f) := by
  simp only [swapRows, List.getElem?_map]
  cases l[i]? with
  | none => rfl
  | some a =>
    cases l[j]? with
    | none => rfl
    | some b => simp [List.map_set]

/-- Rows exchanged below others. -/
theorem swapRows_append (h : swapRows below i 0 = some l') :
    swapRows (above ++ below) (above.length + i) above.length = some (above ++ l') := by
  obtain ⟨a, ha, h⟩ := Option.bind_eq_some_iff.1 h
  obtain ⟨b, hb, h⟩ := Option.bind_eq_some_iff.1 h
  cases h
  simp [swapRows, List.getElem?_append_right, ha, hb, List.set_append_right]

/-- Any row can be exchanged with the first one, and is the first one then. -/
theorem exists_swapRows (hi : i < l.length) :
    ∃ p others, l[i]? = some p ∧ swapRows l i 0 = some (p :: others) := by
  have hp : l[i]? = some l[i] := List.getElem?_eq_getElem hi
  cases l with
  | nil => cases hi
  | cons first rest =>
    refine ⟨_, ((first :: rest).set i first).tail, hp, ?_⟩
    rw [swapRows, hp]
    cases i <;> rfl

/-- The row that is taken comes first, and the first row takes its place. -/
theorem swapRows_eq_takePivot {rows : List (List K)} :
    swapRows rows i 0 = (takePivot rows i).map fun taken => taken.1 :: taken.2 := by
  cases rows with
  | nil => rfl
  | cons first rest =>
    cases i with
    | zero => rfl
    | succ i =>
      simp only [swapRows, takePivot, List.getElem?_cons_succ]
      cases rest[i]? with
      | none => rfl
      | some pivot => rfl

/-- What is taken, where of each row something is left out. -/
theorem takePivot_map {view : α → List K} {p : α} {others : List α}
    (h : swapRows l i 0 = some (p :: others)) :
    takePivot (l.map view) i = some (view p, others.map view) := by
  have hviews : swapRows (l.map view) i 0 = some (view p :: others.map view) := by
    rw [swapRows_map, h]
    rfl
  rw [swapRows_eq_takePivot, Option.map_eq_some_iff] at hviews
  obtain ⟨⟨pivot, rest⟩, htaken, heq⟩ := hviews
  cases heq
  exact htaken

end

/-! ## Pivots -/

section

variable [Scalar K] {rows todo : List (List K)} {column : Nat}

/-- The index of the best row is one of those that were compared. -/
theorem pivotFrom_lt {i best : Nat} {size : K} (hbest : best < i + todo.length) :
    pivotFrom i best size todo < i + todo.length := by
  induction todo generalizing i best size with
  | nil => exact hbest
  | cons row rest ih =>
    rw [List.length_cons, ← Nat.add_assoc, Nat.add_right_comm] at hbest ⊢
    rw [pivotFrom]
    split
    · exact ih hbest
    · exact ih (by omega)

/-- There is a row with the best index. -/
theorem pivotIndex_lt (hne : todo ≠ []) : pivotIndex todo < todo.length := by
  cases todo with
  | nil => exact absurd rfl hne
  | cons row rest =>
    rw [List.length_cons, Nat.add_comm]
    exact pivotFrom_lt (by omega)

/-- The rest of the search for a pivot. -/
theorem foldlM_betterRow {rest : List (List K)} {i best : Nat} {a : K}
    (hrest : ∀ k row, rest[k]? = some row → entry rows (column + (i + k)) column = some (lead row))
    (hbest : entry rows (column + best) column = some a) :
    (List.range' (column + i) rest.length).foldlM (betterRow rows column) (column + best) =
      some (column + pivotFrom i best (Scalar.abs a) rest) := by
  induction rest generalizing i best a with
  | nil => rfl
  | cons row rest ih =>
    have hrow : entry rows (column + i) column = some (lead row) := hrest 0 row rfl
    have hnext (k : Nat) (later : List K) (hlater : rest[k]? = some later) :
        entry rows (column + (i + 1 + k)) column = some (lead later) := by
      rw [Nat.add_assoc i, Nat.add_comm 1]
      exact hrest (k + 1) later hlater
    rw [List.length_cons, List.range'_succ, List.foldlM_cons, betterRow, hbest, hrow, pivotFrom]
    simp only [Option.bind_eq_bind, Option.bind_some, Option.pure_def]
    split
    · exact ih hnext hbest
    · exact ih hnext hrow

/-- The best row to choose a pivot from is found by the first entries of the rows without their
cleared columns. -/
theorem pivotRow_eq (hlength : rows.length = column + todo.length) (hne : todo ≠ [])
    (htodo : ∀ k row, todo[k]? = some row → entry rows (column + k) column = some (lead row)) :
    pivotRow rows column = some (column + pivotIndex todo) := by
  cases todo with
  | nil => exact absurd rfl hne
  | cons row rest =>
    have hcount : rows.length - (column + 1) = rest.length := by
      rw [hlength, List.length_cons]
      omega
    rw [pivotRow, hcount]
    have hrest (k : Nat) (later : List K) (hlater : rest[k]? = some later) :
        entry rows (column + (1 + k)) column = some (lead later) := by
      rw [Nat.add_comm 1]
      exact htodo (k + 1) later hlater
    exact foldlM_betterRow hrest (htodo 0 row rfl)

/-- What the choice of a pivot comes to: row `p`, at an index among the rows `below` the diagonal,
which leaves the `others`. What the loops see of a row is `row`, and what the routines on lists have
kept of it is `view`. -/
structure Chooses (row view : α → List K) (above below : List α) (index : Nat) (p : α)
    (others : List α) : Prop where
  best : pivotIndex (below.map view) = index
  taken : takePivot (below.map view) index = some (view p, others.map view)
  found : pivotRow ((above ++ below).map row) above.length = some (above.length + index)
  pivot : entry ((above ++ below).map row) (above.length + index) above.length =
    some (lead (view p))
  swapped : swapRows (above ++ below) (above.length + index) above.length =
    some (above ++ p :: others)
  length : others.length + 1 = below.length
  mem : ∀ x ∈ p :: others, x ∈ below

/-- The exchange brings no new rows. -/
theorem Chooses.forall_mem {row view : α → List K} {above below others : List α} {index : Nat}
    {p : α} {P : α → Prop} (h : Chooses row view above below index p others)
    (hall : ∀ x ∈ above ++ below, P x) : ∀ x ∈ above ++ p :: others, P x := by
  obtain ⟨habove, hbelow⟩ := List.forall_mem_append.1 hall
  exact List.forall_mem_append.2 ⟨habove, fun x hx => hbelow x (h.mem x hx)⟩

/-- Where rows are left, there is a pivot among them. -/
theorem exists_chooses {row view : α → List K} {above below : List α} (hne : below ≠ [])
    (hlead : ∀ x ∈ below, (row x)[above.length]? = some (lead (view x))) :
    ∃ index p others, Chooses row view above below index p others := by
  have hentry (k : Nat) (x : α) (hx : below[k]? = some x) :
      entry ((above ++ below).map row) (above.length + k) above.length = some (lead (view x)) := by
    have hrow : ((above ++ below).map row)[above.length + k]? = some (row x) := by
      rw [List.getElem?_map, List.getElem?_append_right (Nat.le_add_right _ _),
        Nat.add_sub_cancel_left, hx]
      rfl
    rw [entry_eq hrow, hlead x (List.mem_of_getElem? hx)]
  have hfound : pivotRow ((above ++ below).map row) above.length =
      some (above.length + pivotIndex (below.map view)) := by
    refine pivotRow_eq (by simp) (by simpa using hne) fun k first hfirst => ?_
    rw [List.getElem?_map, Option.map_eq_some_iff] at hfirst
    obtain ⟨x, hx, rfl⟩ := hfirst
    exact hentry k x hx
  have hlt : pivotIndex (below.map view) < below.length := by
    rw [← List.length_map view]
    exact pivotIndex_lt (by simpa using hne)
  generalize hbest : pivotIndex (below.map view) = index at hfound hlt
  obtain ⟨p, others, hp, hswap⟩ := exists_swapRows hlt
  exact ⟨index, p, others, hbest, takePivot_map hswap, hfound, hentry index p hp,
    swapRows_append hswap, swapRows_length hswap, swapRows_mem hswap⟩

/-! ## Determinants -/

/-- The first of the entries from a column on. -/
theorem lead_drop {row : List K} (hcolumn : column < row.length) :
    row[column]? = some (lead (row.drop column)) := by
  rw [lead, List.headD_eq_head?_getD, List.head?_drop, List.getElem?_eq_getElem hcolumn,
    Option.getD_some]

/-- What is left of a row from the next column on, less a multiple of the pivot's row. -/
theorem drop_minusMultiple {factor : K} {p row : List K} (hcolumn : column < row.length) :
    (minusMultiple column factor p row).drop (column + 1) =
      subtractMultiple factor (p.drop column).tail (row.drop column) := by
  have hlength : (row.take column).length = column := by
    rw [List.length_take, Nat.min_eq_left (Nat.le_of_lt hcolumn)]
  rw [minusMultiple, subtractMultiple, List.drop_append, hlength,
    List.drop_eq_nil_of_le (by omega), List.nil_append, Nat.add_sub_cancel_left, List.drop_one,
    List.tail_zipWith]

/-- A row below the diagonal after the column is cleared, where row `p` is on the diagonal. -/
def cleared (column : Nat) (p row : List K) : List K :=
  minusMultiple column (lead (row.drop column) / lead (p.drop column)) p row

variable {above below : List (List K)} {size count : Nat} {p : List K} {acc : K}

/-- The rows below the diagonal lose their multiples of the row on it. -/
theorem clearBelow_eq (hsize : above.length + (below.length + 1) = size)
    (hwidth : ∀ row ∈ above ++ p :: below, row.length = size) :
    clearBelow size above.length (above ++ p :: below) =
      some (above ++ p :: below.map (cleared above.length p)) := by
  have hcount : size - (above.length + 1) = below.length := by omega
  have hp : p.length = size := hwidth p (by simp)
  rw [clearBelow, hcount]
  refine foldlM_replace (fun rows => rows) ?_ ?_ ?_ ?_
  · rw [List.length_append, List.length_cons]
    omega
  · rw [List.length_append, List.length_cons, List.length_map]
    omega
  · rw [List.take_length_add_append, List.take_length_add_append]
    rfl
  · intro i row row' now hi hrow hrow' hnow hsame
    have hpivot : now[above.length]? = some p := by
      rw [hsame _ ((getElem?_diagonal rfl).trans (getElem?_diagonal rfl).symm)]
      exact getElem?_diagonal rfl
    rw [getElem?_below hi] at hrow hrow'
    rw [List.getElem?_map, hrow] at hrow'
    cases hrow'
    have hlength : row.length = size :=
      hwidth row (List.mem_append_right _ (.tail _ (List.mem_of_getElem? hrow)))
    rw [clearRow, entry_eq hnow, lead_drop (by omega), entry_eq hpivot, lead_drop (by omega)]
    exact foldlM_subtractEntry hnow hpivot (by omega) (by omega) (by omega)

/-- A step of the determinant in place. -/
theorem eliminate_succ {index : Nat} {others : List (List K)}
    (h : Chooses (fun row => row) (·.drop above.length) above below index p others)
    (hsize : above.length + below.length = size)
    (hwidth : ∀ row ∈ above ++ p :: others, row.length = size) :
    eliminate size (count + 1) above.length acc (above ++ below) =
      if isNegligible (lead (p.drop above.length)) then some Scalar.zero
      else eliminate size count (above.length + 1)
        ((if index = 0 then acc else -acc) * lead (p.drop above.length))
        (above ++ p :: others.map (cleared above.length p)) := by
  have hfound := h.found
  have hpivot := h.pivot
  rw [List.map_id'] at hfound hpivot
  have hlength := h.length
  have hdiagonal : entry (above ++ p :: others) above.length above.length =
      some (lead (p.drop above.length)) := by
    rw [entry_eq (getElem?_diagonal rfl), lead_drop]
    rw [hwidth p (by simp)]
    omega
  have hcleared : clearBelow size above.length (above ++ p :: others) =
      some (above ++ p :: others.map (cleared above.length p)) :=
    clearBelow_eq (by omega) hwidth
  simp only [eliminate, hfound, hpivot, bringUp_eq h.swapped, hdiagonal, hcleared,
    Option.bind_eq_bind, Option.bind_some, Nat.add_eq_left]

/-- The same step on rows without their cleared columns. -/
theorem eliminate_succ_drop {index : Nat} {others : List (List K)}
    (h : Chooses (fun row => row) (·.drop above.length) above below index p others)
    (hwidth : ∀ row ∈ others, above.length < row.length) :
    Matrix.eliminate (count + 1) acc (below.map (·.drop above.length)) =
      if isNegligible (lead (p.drop above.length)) then Scalar.zero
      else Matrix.eliminate count
        ((if index = 0 then acc else -acc) * lead (p.drop above.length))
        ((others.map (cleared above.length p)).map (·.drop (above.length + 1))) := by
  have hrest : (others.map (cleared above.length p)).map (·.drop (above.length + 1)) =
      (others.map (·.drop above.length)).map fun row =>
        subtractMultiple (lead row / lead (p.drop above.length)) (p.drop above.length).tail
          row := by
    rw [List.map_map, List.map_map]
    exact List.map_congr_left fun row hrow => drop_minusMultiple (hwidth row hrow)
  rw [hrest]
  simp only [Matrix.eliminate, h.best, h.taken]

/-- **Elimination in place** gives the same product of pivots. -/
theorem eliminate_eq (hcount : below.length = count) (hsize : above.length + count = size)
    (hwidth : ∀ row ∈ above ++ below, row.length = size) :
    eliminate size count above.length acc (above ++ below) =
      some (Matrix.eliminate count acc (below.map (·.drop above.length))) := by
  induction count generalizing above below acc with
  | zero => rfl
  | succ count ih =>
    have hne : below ≠ [] := List.ne_nil_of_length_pos (hcount ▸ Nat.succ_pos count)
    obtain ⟨index, p, others, h⟩ : ∃ index p others,
        Chooses (fun row => row) (·.drop above.length) above below index p others := by
      refine exists_chooses hne fun row hrow => lead_drop ?_
      rw [hwidth row (List.mem_append_right _ hrow)]
      omega
    have hwidth' := h.forall_mem hwidth
    obtain ⟨habove, hbelow⟩ := List.forall_mem_append.1 hwidth'
    obtain ⟨hp, hothers⟩ := List.forall_mem_cons.1 hbelow
    rw [eliminate_succ h (by omega) hwidth',
      eliminate_succ_drop h fun row hrow => by rw [hothers row hrow]; omega]
    split
    · rfl
    · have hcolumn : above.length + 1 = (above ++ [p]).length := by
        rw [List.length_append, List.length_singleton]
      have hlength := h.length
      rw [List.append_cons, hcolumn]
      refine ih ?_ ?_ ?_
      · rw [List.length_map]
        omega
      · omega
      · rw [← List.append_cons]
        refine List.forall_mem_append.2 ⟨habove, List.forall_mem_cons.2 ⟨hp, ?_⟩⟩
        exact List.forall_mem_map.2 fun row hrow =>
          minusMultiple_length (hothers row hrow) hp (by omega)

/-! ## Inverses -/

/-- A row of the matrix and a row of its inverse in the making. What is left of them without the
cleared columns is one row of `Matrix.clearColumns`. -/
def joined (column : Nat) (x : List K × List K) : List K := x.1.drop column ++ x.2

/-- Both rows divided by the pivot. -/
def normalized (column : Nat) (x : List K × List K) : List K × List K :=
  (x.1.map (· / lead (joined column x)), x.2.map (· / lead (joined column x)))

/-- Both rows less their multiples of those on the diagonal. -/
def clearedBoth (column : Nat) (p x : List K × List K) : List K × List K :=
  (minusMultiple 0 (lead (joined column x)) p.1 x.1,
    minusMultiple 0 (lead (joined column x)) p.2 x.2)

/-- Both rows have as many entries. -/
def HasWidth (size : Nat) (x : List K × List K) : Prop := x.1.length = size ∧ x.2.length = size

variable {pairs : List (List K × List K)} {x q : List K × List K}

omit [Scalar K] in
/-- The first entry that is left is the one in the column, and the others are those from the next
column on. -/
theorem joined_eq_cons (hx : HasWidth size x) (hcolumn : column < size) :
    ∃ a, x.1[column]? = some a ∧ joined column x = a :: joined (column + 1) x := by
  have hlt : column < x.1.length := hx.1 ▸ hcolumn
  refine ⟨x.1[column], List.getElem?_eq_getElem hlt, ?_⟩
  rw [joined, joined, List.drop_eq_getElem_cons hlt, List.cons_append]

/-- The entry in the column is the first one that is left. -/
theorem lead_joined (hx : HasWidth size x) (hcolumn : column < size) :
    x.1[column]? = some (lead (joined column x)) := by
  obtain ⟨a, ha, hjoined⟩ := joined_eq_cons hx hcolumn
  rw [ha, hjoined]
  rfl

/-- The pair on the diagonal becomes the row that the others are cleared with. -/
theorem joined_normalized (hx : HasWidth size x) (hcolumn : column < size) :
    joined (column + 1) (normalized column x) =
      (joined column x).tail.map (· / lead (joined column x)) := by
  obtain ⟨a, -, hjoined⟩ := joined_eq_cons hx hcolumn
  rw [normalized]
  generalize lead (joined column x) = divisor
  rw [hjoined, List.tail_cons, joined, joined, List.map_append, List.map_drop]

/-- The others are cleared with it. -/
theorem joined_clearedBoth (hx : HasWidth size x) (hq : HasWidth size q) (hcolumn : column < size) :
    joined (column + 1) (clearedBoth column q x) =
      subtractMultiple (lead (joined column x)) (joined (column + 1) q) (joined column x) := by
  obtain ⟨a, -, hjoined⟩ := joined_eq_cons hx hcolumn
  have hlength : (x.1.drop (column + 1)).length = (q.1.drop (column + 1)).length := by
    rw [List.length_drop, List.length_drop, hx.1, hq.1]
  rw [clearedBoth]
  generalize lead (joined column x) = factor
  rw [subtractMultiple, hjoined, List.tail_cons, joined, joined, joined,
    List.zipWith_append hlength, minusMultiple, minusMultiple]
  simp only [List.take_zero, List.drop_zero, List.nil_append, List.drop_zipWith]

variable {above below : List (List K × List K)}

/-- Both rows on the diagonal divided by the pivot. -/
theorem foldlM_divide (hx : HasWidth size x) :
    (List.range' 0 size).foldlM
        (both (divideEntry above.length (lead (joined above.length x))))
        (above ++ x :: below).unzip =
      some (above ++ normalized above.length x :: below).unzip := by
  have hdiagonal : (above ++ x :: below)[above.length]? = some x := getElem?_diagonal rfl
  have hfirst := foldlM_divideEntry (lead (joined above.length x))
    (getElem?_map_some Prod.fst hdiagonal)
  have hsecond := foldlM_divideEntry (lead (joined above.length x))
    (getElem?_map_some Prod.snd hdiagonal)
  rw [hx.1] at hfirst
  rw [hx.2] at hsecond
  rw [List.unzip_eq_map, List.unzip_eq_map, foldlM_both hfirst hsecond]
  simp [normalized, List.set_append_right]

/-- All other rows cleared. -/
theorem foldlM_clearOther (hsize : above.length + (below.length + 1) = size)
    (hwidth : ∀ x ∈ above ++ q :: below, HasWidth size x) :
    (List.range' 0 size).foldlM (clearOther size above.length)
        (above ++ q :: below).unzip =
      some (above.map (clearedBoth above.length q) ++
        q :: below.map (clearedBoth above.length q)).unzip := by
  refine foldlM_replace List.unzip ?_ ?_ rfl ?_
  · rw [List.length_append, List.length_cons]
    omega
  · rw [List.length_append, List.length_cons, List.length_map, List.length_map]
    omega
  · intro i x y now _ hx hy hnow hsame
    have hdiagonal : now[above.length]? = some q := by
      have hnew : (above.map (clearedBoth above.length q) ++
          q :: below.map (clearedBoth above.length q))[above.length]? = some q :=
        getElem?_diagonal (List.length_map _)
      rw [hsame above.length (hnew.trans (getElem?_diagonal rfl).symm), getElem?_diagonal rfl]
    have hq : HasWidth size q := hwidth q (by simp)
    by_cases hi : i = above.length
    · subst hi
      rw [getElem?_diagonal rfl] at hx
      cases hx
      rw [getElem?_diagonal (List.length_map _)] at hy
      cases hy
      rw [clearOther, if_pos rfl, set_of_getElem? hnow]
    · rw [getElem?_off_diagonal hi, hx] at hy
      cases hy
      have hx' : HasWidth size x := hwidth x (List.mem_of_getElem? hx)
      have hfirst : (now.map Prod.fst)[i]? = some x.1 := getElem?_map_some _ hnow
      have hsecond : (now.map Prod.snd)[i]? = some x.2 := getElem?_map_some _ hnow
      rw [List.unzip_eq_map, List.unzip_eq_map, List.map_set, List.map_set, clearOther, if_neg hi,
        entry_eq hfirst, lead_joined hx' (by omega)]
      refine foldlM_both ?_ ?_
      · exact foldlM_subtractEntry hfirst (getElem?_map_some _ hdiagonal) hi
          (hx'.1.trans (Nat.zero_add size).symm) (hq.1.trans (Nat.zero_add size).symm)
      · exact foldlM_subtractEntry hsecond (getElem?_map_some _ hdiagonal) hi
          (hx'.2.trans (Nat.zero_add size).symm) (hq.2.trans (Nat.zero_add size).symm)

/-- Rows that are cleared together, seen from the next column on. -/
theorem map_joined_clearedBoth (hq : HasWidth size q) (hcolumn : column < size)
    (hpairs : ∀ x ∈ pairs, HasWidth size x) :
    (pairs.map (clearedBoth column q)).map (joined (column + 1)) =
      (pairs.map (joined column)).map fun row =>
        subtractMultiple (lead row) (joined (column + 1) q) row := by
  rw [List.map_map, List.map_map]
  exact List.map_congr_left fun x hx => joined_clearedBoth (hpairs x hx) hq hcolumn

/-- Cleared rows have as many entries as before. -/
theorem HasWidth.clearedBoth (hx : HasWidth size x) (hq : HasWidth size q) :
    HasWidth size (clearedBoth column q x) :=
  ⟨minusMultiple_length hx.1 hq.1 (Nat.zero_le _), minusMultiple_length hx.2 hq.2 (Nat.zero_le _)⟩

/-- So have divided ones. -/
theorem HasWidth.normalized (hx : HasWidth size x) : HasWidth size (normalized column x) :=
  ⟨(List.length_map _).trans hx.1, (List.length_map _).trans hx.2⟩

/-- A step of the inverse in place. -/
theorem clearColumns_succ {index : Nat} {p : List K × List K} {others : List (List K × List K)}
    (h : Chooses Prod.fst (joined above.length) above below index p others)
    (hsize : above.length + below.length = size)
    (hwidth : ∀ x ∈ above ++ p :: others, HasWidth size x) (hq : normalized above.length p = q) :
    clearColumns size (count + 1) above.length (above ++ below).unzip =
      if isNegligible (lead (joined above.length p)) then some none
      else clearColumns size count (above.length + 1)
        (above.map (clearedBoth above.length q) ++
          q :: others.map (clearedBoth above.length q)).unzip := by
  have hlength := h.length
  obtain ⟨habove, hbelow⟩ := List.forall_mem_append.1 hwidth
  obtain ⟨hp, hothers⟩ := List.forall_mem_cons.1 hbelow
  have hswapped {β : Type} (f : List K × List K → β) :
      swapRows ((above ++ below).map f) (above.length + index) above.length =
        some ((above ++ p :: others).map f) := by
    rw [swapRows_map, h.swapped]
    rfl
  have hdivisor : entry ((above ++ p :: others).map Prod.fst) above.length above.length =
      some (lead (joined above.length p)) := by
    rw [entry_eq (getElem?_map_some Prod.fst (getElem?_diagonal rfl)), lead_joined hp (by omega)]
  have hwidth' : ∀ x ∈ above ++ q :: others, HasWidth size x :=
    List.forall_mem_append.2 ⟨habove, List.forall_mem_cons.2 ⟨hq ▸ hp.normalized, hothers⟩⟩
  have hdivided : (List.range' 0 size).foldlM
      (both (divideEntry above.length (lead (joined above.length p))))
      ((above ++ p :: others).map Prod.fst, (above ++ p :: others).map Prod.snd) =
        some (above ++ q :: others).unzip := by
    rw [← List.unzip_eq_map, foldlM_divide hp, hq]
  have hcleared := foldlM_clearOther (by omega) hwidth'
  simp only [clearColumns, List.unzip_fst, List.unzip_snd, h.found, h.pivot, hswapped, hdivisor,
    hdivided, hcleared, Option.bind_eq_bind, Option.bind_some]

/-- The same step on the rows of both matrices end to end. -/
theorem clearColumns_succ_joined {index : Nat} {p : List K × List K}
    {others : List (List K × List K)}
    (h : Chooses Prod.fst (joined above.length) above below index p others)
    (hcolumn : above.length < size) (hwidth : ∀ x ∈ above ++ p :: others, HasWidth size x)
    (hq : normalized above.length p = q) :
    Matrix.clearColumns (count + 1) (above.map (joined above.length))
        (below.map (joined above.length)) =
      if isNegligible (lead (joined above.length p)) then none
      else Matrix.clearColumns count
        ((above.map (clearedBoth above.length q) ++ [q]).map (joined (above.length + 1)))
        ((others.map (clearedBoth above.length q)).map (joined (above.length + 1))) := by
  obtain ⟨habove, hbelow⟩ := List.forall_mem_append.1 hwidth
  obtain ⟨hp, hothers⟩ := List.forall_mem_cons.1 hbelow
  have hqwidth : HasWidth size q := hq ▸ hp.normalized
  have hunit : joined (above.length + 1) q =
      (joined above.length p).tail.map (· / lead (joined above.length p)) := by
    rw [← hq, joined_normalized hp hcolumn]
  rw [List.map_append, List.map_singleton, map_joined_clearedBoth hqwidth hcolumn habove,
    map_joined_clearedBoth hqwidth hcolumn hothers, hunit]
  simp only [Matrix.clearColumns, h.best, h.taken, Option.bind_eq_bind, Option.bind_some]

/-- **Elimination in place on two matrices** clears the same columns. -/
theorem clearColumns_eq (hcount : below.length = count) (hsize : above.length + count = size)
    (hwidth : ∀ x ∈ above ++ below, HasWidth size x) :
    clearColumns size count above.length (above ++ below).unzip =
      some (Matrix.clearColumns count (above.map (joined above.length))
        (below.map (joined above.length))) := by
  induction count generalizing above below with
  | zero =>
    obtain rfl := List.length_eq_zero_iff.1 hcount
    have hjoined : above.map (joined above.length) = above.map Prod.snd := by
      refine List.map_congr_left fun x hx => ?_
      have hlength := (hwidth x (by simpa using hx)).1
      rw [joined, List.drop_eq_nil_of_le (by omega), List.nil_append]
    rw [clearColumns, Matrix.clearColumns, hjoined, List.map_nil, List.append_nil, List.append_nil,
      List.unzip_snd]
  | succ count ih =>
    have hne : below ≠ [] := List.ne_nil_of_length_pos (hcount ▸ Nat.succ_pos count)
    obtain ⟨index, p, others, h⟩ : ∃ index p others,
        Chooses Prod.fst (joined above.length) above below index p others :=
      exists_chooses hne fun x hx =>
        lead_joined (hwidth x (List.mem_append_right _ hx)) (by omega)
    have hwidth' := h.forall_mem hwidth
    obtain ⟨q, hq⟩ : ∃ q, normalized above.length p = q := ⟨_, rfl⟩
    rw [clearColumns_succ h (by omega) hwidth' hq,
      clearColumns_succ_joined h (by omega) hwidth' hq]
    split
    · rfl
    · obtain ⟨habove, hbelow⟩ := List.forall_mem_append.1 hwidth'
      obtain ⟨hp, hothers⟩ := List.forall_mem_cons.1 hbelow
      have hqwidth : HasWidth size q := hq ▸ hp.normalized
      have hcolumn : above.length + 1 =
          (above.map (clearedBoth above.length q) ++ [q]).length := by
        rw [List.length_append, List.length_singleton, List.length_map]
      have hlength := h.length
      rw [List.append_cons, hcolumn]
      refine ih ?_ ?_ ?_
      · rw [List.length_map]
        omega
      · omega
      · rw [← List.append_cons]
        refine List.forall_mem_append.2 ⟨?_, List.forall_mem_cons.2 ⟨hqwidth, ?_⟩⟩
        · exact List.forall_mem_map.2 fun x hx => (habove x hx).clearedBoth hqwidth
        · exact List.forall_mem_map.2 fun x hx => (hothers x hx).clearedBoth hqwidth

end

/-! ## Results -/

variable [Scalar K]

/-- **The determinant in place** has no index out of range. -/
theorem determinant_eq (m : List (List K)) : determinant m = some (Matrix.determinant m) := by
  unfold determinant Matrix.determinant
  cases hsize : squareSize "det" m with
  | error cause => rfl
  | ok size =>
    have hm : HasShape size size m := squareSize_ok hsize
    have heliminate : eliminate size size ([] : List (List K)).length Scalar.one ([] ++ m) =
        some (Matrix.eliminate size Scalar.one (m.map (·.drop 0))) :=
      eliminate_eq hm.height (Nat.zero_add _) hm.width
    simp only [List.drop_zero, List.map_id'] at heliminate
    exact congrArg (Option.map Except.ok) heliminate

/-- All columns of a square matrix cleared in place, and another one with them. -/
theorem clearColumns_zip {size : Nat} {m n : List (List K)} (hm : HasShape size size m)
    (hn : HasShape size size n) :
    clearColumns size size 0 (m, n) =
      some (Matrix.clearColumns size [] (List.zipWith (· ++ ·) m n)) := by
  have hlength : m.length = n.length := hm.height.trans hn.height.symm
  have hpairs : clearColumns size size ([] : List (List K × List K)).length
      ([] ++ m.zip n).unzip = some (Matrix.clearColumns size [] ((m.zip n).map (joined 0))) := by
    refine clearColumns_eq ?_ (Nat.zero_add size) fun x hx => ?_
    · rw [List.length_zip, ← hlength, Nat.min_self, hm.height]
    · obtain ⟨hleft, hright⟩ := List.of_mem_zip hx
      exact ⟨hm.width _ hleft, hn.width _ hright⟩
  rw [List.nil_append, List.unzip_zip hlength] at hpairs
  rw [← List.map_uncurry_zip_eq_zipWith]
  exact hpairs

/-- **The inverse in place** has no index out of range. -/
theorem inverse_eq (m : List (List K)) : inverse m = some (Matrix.inverse m) := by
  unfold inverse Matrix.inverse
  cases hsize : squareSize "inverse" m with
  | error cause => rfl
  | ok size =>
    have hclear := clearColumns_zip (squareSize_ok hsize) identity_hasShape
    cases hresult : Matrix.clearColumns size [] (List.zipWith (· ++ ·) m (identity size)) <;>
      simp only [hclear, hresult, bind, Except.bind, Option.bind, pure, Except.pure]

end Formula.Matrix.InPlace

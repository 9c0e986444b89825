import Formula.Proofs.RoundTrip.Levels
import Mathlib.Data.List.Forall2

/-!
# Lists in brackets

Arguments in parentheses and the elements and rows in braces are lists with commas between their
items. One lemma, `moreItems_reads`, reads such a list behind its first item; calls, vectors and
matrices follow. Two opening braces in a row make a matrix, so a vector is read as one only if its
first element begins with no brace.
-/

namespace Formula

open Formula.Grammar Formula.Parser

variable {K α : Type} [Scalar K] {S : Nat → Nest → Parser K (Option (Expr K))} {k n : Nat}
  {ts rest : List (Token K)} {e : Expr K}

/-! ## Closing parentheses -/

/-- An operand does not begin with a closing parenthesis. -/
theorem operand_refuses_close {self : Nest → Parser K (Option (Expr K))} :
    Reads (operand self) [] (.symbol .closeParenthesis :: rest) none :=
  operand_behind_numbers rfl rfl <| .firstOf_none (functionOrVariable_refuses rfl) <|
    .firstOf_none (truth_refuses rfl) <| .firstOf_none (text_refuses rfl) <|
    .firstOf_none (parentheses_refuses rfl) <|
    .firstOf_none (matrix_refuses rfl) <| .firstOf_none (vector_refuses rfl) <| .pure none

/-- A prefixed operand does not begin with a closing parenthesis. -/
theorem prefixed_refuses_close (hS : Unrolls S) :
    Reads (S (n + 1) .prefixed) [] (.symbol .closeParenthesis :: rest) none := by
  have hpostfixed : Reads (postfixed (S n)) [] (.symbol .closeParenthesis :: rest) none :=
    Reads.look operand_refuses_close (.pure none)
  rw [hS]
  exact Reads.nested (prefixed_reads_power rfl (Reads.look hpostfixed (.pure none)))

/-- No rung of the ladder begins with a closing parenthesis. -/
theorem ladder_refuses_close (hS : Unrolls S) (n : Nat) (rest : List (Token K))
    (precedences : List Nat) :
    Reads (ladder (S (n + 1)) precedences) [] (.symbol .closeParenthesis :: rest) none := by
  induction precedences with
  | nil =>
    have htimes : Reads (numberTimes (S (n + 1))) [] (.symbol .closeParenthesis :: rest) none := by
      refine Reads.speculate_none [] (Reads.look (.accept_false rfl) ?_)
      exact Reads.look (number_refuses rfl) (.pure none)
    exact .firstOf_none htimes (.firstOf_none (prefixed_refuses_close hS) (.pure none))
  | cons precedence tighter ih => exact Reads.look ih (.pure none)

/-- An expression does not begin with a closing parenthesis, and two levels are enough to see it. -/
theorem expression_refuses_close (hS : Unrolls S) (hn : 2 ≤ n) :
    Reads (S n .expression) [] (.symbol .closeParenthesis :: rest) none := by
  obtain ⟨n, rfl⟩ : ∃ j, n = j + 2 := ⟨n - 2, by omega⟩
  have hcondition := ladder_refuses_close hS n rest rungs
  rw [hS]
  exact Reads.nested <| .firstOf_none (compoundAssignment_refuses_nameless rfl) <|
    .firstOf_none (Reads.look hcondition (.pure none)) (.pure none)

/-! ## Items with commas between them -/

section Items

variable {p : Parser K α} {item : List (Token K)} {items : List (List (Token K))} {a : α}
  {as : List α}

/-- The parser reads the item as the result, in front of what may follow an item. -/
def ReadsItem (p : Parser K α) (item : List (Token K)) (a : α) : Prop :=
  ∀ rest, follows 0 rest = true → Reads p item rest a

omit [Scalar K] in
/-- A comma or what follows the list may stand behind an item. -/
theorem follows_more (hrest : follows 0 rest = true) :
    follows 0 (items.flatMap (.symbol .comma :: ·) ++ rest) = true := by
  cases items with
  | nil => exact hrest
  | cons => rfl

omit [Scalar K] in
/-- There are no more items than commas. -/
theorem length_le_more (items : List (List (Token K))) :
    items.length ≤ (items.flatMap (.symbol .comma :: ·)).length := by
  induction items with
  | nil => exact Nat.le_refl _
  | cons item items ih =>
    rw [List.flatMap_cons, List.length_append, List.length_cons, List.length_cons]
    omega

omit [Scalar K] in
/-- An item is no longer than the list. -/
theorem length_le_listed (h : item ∈ items) : item.length ≤ (listedTokens items).length := by
  cases items with
  | nil => cases h
  | cons first items =>
    rw [listedTokens, List.length_append]
    rcases List.mem_cons.1 h with rfl | h
    · omega
    · have hsub : (.symbol .comma :: item).Sublist (items.flatMap (.symbol .comma :: ·)) := by
        rw [List.flatMap_def]
        exact List.sublist_flatten_of_mem (List.mem_map_of_mem h)
      have hlength := hsub.length_le
      rw [List.length_cons] at hlength
      omega

omit [Scalar K] in
/-- The items behind the first one of a list. -/
theorem moreItems_reads (h : List.Forall₂ (ReadsItem p) items as) (hrest : follows 0 rest = true)
    (hend : rest.head?.any (Token.isSymbol .comma) = false) {count : Nat}
    (hcount : items.length ≤ count) :
    Reads (moreItems p count) (items.flatMap (.symbol .comma :: ·)) rest as := by
  induction h generalizing count with
  | nil =>
    cases count with
    | zero => exact .pure _
    | succ count => exact Reads.look (.accept_false hend) (.pure _)
  | @cons item a items as ha _ ih =>
    obtain ⟨count, rfl⟩ : ∃ k, count = k + 1 := by
      rw [List.length_cons] at hcount
      exact ⟨count - 1, by omega⟩
    rw [List.length_cons] at hcount
    have hmore := ih (Nat.le_of_succ_le_succ hcount)
    exact Reads.step .symbol (Reads.bind (ha _ (follows_more hrest)) (Reads.last hmore (.pure _)))

end Items

/-! ## Calls -/

section Expressions

variable {items : List (List (Token K))} {es : List (Expr K)}

/-- With levels of nesting for the whole list there are enough for each of its items. -/
theorem expressions_read (h : List.Forall₂ (ReadsAs 0) items es)
    (hn : 2 * (listedTokens items).length ≤ n) :
    List.Forall₂ (fun item e => ReadsItem (Nest.expression.parserWithin n) item (some e))
      items es := by
  have hlength : ∀ item ∈ items, 2 * item.length ≤ n := fun item hitem =>
    Nat.le_trans (Nat.mul_le_mul_left 2 (length_le_listed hitem)) hn
  exact ((List.forall₂_and_left _ _).2 ⟨hlength, h⟩).imp fun _ _ ⟨hitem, he⟩ rest hrest =>
    he n rest hrest hitem

omit [Scalar K] in
/-- An item that is required. -/
theorem ReadsItem.require {p : Parser K (Option α)} {item : List (Token K)} {a : α}
    {error : Nat → ParseError} (h : ReadsItem p item (some a)) :
    ReadsItem (Parser.require error p) item a := fun rest hrest => .require (h rest hrest)

/-- The arguments of a call. -/
theorem arguments_reads (hS : Unrolls S) (hn : 2 ≤ n) (h : List.Forall₂
      (fun item e => ReadsItem (S n .expression) item (some e)) items es) :
    Reads (arguments (S n)) (wrappedTokens true (listedTokens items)) rest (some es) := by
  have hlist : Reads (expressions (S n) "function") (listedTokens items)
      (.symbol .closeParenthesis :: rest) es := by
    cases h with
    | nil => exact Reads.look (expression_refuses_close hS hn) (.pure _)
    | @cons item e items es he hes =>
      refine Reads.bind (he _ (follows_more rfl)) (Reads.look .remaining (Reads.last
        (moreItems_reads (hes.imp fun _ _ => ReadsItem.require) rfl rfl ?_) (.pure _)))
      rw [List.length_append]
      exact Nat.le_trans (length_le_more items) (Nat.le_add_right _ _)
  exact Reads.step .symbol (Reads.bind hlist (Reads.last .expect (.pure _)))

/-- A call. -/
theorem ReadsOver.call (hS : Unrolls S) (hk : 2 ≤ k) {name : String}
    (h : List.Forall₂ (ReadsOver S k 0) items es)
    (hcall : ∀ rest, Reads (makeCall name es) [] rest e) :
    ReadsOver S (k + 2) atomPrecedence
      (.identifier name :: wrappedTokens true (listedTokens items)) e := by
  intro n rest _ hn
  have hn : k ≤ n := Nat.le_of_add_le_add_right (show k + 2 ≤ n + 2 from hn)
  have hitems := h.imp fun item e he => show ReadsItem (S n .expression) item (some e) from
    fun rest hrest => he n rest hrest hn
  refine operand_behind_numbers rfl rfl <| .firstOf_some ?_
  refine Reads.step (.take? rfl) (Reads.last (arguments_reads hS (by omega) hitems) ?_)
  exact Reads.last (hcall _) (.pure _)

theorem ReadsAs.call {name : String} (h : List.Forall₂ (ReadsAs 0) items es)
    (hcall : ∀ rest, Reads (makeCall name es) [] rest e) :
    ReadsAs atomPrecedence (.identifier name :: wrappedTokens true (listedTokens items)) e := by
  have hlength : (.identifier name :: wrappedTokens true (listedTokens items)).length =
      (listedTokens items).length + 3 := by simp [wrappedTokens]
  have hlevels : ∀ item ∈ items, 2 * item.length ≤ 2 * (listedTokens items).length + 2 :=
    fun item hitem => Nat.le_add_right_of_le (Nat.mul_le_mul_left 2 (length_le_listed hitem))
  have hitems := ((List.forall₂_and_left _ _).2 ⟨hlevels, h⟩).imp fun _ _ hread =>
    ReadsOver.mono hread.1 hread.2
  refine ReadsOver.mono ?_ (ReadsOver.call Nest.parserWithin_unrolls (by omega) hitems hcall)
  omega

/-! ## Vectors and matrices -/

/-- The elements of a vector or of a row. -/
theorem elements_read (h : List.Forall₂ (ReadsAs 0) items es) (hne : items ≠ [])
    (hn : 2 * (listedTokens items).length ≤ n) :
    Reads (elements (Nest.parserWithin n)) (bracedTokens (listedTokens items)) rest
      (some es) := by
  cases expressions_read h hn with
  | nil => exact absurd rfl hne
  | @cons item e items es he hes =>
    refine Reads.step .symbol ?_
    rw [listedTokens, List.append_assoc]
    refine Reads.bind (.require (he _ ?_)) (Reads.look .remaining (Reads.bind
      (moreItems_reads (hes.imp fun _ _ => ReadsItem.require) rfl rfl ?_)
      (Reads.last .expect (.pure _))))
    · rw [List.append_assoc]
      exact follows_more rfl
    · rw [List.length_append, List.length_append]
      have hmore := length_le_more items
      omega

/-- In front of braces an operand is a matrix or a vector. -/
theorem operand_at_brace {self : Nest → Parser K (Option (Expr K))} {found : Option (Expr K)}
    (h : Reads (firstOf [matrix self, vector self]) (.symbol .openBrace :: ts) rest found) :
    Reads (operand self) (.symbol .openBrace :: ts) rest found :=
  operand_behind_numbers rfl rfl <| .firstOf_none (functionOrVariable_refuses rfl) <|
    .firstOf_none (truth_refuses rfl) <| .firstOf_none (text_refuses rfl) <|
    .firstOf_none (parentheses_refuses rfl) h

/-- A vector whose first element begins with no brace. -/
theorem ReadsAs.vector (h : List.Forall₂ (ReadsAs 0) items es) (hne : items ≠ [])
    (hhead : ∀ us, (listedTokens items ++ us).head?.any (Token.isSymbol .openBrace) = false) :
    ReadsAs atomPrecedence (bracedTokens (listedTokens items)) (.vector es) := by
  intro n rest _ hn
  have hlength : (bracedTokens (listedTokens items)).length = (listedTokens items).length + 2 := by
    simp [bracedTokens]
  have hn : 2 * (bracedTokens (listedTokens items)).length ≤ n + 2 := hn
  have hrow : Reads (firstRow (Nest.parserWithin n)) [] (bracedTokens (listedTokens items) ++ rest)
      none := by
    refine Reads.speculate_none [.symbol .openBrace] (Reads.step .symbol (elements_refuses ?_))
    simpa using hhead (.symbol .closeBrace :: rest)
  refine operand_at_brace (.firstOf_none (Reads.look hrow (.pure none)) (.firstOf_some ?_))
  exact Reads.last (elements_read h hne (by omega)) (.pure _)

/-- A matrix. Its first two braces decide for it. -/
theorem ReadsAs.matrix {rows : List (List (List (Token K)))} {ess : List (List (Expr K))}
    (h : List.Forall₂ (List.Forall₂ (ReadsAs 0)) rows ess) (hne : ∀ row ∈ rows, row ≠ [])
    (hbuild : Expr.mkMatrix ess = .ok (.matrix ess)) :
    ReadsAs atomPrecedence
      (bracedTokens (listedTokens (rows.map fun row => bracedTokens (listedTokens row))))
      (.matrix ess) := by
  intro n rest _ hn
  have hlength (row : List (Token K)) : (bracedTokens row).length = row.length + 2 := by
    simp [bracedTokens]
  generalize htokens : rows.map (fun row => bracedTokens (listedTokens row)) = lists at hn ⊢
  have hn : 2 * (bracedTokens (listedTokens lists)).length ≤ n + 2 := hn
  have hrows : List.Forall₂ (fun row es => ReadsItem (elements (Nest.parserWithin n)) row (some es))
      lists ess := by
    have hrow (row : List (List (Token K))) (hrow : row ∈ rows) :
        row ≠ [] ∧ 2 * (listedTokens row).length ≤ n := by
      have hmem : bracedTokens (listedTokens row) ∈ lists := htokens ▸ List.mem_map_of_mem hrow
      have hle := length_le_listed hmem
      rw [hlength] at hle hn
      exact ⟨hne row hrow, by omega⟩
    rw [← htokens, List.forall₂_map_left_iff]
    exact ((List.forall₂_and_left _ _).2 ⟨hrow, h⟩).imp fun _ _ ⟨hrow, hes⟩ _ _ =>
      elements_read hes hrow.1 hrow.2
  cases hrows with
  | nil => cases hbuild
  | @cons row es lists ess hes hmore =>
    have hfirst {us : List (Token K)} (hus : follows 0 us = true) :
        Reads (firstRow (Nest.parserWithin n)) (.symbol .openBrace :: row) us (some es) :=
      Reads.speculate (Reads.step .symbol (hes _ hus))
    have hmatrix : Reads (Grammar.matrix (Nest.parserWithin n)) ((.symbol .openBrace :: row) ++
        (lists.flatMap (.symbol .comma :: ·) ++ [Token.symbol .closeBrace])) rest
        (some (.matrix (es :: ess))) := by
      refine Reads.bind (hfirst ?_) (Reads.look .remaining (Reads.bind
        (moreItems_reads (hmore.imp fun _ _ => ReadsItem.require) rfl rfl ?_)
        (Reads.last .expect ?_)))
      · rw [List.append_assoc]
        exact follows_more rfl
      · rw [List.length_append, List.length_append]
        have hcount := length_le_more lists
        omega
      · rw [hbuild]
        exact Reads.look (.pure _) (.pure _)
    rw [List.cons_append, ← List.append_assoc] at hmatrix
    exact operand_at_brace (.firstOf_some hmatrix)

end Expressions

end Formula

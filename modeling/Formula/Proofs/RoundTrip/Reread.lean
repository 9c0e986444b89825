import Formula.Proofs.Binary64.Shortest
import Formula.Proofs.Result
import Formula.Proofs.RoundTrip.Parsing
import Formula.Proofs.RoundTrip.Text

/-!
# A tree that was read is read back from its text

The lexer and the grammar give trees of a certain sort (`Grammatical Token.IsLexed`). If the
literals of such a tree are finite, its text is cut into its tokens, and the grammar reads these as
the tree, statements, matrices and steps included, unless a node is misread (`Expr.isMisread`).
Doubles are read back from their shortest digits (`Binary64.readsBack`), so that nothing is asked of
the numbers but that they are finite.
-/

namespace Formula

open Scalar (LawfulText ReadsBack)

variable {K : Type} [Scalar K] {s : Bool} {e : Expr K}

namespace Expr

/-- Whether a literal at the node is not finite, which only a numeral beyond all finite numbers
gives. -/
def isUnbounded : Expr K → Bool
  | number value => !Scalar.isFinite value
  | polar magnitude phase => !Scalar.isFinite magnitude || !Scalar.isFinite phase
  | angle x => !Scalar.isFinite x.value
  | _ => false

/-- Whether the tree is a statement that is no expression. -/
def isStatement : Expr K → Bool
  | ifThen _ _ | forLoop _ _ _ _ | whileLoop _ _ | define _ _ | undefine _ => true
  | _ => false

end Expr

/-! ## Nodes of a tree that was read -/

/-- A node with finite literals is legible. -/
theorem Grammatical.isLegible (h : Grammatical Token.IsLexed s e)
    (hfinite : e.isUnbounded = false) : e.IsLegible := by
  cases h with
  | number => exact Bool.not_eq_eq_eq_not.1 hfinite
  | angle unit hx => exact ⟨Bool.not_eq_eq_eq_not.1 hfinite, hx⟩
  | polar negative hm hp =>
    rw [Expr.isUnbounded, Bool.or_eq_false_iff] at hfinite
    exact ⟨⟨Bool.not_eq_eq_eq_not.1 hfinite.1, hm⟩, Bool.not_eq_eq_eq_not.1 hfinite.2⟩
  | string hvalue => exact hvalue
  | var hname => exact hname
  | call hname => exact hname
  | assign op hname => exact hname
  | step op hname => exact hname
  | _ => trivial

/-- The numbers at a node with finite literals are finite and have no sign. -/
theorem Expr.finite_of_mem_numbers [LawfulText K] {a : K} (hfinite : e.isUnbounded = false)
    (ha : a ∈ e.numbers) : Scalar.isFinite a = true ∧ Scalar.isNegative a = false := by
  have hunsigned {x : K} (hx : (!Scalar.isFinite x) = false) :
      Scalar.isFinite (Scalar.unsigned x) = true ∧
        Scalar.isNegative (Scalar.unsigned x) = false := by
    have hx := Bool.not_eq_eq_eq_not.1 hx
    rw [Scalar.unsigned]
    split
    · exact ⟨LawfulText.isFinite_abs hx, LawfulText.isNegative_abs x⟩
    · next hsign => exact ⟨hx, Bool.eq_false_iff.2 hsign⟩
  cases e with
  | number value => exact List.mem_singleton.1 ha ▸ hunsigned hfinite
  | angle x => exact List.mem_singleton.1 ha ▸ hunsigned hfinite
  | polar magnitude phase =>
    rw [isUnbounded, Bool.or_eq_false_iff] at hfinite
    rcases List.mem_pair.1 ha with rfl | rfl
    · exact hunsigned hfinite.1
    · exact hunsigned hfinite.2
  | _ => cases ha

/-- A number that was read has no sign. -/
theorem Grammatical.unsigned {x : K} (h : Grammatical Token.IsLexed s (.number x)) :
    Scalar.isNegative x = false := by
  cases h with
  | number hx => exact hx

/-- A node that is not misread is read back. -/
theorem Grammatical.isFaithful (h : Grammatical Token.IsLexed s e) (hread : e.isMisread = false) :
    e.IsFaithful := by
  refine ⟨?_, hread⟩
  rintro x rfl
  exact h.unsigned

/-! ## Whole trees -/

/-- The text of a tree that was read is cut into the tokens of the tree, if finite numbers are read
back and its literals are finite. -/
theorem Grammatical.tokenize_text [LawfulText K] (h : Grammatical Token.IsLexed s e)
    (hnumbers : ∀ a : K, Scalar.isFinite a = true → Scalar.isNegative a = false → ReadsBack a)
    (hfinite : e.occurs Expr.isUnbounded = false) :
    ∃ located, located.map (·.1) = e.tokens ∧ ∀ maxDepth?,
      (parseWithin maxDepth? e.text : Except ParseError (Expr K)) =
        parseTokens located maxDepth? := by
  have hbounded := Expr.everywhere_of_occurs hfinite
  have hlegible : e.Everywhere Expr.IsLegible :=
    h.everywhere.imp₂ (fun _ hnode => hnode.isLegible) hbounded
  have hreads : e.Everywhere fun e => ∀ a ∈ e.numbers, ReadsBack a :=
    hbounded.imp fun _ hnode a ha =>
      have ha := Expr.finite_of_mem_numbers hnode ha
      hnumbers a ha.1 ha.2
  obtain ⟨located, htokenize, hlocated⟩ :=
    Expr.tokenize_recovered (hlegible.imp₂ (fun _ => .mk) hreads)
  refine ⟨located, hlocated, fun maxDepth? => ?_⟩
  rw [parseWithin, Expr.legible_not_whiteSpace hlegible, htokenize]
  rfl

/-- A tree that was read is read back from its text, if finite numbers are, its literals are finite
and none of its nodes is misread. -/
theorem Grammatical.reads_text [LawfulText K] (h : Grammatical Token.IsLexed s e)
    (hnumbers : ∀ a : K, Scalar.isFinite a = true → Scalar.isNegative a = false → ReadsBack a)
    (hfinite : e.occurs Expr.isUnbounded = false) (hread : e.occurs Expr.isMisread = false) :
    parseWithin none e.text = .ok e := by
  have hfaithful : e.Everywhere Expr.IsFaithful :=
    h.everywhere.imp₂ (fun _ hnode => hnode.isFaithful) (Expr.everywhere_of_occurs hread)
  obtain ⟨located, hlocated, hparse⟩ := h.tokenize_text hnumbers hfinite
  rw [hparse]
  exact (h.readsIn hfaithful).statement.parseTokens hlocated

/-! ## Doubles -/

namespace Expr

/-- **Read, written and read back.** A tree that was read from a text, within whatever limit on
nesting, is read back from its own text, if its literals are finite and none of its nodes is
misread: no condition of a statement is a conditional or an assignment, no factorial applies to a
step, and no vector begins with a brace behind its own. -/
theorem parse_text_of_parse {source : String} {maxDepth? : Option Nat} {t : Expr Binary64}
    (h : parseWithin maxDepth? source = .ok t) (hfinite : t.occurs isUnbounded = false)
    (hread : t.occurs isMisread = false) : parseWithin none t.text = .ok t :=
  (grammatical_of_parse h).reads_text (fun _ => Binary64.readsBack) hfinite hread

/-- Whether the text is read as a tree that passes the test. -/
def isReadAs (source : String) (test : Expr Binary64 → Bool) : Bool :=
  (parseWithin none source : Except ParseError (Expr Binary64)).toOption.any test

/-- A text that is read as a tree has this tree. -/
theorem exists_of_isReadAs {source : String} {test : Expr Binary64 → Bool}
    (h : isReadAs source test = true) : ∃ t, parseWithin none source = .ok t ∧ test t = true :=
  Result.ok_of_toOption_any h

/-- Whether the text of the tree is not read at all. -/
def isUnread (t : Expr Binary64) : Bool := !isReadAs t.text fun _ => true

/-- The text of a tree that is read back is read. -/
theorem not_isUnread {t : Expr Binary64} (h : parseWithin none t.text = .ok t) :
    t.isUnread = false := by
  rw [isUnread, isReadAs, h]
  rfl

/-! ### Vectors and matrices -/

/-- Whether the tree is a vector or a matrix. -/
def isBracket : Expr K → Bool
  | vector _ | matrix _ => true
  | _ => false

/-- Whether the tree is a vector whose first element begins with a brace. -/
def opensTwice : Expr K → Bool
  | vector (a :: _) => a.opensBrace
  | _ => false

/-- A node that is misread is a vector that begins with two braces, or has to do with a statement or
with a step. -/
theorem opensTwice_of_isMisread (h : e.isMisread = true) : e.opensTwice = true ∨
    e.isStatement = true ∨ ∃ a ∈ e.children, a.isStep = true := by
  cases e with
  | ifThen | forLoop | whileLoop => exact .inr (.inl rfl)
  | unary op a => exact .inr (.inr ⟨a, .head _, (Bool.and_eq_true_iff.1 h).2⟩)
  | vector as =>
    cases as with
    | nil => cases h
    | cons a as => exact .inl h
  | _ => cases h

/-- Without statements and steps only vectors are misread. -/
theorem occurs_isMisread_of_expression
    (hplain : e.occurs (fun e => e.isStatement || e.isStep) = false)
    (hbrace : e.occurs opensTwice = false) : e.occurs isMisread = false := by
  induction e using children_induction with
  | h e ih =>
    obtain ⟨hnode, hchildren⟩ := occurs_eq_false hplain
    obtain ⟨hopens, hbraces⟩ := occurs_eq_false hbrace
    rw [occurs_eq, Bool.or_eq_false_iff, List.any_eq_false]
    refine ⟨Bool.eq_false_iff.2 fun hmisread => ?_, fun c hc => ?_⟩
    · rw [Bool.or_eq_false_iff] at hnode
      rcases opensTwice_of_isMisread hmisread with h | h | ⟨a, ha, h⟩
      · exact Bool.noConfusion (hopens.symm.trans h)
      · exact Bool.noConfusion (hnode.1.symm.trans h)
      · have hstep := (Bool.or_eq_false_iff.1 (occurs_eq_false (hchildren a ha)).1).2
        exact Bool.noConfusion (hstep.symm.trans h)
    · exact Bool.eq_false_iff.1 (ih c hc (hchildren c hc) (hbraces c hc))

/-- **Brackets are read back.** A tree without statements and steps that was read from a text,
whatever vectors and matrices are in it and within whatever limit on nesting, is read back from its
own text, if its literals are finite and no vector begins with a brace behind its own. -/
theorem parse_text_of_parse_brackets {source : String} {maxDepth? : Option Nat}
    {t : Expr Binary64} (h : parseWithin maxDepth? source = .ok t)
    (hfinite : t.occurs isUnbounded = false)
    (hplain : t.occurs (fun e => e.isStatement || e.isStep) = false)
    (hbrace : t.occurs opensTwice = false) : parseWithin none t.text = .ok t :=
  (grammatical_of_parse h).reads_text (fun _ => Binary64.readsBack) hfinite
    (occurs_isMisread_of_expression hplain hbrace)

/-! ### Texts that are read back, and texts that are not -/

/-- A loop and a product of brackets without misread nodes, a conditional as the condition of a
statement, and a vector as the first element of a vector. -/
theorem sample_trees :
    isReadAs "for(s += x++, x := 0, x < 2.5, undef(y))" (fun t =>
        !t.occurs isUnbounded && !t.occurs isMisread) = true ∧
      isReadAs "if((a ? b : c), d)" (fun t => !t.occurs isUnbounded &&
        t.occurs (fun e => e.isStatement || e.isStep) && t.isUnread) = true ∧
      isReadAs "\x7b\x7b1, \x7b2, 3\x7d\x7d, \x7bx, -y\x7d\x7d * \x7b4, \x7b\x7b5\x7d\x7d\x7d"
        (fun t => !t.occurs isUnbounded && !t.occurs (fun e => e.isStatement || e.isStep) &&
          !t.occurs opensTwice && t.occurs isBracket) = true ∧
      isReadAs "\x7b(\x7b1, 2\x7d), 3\x7d" (fun t => !t.occurs isUnbounded &&
        t.occurs isBracket && !t.occurs (fun e => e.isStatement || e.isStep) && t.isUnread) =
          true := by
  decide +kernel

/-- A loop with an assignment, a definition, a step and an undefinition in it. -/
theorem parse_text_of_parse_loop : ∃ t : Expr Binary64,
    parseWithin none "for(s += x++, x := 0, x < 2.5, undef(y))" = .ok t ∧
      t.occurs isUnbounded = false ∧ t.occurs isMisread = false ∧
        parseWithin none t.text = .ok t := by
  obtain ⟨t, hparse, ht⟩ := exists_of_isReadAs sample_trees.1
  rw [Bool.and_eq_true, Bool.not_eq_true', Bool.not_eq_true'] at ht
  exact ⟨t, hparse, ht.1, ht.2, parse_text_of_parse hparse ht.1 ht.2⟩

/-- A conditional as the condition of a statement loses its parentheses. -/
theorem parse_text_condition : ¬∀ (source : String) (t : Expr Binary64),
    parseWithin none source = .ok t → t.occurs isUnbounded = false →
      t.occurs (fun e => e.isStatement || e.isStep) = true →
        parseWithin none t.text = .ok t := by
  intro h
  obtain ⟨t, hparse, ht⟩ := exists_of_isReadAs sample_trees.2.1
  rw [Bool.and_eq_true, Bool.and_eq_true, Bool.not_eq_true'] at ht
  obtain ⟨⟨hfinite, hstatement⟩, hunread⟩ := ht
  exact Bool.noConfusion ((not_isUnread (h _ t hparse hfinite hstatement)).symm.trans hunread)

/-- A matrix with a vector in a row, times a vector with a matrix in its second place. -/
theorem parse_text_of_parse_matrix : ∃ t : Expr Binary64,
    parseWithin none
        "\x7b\x7b1, \x7b2, 3\x7d\x7d, \x7bx, -y\x7d\x7d * \x7b4, \x7b\x7b5\x7d\x7d\x7d" = .ok t ∧
      t.occurs isUnbounded = false ∧ t.occurs (fun e => e.isStatement || e.isStep) = false ∧
        t.occurs opensTwice = false ∧ t.occurs isBracket = true ∧
          parseWithin none t.text = .ok t := by
  obtain ⟨t, hparse, ht⟩ := exists_of_isReadAs sample_trees.2.2.1
  simp only [Bool.and_eq_true, Bool.not_eq_true'] at ht
  obtain ⟨⟨⟨hfinite, hplain⟩, hbrace⟩, hbracket⟩ := ht
  exact ⟨t, hparse, hfinite, hplain, hbrace, hbracket,
    parse_text_of_parse_brackets hparse hfinite hplain hbrace⟩

/-- A vector in the first place of a vector loses its parentheses, and is read as a row. -/
theorem parse_text_first_element : ¬∀ (source : String) (t : Expr Binary64),
    parseWithin none source = .ok t → t.occurs isUnbounded = false →
      t.occurs isBracket = true → t.occurs (fun e => e.isStatement || e.isStep) = false →
        parseWithin none t.text = .ok t := by
  intro h
  obtain ⟨t, hparse, ht⟩ := exists_of_isReadAs sample_trees.2.2.2
  simp only [Bool.and_eq_true, Bool.not_eq_true'] at ht
  obtain ⟨⟨⟨hfinite, hbracket⟩, hplain⟩, hunread⟩ := ht
  exact Bool.noConfusion ((not_isUnread (h _ t hparse hfinite hbracket hplain)).symm.trans hunread)

end Expr

end Formula

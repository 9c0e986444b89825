import Formula.Proofs.RoundTrip.Parsing
import Formula.Proofs.RoundTrip.Text

/-!
# Numbers with a minus sign

A tree that a program builds may hold numbers with a minus sign, which no text reads as numbers.
`Expr.normal` has a prefixed minus in their place and is written in the same tokens
(`Expr.tokens_normal`). The grammar can build it from a writable tree, and none of its nodes is
misread, so the tokens of a writable tree are read as its normal form.
-/

namespace Formula.Expr

open Scalar (LawfulText ReadsBack)

variable {K : Type} [Scalar K] {e : Expr K} {as : List (Expr K)}

/-! ## Lists of trees -/

theorem areWritable_iff : areWritable as = true ↔ ∀ a ∈ as, a.isWritable = true := by
  induction as with
  | nil => simp [areWritable]
  | cons a as ih => simp [areWritable, ih]

theorem hideSign_iff : hideSign as = false ↔ ∀ a ∈ as, a.hidesSign = false := by
  induction as with
  | nil => simp [hideSign]
  | cons a as ih => simp [hideSign, ih]

theorem haveSign_iff : haveSign as = false ↔ ∀ a ∈ as, a.hasSign = false := by
  induction as with
  | nil => simp [haveSign]
  | cons a as ih => simp [haveSign, ih]

theorem literalsOf_eq_flatMap (as : List (Expr K)) : literalsOf as = as.flatMap literals := by
  induction as with
  | nil => rfl
  | cons a as ih => rw [literalsOf, ih, List.flatMap_cons]

theorem normals_eq_map (as : List (Expr K)) : normals as = as.map normal := by
  induction as with
  | nil => rfl
  | cons a as ih => rw [normals, ih, List.map_cons]

/-! ## The text of a writable tree -/

/-- A direct subtree of a writable tree is writable, its literals are literals of the tree, and it
hides and has no sign if the tree does not. -/
theorem isWritable_child {c : Expr K} (h : e.isWritable = true) (hc : c ∈ e.children) :
    c.isWritable = true ∧ (∀ x ∈ c.literals, x ∈ e.literals) ∧
      (e.hidesSign = false → c.hidesSign = false) ∧ (e.hasSign = false → c.hasSign = false) := by
  cases e with
  | unary _ a =>
    obtain rfl : c = a := List.mem_singleton.1 hc
    exact ⟨h, fun _ => id, id, id⟩
  | assign _ _ a =>
    obtain rfl : c = a := List.mem_singleton.1 hc
    exact ⟨(Bool.and_eq_true_iff.1 h).2, fun _ => id, id, id⟩
  | binary _ a b =>
    obtain ⟨ha, hb⟩ := Bool.and_eq_true_iff.1 h
    rcases List.mem_pair.1 hc with rfl | rfl
    · exact ⟨ha, fun _ => List.mem_append_left _, fun hs => (Bool.or_eq_false_iff.1 hs).1,
        fun hs => (Bool.or_eq_false_iff.1 hs).1⟩
    · exact ⟨hb, fun _ => List.mem_append_right _, fun hs => (Bool.or_eq_false_iff.1 hs).2,
        fun hs => (Bool.or_eq_false_iff.1 hs).2⟩
  | ifThenElse condition a b =>
    obtain ⟨h, hb⟩ := Bool.and_eq_true_iff.1 h
    obtain ⟨hcondition, ha⟩ := Bool.and_eq_true_iff.1 h
    simp only [literals, hidesSign, hasSign, List.mem_append, Bool.or_eq_false_iff]
    rcases List.mem_cons.1 hc with rfl | hc
    · exact ⟨hcondition, fun _ hx => .inl (.inl hx), fun hs => hs.1.1, fun hs => hs.1.1⟩
    rcases List.mem_pair.1 hc with rfl | rfl
    · exact ⟨ha, fun _ hx => .inl (.inr hx), fun hs => hs.1.2, fun hs => hs.1.2⟩
    · exact ⟨hb, fun _ => .inr, And.right, And.right⟩
  | builtin _ as | call _ as =>
    have hall := areWritable_iff.1 (Bool.and_eq_true_iff.1 h).2
    simp only [literals, literalsOf_eq_flatMap, hidesSign, hideSign_iff, hasSign, haveSign_iff,
      List.mem_flatMap]
    exact ⟨hall c hc, fun _ hx => ⟨c, hc, hx⟩, fun hs => hs c hc, fun hs => hs c hc⟩
  | number | bool | polar | string | angle | var => cases hc
  | _ => cases h

/-- The nodes of a writable tree that hides no sign are legible. -/
theorem legible_of_isWritable (h : e.isWritable = true) (hsign : e.hidesSign = false) :
    e.Everywhere IsLegible := by
  have hnodes : e.Everywhere fun e => e.isWritable = true ∧ e.hidesSign = false :=
    everywhere_of_children (fun e h c hc =>
      have hchild := isWritable_child h.1 hc
      ⟨hchild.1, hchild.2.2.1 h.2⟩) ⟨h, hsign⟩
  refine hnodes.imp fun e ⟨h, hsign⟩ => ?_
  cases e with
  | number | var => exact h
  | polar =>
    obtain ⟨hmagnitude, hphase⟩ := Bool.and_eq_true_iff.1 h
    exact ⟨⟨hmagnitude, hsign⟩, hphase⟩
  | angle => exact ⟨h, hsign⟩
  | string value =>
    have hquote : (!value.toList.contains '"') = true := h
    show '"' ∉ value.toList
    simpa using hquote
  | call => exact (Bool.and_eq_true_iff.1 (Bool.and_eq_true_iff.1 h).1).1
  | assign => exact (Bool.and_eq_true_iff.1 h).1
  | step => cases h
  | _ => trivial

/-- The numbers at the nodes of a writable tree are its literals. -/
theorem numbers_read_back (h : e.isWritable = true) (hreads : ∀ a ∈ e.literals, ReadsBack a) :
    e.Everywhere fun e => ∀ a ∈ e.numbers, ReadsBack a := by
  have hnodes : e.Everywhere fun e => e.isWritable = true ∧ ∀ a ∈ e.literals, ReadsBack a :=
    everywhere_of_children (fun e h c hc =>
      have hchild := isWritable_child h.1 hc
      ⟨hchild.1, fun a ha => h.2 a (hchild.2.1 a ha)⟩) ⟨h, hreads⟩
  refine hnodes.imp fun e ⟨_, hreads⟩ => ?_
  cases e with
  | number | polar | angle => exact hreads
  | _ => exact fun _ ha => nomatch ha

/-- The tokens of the text of a writable tree. -/
theorem tokenize_text [LawfulText K] (h : e.isWritable = true) (hsign : e.hidesSign = false)
    (hreads : ∀ a ∈ e.literals, ReadsBack a) :
    ∃ located, tokenize e.text = .ok located ∧ located.map (·.1) = e.tokens :=
  tokenize_recovered ((legible_of_isWritable h hsign).imp₂ (fun _ => .mk)
    (numbers_read_back h hreads))

/-- The text of a writable tree is not empty. -/
theorem text_not_whiteSpace [LawfulText K] (h : e.isWritable = true) (hsign : e.hidesSign = false) :
    e.text.toList.all isWhiteSpace = false :=
  legible_not_whiteSpace (legible_of_isWritable h hsign)

/-! ## The tokens of the normal form -/

/-- The normal form binds as strongly as the tree. -/
theorem precedence_normal [LawfulText K] (e : Expr K) : e.normal.precedence = e.precedence := by
  cases e with
  | number x =>
    cases hsign : Scalar.isNegative x with
    | true => simp [normal, precedence, hsign, UnaryOp.precedence, UnaryOp.isPostfixed]
    | false => simp [normal, precedence, hsign]
  | _ => rfl

/-- The normal form is written in the same tokens. -/
theorem tokens_normal [LawfulText K] (e : Expr K) : e.normal.tokens = e.tokens := by
  have hwraps (a : Expr K) (op : UnaryOp) : wrapsOperand op a.normal = wrapsOperand op a := by
    rw [wrapsOperand, wrapsOperand, precedence_normal]
  have hlists {as : List (Expr K)} (ih : ∀ a ∈ as, a.normal.tokens = a.tokens) :
      tokenLists (normals as) = tokenLists as := by
    rw [normals_eq_map, tokenLists_eq_map, tokenLists_eq_map, List.map_map]
    exact List.map_congr_left ih
  induction e using Expr.induction with
  | number x =>
    cases hsign : Scalar.isNegative x with
    | true =>
      have habs := LawfulText.isNegative_abs x
      simp [normal, tokens, signedTokens, Scalar.unsigned, hsign, habs, wrapsOperand, precedence,
        UnaryOp.isPostfixed, UnaryOp.token, wrappedTokens, prefixed_lt_atom]
    | false => simp [normal, hsign]
  | unary op a ha => rw [normal, tokens, tokens, hwraps, ha]
  | binary op a b ha hb =>
    rw [normal, tokens, tokens, ha, hb, wrapsLeft, wrapsLeft, wrapsRight, wrapsRight,
      precedence_normal, precedence_normal]
  | builtin f as has => rw [normal, tokens, tokens, hlists has]
  | call name as has => rw [normal, tokens, tokens, hlists has]
  | ifThenElse c a b hc ha hb => rw [normal, tokens, tokens, hc, ha, hb, precedence_normal]
  | assign op name value hvalue => rw [normal, tokens, tokens, hvalue]
  | _ => rfl

/-- The normal form of a writable tree is writable and has no sign. -/
theorem isWritable_normal [LawfulText K] (h : e.isWritable = true) :
    e.normal.isWritable = true ∧ e.normal.hasSign = false := by
  have harguments {as : List (Expr K)} (ih : ∀ a ∈ as, a.isWritable = true →
      a.normal.isWritable = true ∧ a.normal.hasSign = false) (h : areWritable as = true) :
      areWritable (normals as) = true ∧ haveSign (normals as) = false := by
    rw [areWritable_iff, haveSign_iff, normals_eq_map, List.forall_mem_map, List.forall_mem_map]
    have has := fun a ha => ih a ha (areWritable_iff.1 h a ha)
    exact ⟨fun a ha => (has a ha).1, fun a ha => (has a ha).2⟩
  have hlength (as : List (Expr K)) : (normals as).length = as.length := by
    rw [normals_eq_map, List.length_map]
  induction e using Expr.induction with
  | number x =>
    cases hsign : Scalar.isNegative x with
    | true =>
      simp only [normal, hsign, if_true, isWritable, hasSign]
      exact ⟨LawfulText.isFinite_abs h, LawfulText.isNegative_abs x⟩
    | false =>
      rw [normal, hsign]
      exact ⟨h, hsign⟩
  | bool | polar | string | angle | var => exact ⟨h, rfl⟩
  | unary op a ha => exact ha h
  | binary op a b ha hb =>
    simp only [isWritable, Bool.and_eq_true] at h
    simp [normal, isWritable, hasSign, ha h.1, hb h.2]
  | builtin f as has =>
    simp only [isWritable, Bool.and_eq_true] at h
    simp [normal, isWritable, hasSign, hlength, h.1, harguments has h.2]
  | call name as has =>
    simp only [isWritable, Bool.and_eq_true] at h
    simp only [normal, isWritable, hasSign, h.1, harguments has h.2, Bool.and_self, and_self]
  | ifThenElse c a b hc ha hb =>
    simp only [isWritable, Bool.and_eq_true] at h
    simp [normal, isWritable, hasSign, hc h.1.1, ha h.1.2, hb h.2]
  | assign op name value hvalue =>
    simp only [isWritable, Bool.and_eq_true] at h
    simp [normal, isWritable, hasSign, h.1, hvalue h.2]
  | vector | matrix | ifThen | forLoop | whileLoop | define | undefine | step => cases h

/-- The grammar can build a writable tree. -/
theorem grammatical_of_isWritable (h : e.isWritable = true) :
    Grammatical (fun _ => True) false e := by
  have harguments {as : List (Expr K)} (ih : ∀ a ∈ as, a.isWritable = true →
      Grammatical (fun _ => True) false a) (h : areWritable as = true) :
      ∀ a ∈ as, Grammatical (fun _ => True) false a := fun a ha =>
    ih a ha (areWritable_iff.1 h a ha)
  induction e using Expr.induction with
  | number x => exact .number trivial
  | bool value => exact .bool value
  | polar magnitude phase => exact .polar false trivial trivial
  | string value => exact .string trivial
  | angle x => exact .angle x.unit trivial
  | var name => exact .var trivial
  | unary op a ha => exact .unary op (ha h)
  | binary op a b ha hb =>
    simp only [isWritable, Bool.and_eq_true] at h
    exact .binary op (ha h.1) (hb h.2)
  | builtin f as has =>
    simp only [isWritable, Bool.and_eq_true] at h
    exact .builtin h.1 (harguments has h.2)
  | call name as has =>
    simp only [isWritable, Bool.and_eq_true, Option.isNone_iff_eq_none] at h
    exact .call trivial h.1.2 (harguments has h.2)
  | ifThenElse c a b hc ha hb =>
    simp only [isWritable, Bool.and_eq_true] at h
    exact .ifThenElse (hc h.1.1) (ha h.1.2) (hb h.2)
  | assign op name value hvalue =>
    simp only [isWritable, Bool.and_eq_true] at h
    exact .assign op trivial (hvalue h.2)
  | vector | matrix | ifThen | forLoop | whileLoop | define | undefine | step => cases h

/-- No node of a writable tree is misread. -/
theorem isMisread_of_isWritable (h : e.isWritable = true) : e.isMisread = false := by
  cases e with
  | unary op a =>
    rw [isMisread]
    cases a <;> first | exact Bool.and_false _ | cases h
  | vector | ifThen | forLoop | whileLoop => cases h
  | _ => rfl

/-- The nodes of a writable tree without signs are read back. -/
theorem faithful_of_unsigned (h : e.isWritable = true) (hsign : e.hasSign = false) :
    e.Everywhere IsFaithful := by
  have hnodes : e.Everywhere fun e => e.isWritable = true ∧ e.hasSign = false :=
    everywhere_of_children (fun e h c hc =>
      have hchild := isWritable_child h.1 hc
      ⟨hchild.1, hchild.2.2.2 h.2⟩) ⟨h, hsign⟩
  refine hnodes.imp fun e ⟨h, hsign⟩ => ⟨?_, isMisread_of_isWritable h⟩
  rintro x rfl
  exact hsign

/-- A text that is cut into the tokens of a tree is read as its normal form. -/
theorem parseTokens_tokens [LawfulText K] {located : List (Token K × Nat)}
    (h : e.isWritable = true) (hlocated : located.map (·.1) = e.tokens) :
    parseTokens located none = .ok e.normal := by
  obtain ⟨hnormal, hsign⟩ := isWritable_normal h
  have hreads := (grammatical_of_isWritable hnormal).readsIn (faithful_of_unsigned hnormal hsign)
  exact hreads.statement.parseTokens (by rw [hlocated, tokens_normal])

end Formula.Expr

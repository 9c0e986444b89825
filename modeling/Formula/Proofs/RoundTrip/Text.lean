import Formula.Proofs.Expr
import Formula.Proofs.RoundTrip.Spelling
import Mathlib.Data.List.Forall2

/-!
# The text of a tree is cut into its tokens

`Expr.text_writes`: the lexer cuts the text of a legible tree into `Expr.tokens`, in front of every
rest that a tree is written in front of. A tree is legible if the lexer gives back its names, its
strings and its numbers. The one place where two tokens stand side by side that could grow together
is behind a prefixed operator, and there `Expr.text_begins` tells with which characters an operand
can begin.
-/

namespace Formula.Expr

open Scalar (LawfulText ReadsBack)

variable {K : Type} [Scalar K] {a b c e : Expr K} {rest : List Char} {us : List (Token K)}

/-- Whether the name or the string at a node is one that the lexer gives, and its numbers are
finite and written in digits. -/
def IsLegible : Expr K → Prop
  | number a => Scalar.isFinite a = true
  | polar magnitude phase =>
    (Scalar.isFinite magnitude = true ∧ Scalar.isNegative magnitude = false) ∧
      Scalar.isFinite phase = true
  | angle x => Scalar.isFinite x.value = true ∧ Scalar.isNegative x.value = false
  | string value => '"' ∉ value.toList
  | var name | call name _ | assign _ name _ | step _ name => isIdentifier name = true
  | _ => True

/-- The numbers at a node without their signs. -/
def numbers : Expr K → List K
  | number a => [Scalar.unsigned a]
  | polar magnitude phase => [Scalar.unsigned magnitude, Scalar.unsigned phase]
  | angle x => [Scalar.unsigned x.value]
  | _ => []

/-- A node whose name, string or numbers the lexer recovers from its text. -/
structure IsRecovered (e : Expr K) : Prop where
  legible : e.IsLegible
  reads : ∀ a ∈ e.numbers, ReadsBack a

/-! ## How trees begin -/

/-- A text in parentheses where a binding strength is asked for begins as one of this strength. -/
theorem parenthesized_begins (wrap : Bool) {p : Nat} (h : begins e.precedence e.text.toList = true)
    (hwrap : wrap = false → p ≤ e.precedence) :
    begins p (parenthesized wrap e.text).toList = true := by
  cases wrap with
  | true => simp [parenthesized, begins, beginsText]
  | false => exact begins_mono (hwrap rfl) h

/-- The text of a tree begins as its binding strength allows. -/
theorem text_begins [LawfulText K] (he : e.Everywhere IsLegible) :
    begins e.precedence e.text.toList = true := by
  have hname {p : Nat} {name : String} (tail : List Char) (h : isIdentifier name = true)
      (hp : p ≤ atomPrecedence) : begins p (name.toList ++ tail) = true :=
    begins_mono hp (begins_append tail (isIdentifier.begins h))
  induction he with
  | @node e hroot _ ih =>
    cases e with
    | number x =>
      have hfinite : Scalar.isFinite x = true := hroot
      rw [text, precedence]
      cases hsign : Scalar.isNegative x with
      | false => exact (LawfulText.isDecimal_text hfinite hsign).begins
      | true =>
        rw [LawfulText.text_negative hfinite hsign, String.toList_append]
        rfl
    | bool value =>
      have hword : begins atomPrecedence (if value then "true" else "false").toList = true := by
        cases value <;> rfl
      exact hword
    | polar magnitude phase =>
      obtain ⟨⟨hfinite, hsign⟩, -⟩ := hroot
      simp only [text, String.toList_append, List.append_assoc]
      exact begins_append _ (LawfulText.isDecimal_text hfinite hsign).begins
    | string =>
      simp only [text, String.toList_append]
      rfl
    | angle x =>
      obtain ⟨value, unit⟩ := x
      obtain ⟨hfinite, hsign⟩ := hroot
      have hdigits := (LawfulText.isDecimal_text hfinite hsign).begins
      cases unit <;> simp only [text, Angle.text, String.toList_append] <;>
        exact begins_append _ hdigits
    | var name => exact isIdentifier.begins hroot
    | step op name =>
      simp only [text, String.toList_append]
      exact hname _ hroot (Nat.le_refl _)
    | call name as =>
      simp only [text, String.toList_append, List.append_assoc]
      exact hname _ hroot (Nat.le_refl _)
    | assign op name value =>
      simp only [text, String.toList_append, List.append_assoc]
      exact hname _ hroot (Nat.zero_le _)
    | builtin f as =>
      simp only [text, String.toList_append, List.append_assoc]
      exact hname _ (isIdentifier_name f) (Nat.le_refl _)
    | unary op a =>
      cases op with
      | minus | not =>
        simp only [text, UnaryOp.isPostfixed, Bool.false_eq_true, if_false, String.toList_append]
        rfl
      | factorial =>
        have hoperand := parenthesized_begins (wrapsOperand .factorial a)
          (p := postfixedPrecedence) (ih a (.head _)) fun hwrap =>
            Nat.le_of_not_lt (of_decide_eq_false hwrap)
        show begins postfixedPrecedence
          (parenthesized (wrapsOperand .factorial a) (text a) ++ "!").toList = true
        rw [String.toList_append]
        exact begins_append _ hoperand
    | binary op a b =>
      have hleft := parenthesized_begins (wrapsLeft op a) (p := op.precedence)
        (ih a (.head _)) fun hwrap => by
          simp only [wrapsLeft, Bool.or_eq_false_iff, decide_eq_false_iff_not] at hwrap
          exact Nat.le_of_not_lt hwrap.1
      simp only [text, String.toList_append, List.append_assoc]
      exact begins_append _ hleft
    | ifThenElse c a b =>
      have hcondition := parenthesized_begins (c.precedence ≤ conditionalPrecedence)
        (p := conditionalPrecedence) (ih c (.head _)) fun hwrap =>
          Nat.le_of_lt (Nat.lt_of_not_le (of_decide_eq_false hwrap))
      simp only [text, String.toList_append, List.append_assoc]
      exact begins_append _ hcondition
    | define key value =>
      simp only [text, String.toList_append, List.append_assoc]
      exact begins_append _ (begins_mono (Nat.zero_le _) (ih key (.head _)))
    | vector | matrix | ifThen | forLoop | whileLoop | undefine =>
      simp only [text, braced, String.toList_append, List.append_assoc]
      rfl

/-! ## Texts and tokens -/

/-- What is written is also written in parentheses. -/
theorem parenthesized_writes (wrap : Bool) {text : String} {ts : List (Token K)}
    (h : Writes text ts) : Writes (parenthesized wrap text) (wrappedTokens wrap ts) := by
  cases wrap with
  | false => exact h
  | true =>
    intro rest us hrest hus
    have hclosed : Lexes (text.toList ++ ')' :: rest) (ts ++ .symbol .closeParenthesis :: us) :=
      h rfl (lexes_close hus)
    have hopened := lexes_open hclosed
    simpa [parenthesized, wrappedTokens] using hopened

/-- What is written is also written in braces. -/
theorem braced_writes {text : String} {ts : List (Token K)} (h : Writes text ts) :
    Writes (braced text) (bracedTokens ts) := by
  intro rest us _ hus
  have hclosed : Lexes (text.toList ++ '\x7d' :: rest) (ts ++ .symbol .closeBrace :: us) :=
    h rfl (lexes_closeBrace hus)
  have hopened := lexes_openBrace hclosed
  simpa [braced, bracedTokens] using hopened

/-- Texts with commas between them, as characters. -/
theorem commaSeparated_toList (s : String) (ss : List String) :
    (commaSeparated (s :: ss)).toList = s.toList ++ ss.flatMap (',' :: ' ' :: ·.toList) := by
  induction ss generalizing s with
  | nil => simp [commaSeparated]
  | cons t ss ih =>
    have h := ih t
    rw [commaSeparated] at h ⊢
    rw [String.intercalate_cons_cons, String.toList_append, String.toList_append, h]
    simp

/-- Further texts of a list are cut into their tokens, with commas before them. -/
theorem moreTexts_write {ss : List String} {items : List (List (Token K))}
    (h : List.Forall₂ Writes ss items) (hrest : endsText rest = true) (hus : Lexes rest us) :
    endsText (ss.flatMap (',' :: ' ' :: ·.toList) ++ rest) = true ∧
      Lexes (ss.flatMap (',' :: ' ' :: ·.toList) ++ rest)
        (items.flatMap (.symbol .comma :: ·) ++ us) := by
  induction h with
  | nil => exact ⟨hrest, hus⟩
  | @cons s item ss items hs _ ih =>
    have hcomma := lexes_final (s := .comma) (isFinal_punctuation _ (by simp))
      (.blank (c := ' ') rfl (hs ih.1 ih.2))
    have hspelling : Symbol.comma.text.toList = [','] := rfl
    refine ⟨rfl, ?_⟩
    simpa [hspelling] using hcomma

/-- The texts of a list are cut into their tokens. -/
theorem commaSeparated_writes {ss : List String} {items : List (List (Token K))}
    (h : List.Forall₂ Writes ss items) : Writes (commaSeparated ss) (listedTokens items) := by
  intro rest us hrest hus
  cases h with
  | nil => simpa [commaSeparated, listedTokens] using hus
  | @cons s item ss items hs hss =>
    have hmore := moreTexts_write hss hrest hus
    rw [commaSeparated_toList]
    simpa [listedTokens] using hs hmore.1 hmore.2

/-- The texts of trees in a list. -/
theorem texts_write {as : List (Expr K)} (h : ∀ a ∈ as, Writes a.text a.tokens) :
    Writes (commaSeparated (texts as)) (listedTokens (tokenLists as)) := by
  refine commaSeparated_writes ?_
  induction as with
  | nil => exact .nil
  | cons a as ih => exact .cons (h a (.head _)) (ih fun b hb => h b (.tail _ hb))

/-- The texts of the rows of a matrix. -/
theorem rowTexts_write {rows : List (List (Expr K))}
    (h : ∀ row ∈ rows, ∀ a ∈ row, Writes a.text a.tokens) :
    Writes (commaSeparated (rowTexts rows)) (listedTokens (rowTokenLists rows)) := by
  refine commaSeparated_writes ?_
  induction rows with
  | nil => exact .nil
  | cons row rows ih =>
    exact .cons (braced_writes (texts_write (h row (.head _)))) (ih fun r hr => h r (.tail _ hr))

/-! ### One construct at a time -/

section Constructs

attribute [local simp] text tokens

theorem bool_writes (value : Bool) :
    Writes (bool value : Expr K).text (bool value : Expr K).tokens := by
  intro rest us hrest hus
  have hword {w : String} {k : Keyword} (hk : Keyword.ofWord? w = some k) :
      Lexes (w.toList ++ rest) (.keyword k :: us) :=
    lexes_keyword hk (endsNumber_of_endsText hrest).2 hus
  cases value with
  | true => exact hword (w := "true") rfl
  | false => exact hword (w := "false") rfl

theorem string_writes {value : String} (h : '"' ∉ value.toList) :
    Writes (string value : Expr K).text (string value : Expr K).tokens := by
  intro rest us _ hus
  have hstring := (spells_string (K := K) h).lexes hus
  rw [String.ofList_toList] at hstring
  simpa using hstring

/-- A degree sign ends the number in front of it. -/
theorem lexes_degree (h : Lexes rest us) : Lexes ('°' :: rest) (.symbol .degree :: us) :=
  lexes_final (s := .degree) (isFinal_punctuation _ (by simp)) h

theorem polar_writes [LawfulText K] {magnitude phase : K}
    (h : IsRecovered (polar magnitude phase)) :
    Writes (polar magnitude phase).text (polar magnitude phase).tokens := by
  intro rest us _ hus
  obtain ⟨⟨⟨hm, hsign⟩, hp⟩, hreads⟩ := h
  rw [numbers, Scalar.unsigned, hsign] at hreads
  have hphase := lexes_signed hp (hreads _ (.tail _ (.head _))) rfl (lexes_degree hus)
  have hangle : Lexes ('∠' :: ((Scalar.text phase).toList ++ '°' :: rest))
      (.symbol .angle :: (signedTokens phase ++ .symbol .degree :: us)) :=
    lexes_final (s := .angle) (isFinal_punctuation _ (by simp)) hphase
  have hmagnitude := lexes_number hm hsign (hreads _ (.head _)) rfl hangle
  simpa using hmagnitude

theorem angle_writes [LawfulText K] {x : Angle K} (h : IsRecovered (angle x)) :
    Writes (angle x).text (angle x).tokens := by
  intro rest us hrest hus
  obtain ⟨value, unit⟩ := x
  obtain ⟨⟨hx, hsign⟩, hreads⟩ := h
  rw [numbers, Scalar.unsigned, hsign] at hreads
  have hvalue {rest us} (hrest : endsNumber rest = true) (hus : Lexes rest us) :
      Lexes ((Scalar.text value).toList ++ rest) (.number value :: us) :=
    lexes_number hx hsign (hreads _ (.head _)) hrest hus
  have hrest := (endsNumber_of_endsText hrest).2
  cases unit with
  | degree => simpa [Angle.text, AngleUnit.token] using hvalue rfl (lexes_degree hus)
  | radian =>
    have hunit : Lexes (' ' :: ("rad".toList ++ rest)) (.keyword .radian :: us) :=
      .blank rfl (lexes_keyword rfl hrest hus)
    simpa [Angle.text, AngleUnit.token] using hvalue rfl hunit
  | gradian =>
    have hunit : Lexes (' ' :: ("grad".toList ++ rest)) (.keyword .gradian :: us) :=
      .blank rfl (lexes_keyword rfl hrest hus)
    simpa [Angle.text, AngleUnit.token] using hvalue rfl hunit

/-- Behind an exclamation mark no longer symbol goes on. -/
theorem endsSymbol_bang (h : endsText rest = true) : endsSymbol ['!'] rest = true := by
  have hall : ([' ', ')', '\x7d', ',', '!'].all fun c => endsSymbol ['!'] [c]) = true := by cbv
  cases rest with
  | nil => rfl
  | cons c rest => exact List.all_eq_true.1 hall c (by simpa [endsText] using h)

/-- A prefixed operator does not grow together with its operand, which begins with no symbol. -/
theorem unary_writes {op : UnaryOp} (hbegins : begins a.precedence a.text.toList = true)
    (ha : Writes a.text a.tokens) : Writes (unary op a).text (unary op a).tokens := by
  intro rest us hrest hus
  have hoperand := parenthesized_writes (wrapsOperand op a) ha
  have hoperand_begins (hop : op.isPostfixed = false) :
      begins (prefixedPrecedence + 1) (parenthesized (wrapsOperand op a) a.text).toList = true := by
    refine parenthesized_begins _ hbegins fun hwrap => ?_
    rw [wrapsOperand, hop] at hwrap
    exact Nat.lt_of_not_le (of_decide_eq_false hwrap)
  cases op with
  | factorial =>
    have hfactorial : Lexes ('!' :: rest) (.symbol .bang :: us) :=
      (spells_symbol (ofChars?_text .bang) (endsSymbol_bang hrest)).lexes hus
    simpa [UnaryOp.isPostfixed, UnaryOp.symbol, UnaryOp.token]
      using hoperand rfl hfactorial
  | minus =>
    have hprefixed := lexes_prefixed (s := .minus) (c := '-') rfl (Nat.lt_succ_self _)
      (begins_append rest (hoperand_begins rfl)) (hoperand hrest hus)
    simpa [UnaryOp.isPostfixed, UnaryOp.symbol, UnaryOp.token] using hprefixed
  | not =>
    have hprefixed := lexes_prefixed (s := .bang) (c := '!') rfl (Nat.lt_succ_self _)
      (begins_append rest (hoperand_begins rfl)) (hoperand hrest hus)
    simpa [UnaryOp.isPostfixed, UnaryOp.symbol, UnaryOp.token] using hprefixed

theorem binary_writes {op : BinaryOp} (ha : Writes a.text a.tokens) (hb : Writes b.text b.tokens) :
    Writes (binary op a b).text (binary op a b).tokens := by
  intro rest us hrest hus
  have hright := parenthesized_writes (wrapsRight op b) hb
  have hleft := parenthesized_writes (wrapsLeft op a) ha
  have hoperator : Lexes (op.symbol.toList ++ ' ' :: _) (op.token :: _) :=
    lexes_operator (hright hrest hus)
  simpa using hleft rfl (.blank (c := ' ') rfl hoperator)

/-- A name with a list in parentheses behind it. -/
theorem call_writes {name text : String} {ts : List (Token K)} (hname : isIdentifier name = true)
    (h : Writes text ts) :
    Writes (name ++ "(" ++ text ++ ")") (.identifier name :: wrappedTokens true ts) := by
  intro rest us _ hus
  have hlist : Lexes (text.toList ++ ')' :: rest) (ts ++ .symbol .closeParenthesis :: us) :=
    h rfl (lexes_close hus)
  have hcall := lexes_identifier hname rfl (lexes_open hlist)
  simpa [wrappedTokens] using hcall

/-- A keyword with a list in parentheses behind it. -/
theorem keyword_writes (word : String) {text : String} {k : Keyword} {ts : List (Token K)}
    (hword : Keyword.ofWord? word = some k) (h : Writes text ts) :
    Writes (word ++ "(" ++ text ++ ")") (.keyword k :: wrappedTokens true ts) := by
  intro rest us _ hus
  have hlist : Lexes (text.toList ++ ')' :: rest) (ts ++ .symbol .closeParenthesis :: us) :=
    h rfl (lexes_close hus)
  have hstatement := lexes_keyword hword rfl (lexes_open hlist)
  simpa [wrappedTokens] using hstatement

theorem ifThenElse_writes (hc : Writes c.text c.tokens) (ha : Writes a.text a.tokens)
    (hb : Writes b.text b.tokens) : Writes (ifThenElse c a b).text (ifThenElse c a b).tokens := by
  intro rest us hrest hus
  have hcondition := parenthesized_writes (c.precedence ≤ conditionalPrecedence) hc
  have hno : Lexes (':' :: ' ' :: (b.text.toList ++ rest)) (.symbol .colon :: (b.tokens ++ us)) :=
    lexes_symbol_blank (s := .colon) (hb hrest hus)
  have hyes := ha rfl (.blank (c := ' ') rfl hno)
  have hbranches : Lexes ('?' :: ' ' :: (a.text.toList ++ ' ' :: ':' :: ' ' ::
      (b.text.toList ++ rest))) (.symbol .question :: (a.tokens ++ .symbol .colon ::
      (b.tokens ++ us))) := lexes_symbol_blank (s := .question) hyes
  simpa using hcondition rfl (.blank (c := ' ') rfl hbranches)

theorem assign_writes {op : AssignOp} {name : String} (hname : isIdentifier name = true)
    (ha : Writes a.text a.tokens) : Writes (assign op name a).text (assign op name a).tokens := by
  intro rest us hrest hus
  have hvalue := lexes_symbol_blank (s := .assign op) (ha hrest hus)
  have hassign := lexes_identifier hname rfl (.blank (c := ' ') rfl hvalue)
  have hspelling : (Symbol.assign op).text = op.symbol := rfl
  simpa [hspelling] using hassign

theorem define_writes (ha : Writes a.text a.tokens) (hb : Writes b.text b.tokens) :
    Writes (define a b).text (define a b).tokens := by
  intro rest us hrest hus
  have hvalue : Lexes (':' :: '=' :: ' ' :: (b.text.toList ++ rest))
      (.symbol .becomes :: (b.tokens ++ us)) := lexes_symbol_blank (s := .becomes) (hb hrest hus)
  simpa using ha rfl (.blank (c := ' ') rfl hvalue)

theorem step_writes {op : StepOp} {name : String} (hname : isIdentifier name = true) :
    Writes (step op name : Expr K).text (step op name : Expr K).tokens := by
  intro rest us _ hus
  cases op with
  | increment =>
    have hstep : Lexes ('+' :: '+' :: rest) (.symbol (.step .increment) :: us) :=
      lexes_final (s := .step .increment) (isFinal_punctuation _ (by simp)) hus
    simpa [StepOp.symbol] using lexes_identifier hname rfl hstep
  | decrement =>
    have hstep : Lexes ('-' :: '-' :: rest) (.symbol (.step .decrement) :: us) :=
      lexes_final (s := .step .decrement) (isFinal_punctuation _ (by simp)) hus
    simpa [StepOp.symbol] using lexes_identifier hname rfl hstep

end Constructs

/-! ### The induction over the tree -/

/-- **The text of a tree is cut into its tokens**, if the lexer recovers what its nodes hold. -/
theorem text_writes [LawfulText K] (he : e.Everywhere IsRecovered) : Writes e.text e.tokens := by
  induction he with
  | @node e hroot hchildren ih =>
    cases e with
    | number x =>
      intro rest us hrest hus
      have hend := (endsNumber_of_endsText hrest).1
      exact lexes_signed hroot.legible (hroot.reads _ (.head _)) hend hus
    | bool value => exact bool_writes value
    | polar => exact polar_writes hroot
    | string => exact string_writes hroot.legible
    | angle => exact angle_writes hroot
    | var name =>
      intro rest us hrest hus
      exact lexes_identifier hroot.legible (endsNumber_of_endsText hrest).2 hus
    | step => exact step_writes hroot.legible
    | unary op a =>
      have hlegible := (hchildren a (.head _)).imp fun _ h => h.legible
      exact unary_writes (text_begins hlegible) (ih a (.head _))
    | binary op a b => exact binary_writes (ih a (.head _)) (ih b (.tail _ (.head _)))
    | ifThenElse c a b =>
      exact ifThenElse_writes (ih c (.head _)) (ih a (.tail _ (.head _)))
        (ih b (.tail _ (.tail _ (.head _))))
    | assign op name value => exact assign_writes hroot.legible (ih value (.head _))
    | define key value => exact define_writes (ih key (.head _)) (ih value (.tail _ (.head _)))
    | builtin f as =>
      rw [text, tokens]
      exact call_writes (isIdentifier_name f) (texts_write ih)
    | call name as =>
      rw [text, tokens]
      exact call_writes hroot.legible (texts_write ih)
    | vector as =>
      rw [text, tokens]
      exact braced_writes (texts_write ih)
    | matrix rows =>
      rw [text, tokens]
      exact braced_writes (rowTexts_write fun row hrow a ha =>
        ih a (List.mem_flatten.2 ⟨row, hrow, ha⟩))
    | ifThen c a =>
      rw [text, tokens]
      exact keyword_writes "if" rfl <| commaSeparated_writes <|
        .cons (ih c (.head _)) <| .cons (ih a (.tail _ (.head _))) .nil
    | whileLoop body c =>
      rw [text, tokens]
      exact keyword_writes "while" rfl <| commaSeparated_writes <|
        .cons (ih body (.head _)) <| .cons (ih c (.tail _ (.head _))) .nil
    | forLoop body init c iteration =>
      rw [text, tokens]
      exact keyword_writes "for" rfl <| commaSeparated_writes <|
        .cons (ih body (.head _)) <| .cons (ih init (.tail _ (.head _))) <|
        .cons (ih c (.tail _ (.tail _ (.head _)))) <|
        .cons (ih iteration (.tail _ (.tail _ (.tail _ (.head _))))) .nil
    | undefine key =>
      rw [text, tokens]
      exact keyword_writes "undef" rfl (ih key (.head _))

/-- The tokens of the text of a tree. -/
theorem tokenize_recovered [LawfulText K] (he : e.Everywhere IsRecovered) :
    ∃ located, tokenize e.text = .ok located ∧ located.map (·.1) = e.tokens := by
  have hlexes : Lexes (e.text.toList ++ []) (e.tokens ++ []) := text_writes he rfl .nil
  rw [List.append_nil, List.append_nil] at hlexes
  exact hlexes 0

/-- The text of a tree is not empty. -/
theorem legible_not_whiteSpace [LawfulText K] (he : e.Everywhere IsLegible) :
    e.text.toList.all isWhiteSpace = false := by
  have hbegins := text_begins he
  cases htext : e.text.toList with
  | nil => rw [htext] at hbegins; cases hbegins
  | cons c cs =>
    rw [htext] at hbegins
    rw [List.all_cons, isWhiteSpace_of_beginsText hbegins, Bool.false_and]

end Formula.Expr

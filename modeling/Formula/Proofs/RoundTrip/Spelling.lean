import Formula.Proofs.RoundTrip.Tokens

/-!
# Texts in front of a rest

`Writes text ts` says that the lexer cuts a text into tokens, in front of every rest that a tree is
written in front of: a blank, a closing bracket, a comma or an exclamation mark. This module has the
words and symbols of which formulas are made, and the characters with which a formula begins.
-/

namespace Formula

variable {K : Type} [Scalar K]

/-! ## Texts in front of a rest -/

/-- What may stand behind the text of a tree. -/
def endsText (rest : List Char) : Bool := rest.head?.all (· ∈ [' ', ')', '\x7d', ',', '!'])

/-- What ends a text ends a number and a name. -/
theorem endsNumber_of_endsText {rest : List Char} (h : endsText rest = true) :
    endsNumber rest = true ∧ endsWord rest = true := by
  have hall : ([' ', ')', '\x7d', ',', '!'].all fun c =>
      endsNumber [c] && endsWord [c]) = true := by decide
  cases rest with
  | nil => exact ⟨rfl, rfl⟩
  | cons c rest =>
    exact Bool.and_eq_true_iff.1 (List.all_eq_true.1 hall c (by simpa [endsText] using h))

/-- The text is cut into the tokens, in front of whatever may stand behind a text. -/
def Writes (text : String) (ts : List (Token K)) : Prop :=
  ∀ ⦃rest : List Char⦄ ⦃us : List (Token K)⦄, endsText rest = true → Lexes rest us →
    Lexes (text.toList ++ rest) (ts ++ us)

/-! ## Symbols and words -/

/-- No symbol goes on with a character if none is spelt with the characters and this one. -/
theorem endsSymbol_cons {cs : List Char} {c : Char} (rest : List Char)
    (h : ∀ s ∈ Symbol.all, ∀ word ∈ s.spellings, ¬cs ++ [c] <+: word.toList) :
    endsSymbol cs (c :: rest) = true := by
  show (!beginsSymbol (cs ++ [c])) = true
  rw [Bool.not_eq_true', Bool.eq_false_iff]
  intro hbegins
  obtain ⟨s, hs, word, hword, hprefix⟩ := beginsSymbol_iff.1 hbegins
  exact h s hs word hword hprefix

/-- No symbol contains a blank. -/
theorem endsSymbol_blank (cs rest : List Char) : endsSymbol cs (' ' :: rest) = true := by
  have hall : ∀ s ∈ Symbol.all, ∀ word ∈ s.spellings, ' ' ∉ word.toList := by decide
  refine endsSymbol_cons rest fun s hs word hword hprefix => ?_
  obtain ⟨tail, htail⟩ := hprefix
  exact hall s hs word hword (by simp [← htail])

/-- Whether every symbol that begins with these characters ends with them. -/
def isFinal (cs : List Char) : Bool :=
  Symbol.all.all fun s => s.spellings.all fun word =>
    !cs.isPrefixOf word.toList || decide (word.toList.length ≤ cs.length)

/-- Nothing goes on with characters that are final. -/
theorem endsSymbol_of_isFinal {cs : List Char} (h : isFinal cs = true) (rest : List Char) :
    endsSymbol cs rest = true := by
  cases rest with
  | nil => rfl
  | cons c rest =>
    refine endsSymbol_cons rest fun s hs word hword hprefix => ?_
    have hcs : cs.isPrefixOf word.toList = true :=
      List.isPrefixOf_iff_prefix.2 ((List.prefix_append cs [c]).trans hprefix)
    have hle := List.all_eq_true.1 (List.all_eq_true.1 h s hs) word hword
    have hlength := hprefix.length_le
    simp [hcs] at hle hlength
    omega

/-- A symbol behind which nothing can go on. -/
theorem lexes_final {s : Symbol} {rest : List Char} {ts : List (Token K)}
    (hs : isFinal s.text.toList = true) (h : Lexes rest ts) :
    Lexes (s.text.toList ++ rest) (.symbol s :: ts) :=
  (spells_symbol (ofChars?_text s) (endsSymbol_of_isFinal hs rest)).lexes h

/-- Brackets, commas, steps, degree signs and angle signs are no part of a longer symbol. -/
theorem isFinal_punctuation : ∀ s ∈ [Symbol.openParenthesis, .closeParenthesis, .openBrace,
    .closeBrace, .comma, .degree, .angle, .step .increment, .step .decrement],
    isFinal s.text.toList = true := by
  rw [← List.all_eq_true]
  cbv

/-- An opening parenthesis. -/
theorem lexes_open {rest : List Char} {ts : List (Token K)} (h : Lexes rest ts) :
    Lexes ('(' :: rest) (.symbol .openParenthesis :: ts) :=
  lexes_final (s := .openParenthesis) (isFinal_punctuation _ (by simp)) h

/-- A closing parenthesis. -/
theorem lexes_close {rest : List Char} {ts : List (Token K)} (h : Lexes rest ts) :
    Lexes (')' :: rest) (.symbol .closeParenthesis :: ts) :=
  lexes_final (s := .closeParenthesis) (isFinal_punctuation _ (by simp)) h

/-- An opening brace. -/
theorem lexes_openBrace {rest : List Char} {ts : List (Token K)} (h : Lexes rest ts) :
    Lexes ('\x7b' :: rest) (.symbol .openBrace :: ts) :=
  lexes_final (s := .openBrace) (isFinal_punctuation _ (by simp)) h

/-- A closing brace. -/
theorem lexes_closeBrace {rest : List Char} {ts : List (Token K)} (h : Lexes rest ts) :
    Lexes ('\x7d' :: rest) (.symbol .closeBrace :: ts) :=
  lexes_final (s := .closeBrace) (isFinal_punctuation _ (by simp)) h

/-- A symbol in any spelling in front of a blank. -/
theorem lexes_spelling_blank {w rest : List Char} {s : Symbol} {ts : List (Token K)}
    (hs : Symbol.ofChars? w = some s) (h : Lexes rest ts) :
    Lexes (w ++ ' ' :: rest) (.symbol s :: ts) :=
  (spells_symbol hs (endsSymbol_blank w rest)).lexes (.blank rfl h)

/-- A symbol in front of a blank. -/
theorem lexes_symbol_blank {s : Symbol} {rest : List Char} {ts : List (Token K)}
    (h : Lexes rest ts) : Lexes (s.text.toList ++ ' ' :: rest) (.symbol s :: ts) :=
  lexes_spelling_blank (ofChars?_text s) h

/-- A word in front of what ends it. -/
theorem lexes_word {name : String} {rest : List Char} {ts : List (Token K)}
    (hname : isName name.toList = true) (hrest : endsWord rest = true) (h : Lexes rest ts) :
    Lexes (name.toList ++ rest) (wordToken name :: ts) := by
  have hspells := spells_word (K := K) hname hrest
  rw [String.ofList_toList] at hspells
  exact hspells.lexes h

/-- The reserved words are words. -/
theorem isName_of_ofWord? {name : String} {k : Keyword} (h : Keyword.ofWord? name = some k) :
    isName name.toList = true :=
  isName_of_mem_spellings (k := k) (by simpa using List.find?_some h)

/-- A reserved word in front of what ends it. -/
theorem lexes_keyword {name : String} {k : Keyword} {rest : List Char} {ts : List (Token K)}
    (hk : Keyword.ofWord? name = some k) (hrest : endsWord rest = true) (h : Lexes rest ts) :
    Lexes (name.toList ++ rest) (.keyword k :: ts) := by
  have hword := lexes_word (isName_of_ofWord? hk) hrest h
  rwa [wordToken, hk] at hword

/-- An identifier in front of what ends it. -/
theorem lexes_identifier {name : String} {rest : List Char} {ts : List (Token K)}
    (hname : isIdentifier name = true) (hrest : endsWord rest = true) (h : Lexes rest ts) :
    Lexes (name.toList ++ rest) (.identifier name :: ts) := by
  simp only [isIdentifier, Bool.and_eq_true, Option.isNone_iff_eq_none] at hname
  have hword := lexes_word hname.1 hrest h
  rwa [wordToken, hname.2] at hword

/-- The names of the built-in functions are identifiers. -/
theorem isIdentifier_name (f : Builtin) : isIdentifier f.name = true := by
  have h : ∀ f ∈ Builtin.all, isIdentifier f.name = true := by decide
  exact h f f.mem_all

omit [Scalar K] in
/-- A binary operator is a symbol or a keyword under its canonical spelling. -/
theorem BinaryOp.token_spelling (op : BinaryOp) :
    (∃ s : Symbol, op.token = (.symbol s : Token K) ∧ s.text = op.symbol) ∨
      ∃ k : Keyword, op.token = (.keyword k : Token K) ∧ Keyword.ofWord? op.symbol = some k := by
  cases op with
  | xor | nand | nor => exact .inr ⟨_, rfl, rfl⟩
  | _ => exact .inl ⟨_, rfl, rfl⟩

/-- A binary operator in front of a blank. -/
theorem lexes_operator {op : BinaryOp} {rest : List Char} {ts : List (Token K)}
    (h : Lexes rest ts) : Lexes (op.symbol.toList ++ ' ' :: rest) (op.token :: ts) := by
  rcases op.token_spelling (K := K) with ⟨s, htoken, htext⟩ | ⟨k, htoken, hword⟩
  · rw [htoken, ← htext]
    exact lexes_symbol_blank h
  · rw [htoken]
    exact lexes_keyword hword rfl (.blank (c := ' ') rfl h)

/-! ## How texts begin -/

/-- The characters with which a text of a binding strength begins: a loose one may be signed or
prefixed. -/
def beginsText (precedence : Nat) (c : Char) : Bool :=
  c.isDigit || isNameStart c || c = '"' || c = '(' || c = '\x7b' ||
    (precedence ≤ prefixedPrecedence && (c = '-' || c = '!'))

/-- Whether the characters begin like a text of a binding strength. -/
def begins (precedence : Nat) (cs : List Char) : Bool := cs.head?.any (beginsText precedence)

variable {p q : Nat} {c : Char} {cs : List Char}

theorem prefixed_lt_atom : prefixedPrecedence < atomPrecedence := by
  simp [prefixedPrecedence, atomPrecedence]

/-- No text begins with white space. -/
theorem isWhiteSpace_of_beginsText (h : beginsText p c = true) : isWhiteSpace c = false := by
  have hrange : 33 ≤ c.toNat ∧ c.toNat ≤ 123 ∨ 913 ≤ c.toNat ∧ c.toNat ≤ 969 := by
    simp only [beginsText, Bool.or_eq_true, Bool.and_eq_true, decide_eq_true_eq, isNameStart_iff,
      Char.isDigit_iff_toNat] at h
    rcases h with ((((hdigit | (hupper | hlower) | rfl | hsmall | hcapital) | rfl) | rfl) | rfl) |
      ⟨-, rfl | rfl⟩
    · simp at hdigit
      omega
    · omega
    · omega
    · simp
    · omega
    · omega
    all_goals simp
  simp only [isWhiteSpace, Bool.or_eq_false_iff, Bool.and_eq_false_iff, decide_eq_false_iff_not]
  omega

/-- What begins like a tight text begins like a looser one. -/
theorem begins_mono (hpq : p ≤ q) (h : begins q cs = true) : begins p cs = true := by
  cases cs with
  | nil => cases h
  | cons c cs =>
    simp only [begins, beginsText, List.head?_cons, Option.any_some, Bool.or_eq_true,
      Bool.and_eq_true, decide_eq_true_eq] at h ⊢
    exact h.imp_right fun ⟨hq, hc⟩ => ⟨Nat.le_trans hpq hq, hc⟩

/-- A beginning is one whatever stands behind it. -/
theorem begins_append (ds : List Char) (h : begins p cs = true) : begins p (cs ++ ds) = true := by
  cases cs with
  | nil => cases h
  | cons c cs => exact h

/-- No symbol of two characters ends with one that begins an operand. -/
theorem endsSymbol_of_begins (hp : prefixedPrecedence < p) (h : begins p cs = true) :
    endsSymbol [c] cs = true := by
  have hsecond : (Symbol.all.all fun s => s.spellings.all fun word =>
      word.toList[1]?.all (!beginsText atomPrecedence ·)) = true := by decide
  cases cs with
  | nil => rfl
  | cons d cs =>
    have hd : beginsText atomPrecedence d = true := by
      have hprefixed : ¬p ≤ prefixedPrecedence := Nat.not_le_of_lt hp
      have hatom : ¬atomPrecedence ≤ prefixedPrecedence := Nat.not_le_of_lt prefixed_lt_atom
      simpa [begins, beginsText, hprefixed, hatom] using h
    refine endsSymbol_cons cs fun s hs word hword hprefix => ?_
    obtain ⟨tail, htail⟩ := hprefix
    have hnot := List.all_eq_true.1 (List.all_eq_true.1 hsecond s hs) word hword
    rw [← htail] at hnot
    simp [hd] at hnot

/-- A symbol of one character in front of an operand. -/
theorem lexes_prefixed {s : Symbol} {us : List (Token K)} (hs : s.text.toList = [c])
    (hp : prefixedPrecedence < p) (hcs : begins p cs = true) (h : Lexes cs us) :
    Lexes (c :: cs) (.symbol s :: us) := by
  have hends : endsSymbol s.text.toList cs = true := hs ▸ endsSymbol_of_begins hp hcs
  have hsymbol := (spells_symbol (ofChars?_text s) hends).lexes h
  rwa [hs] at hsymbol

/-- Decimal digits begin an operand. -/
theorem IsDecimal.begins (h : IsDecimal cs) : begins atomPrecedence cs = true := by
  obtain ⟨whole, fraction, hne, hwhole, -, rfl⟩ := h
  obtain ⟨c, cs, rfl⟩ := List.exists_cons_of_ne_nil hne
  have hc : c.isDigit = true := hwhole c (.head _)
  simp [Formula.begins, beginsText, hc]

/-- A name begins an operand. -/
theorem isIdentifier.begins {name : String} (h : isIdentifier name = true) :
    begins atomPrecedence name.toList = true := by
  simp only [isIdentifier, isName, Bool.and_eq_true] at h
  cases hname : name.toList with
  | nil => simp [hname] at h
  | cons c cs =>
    have hc : isNameStart c = true := by simpa [hname] using h.1.1
    simp [Formula.begins, beginsText, hc]

/-- A text in parentheses if need be begins like the text, or like an operand. -/
theorem parenthesized_begins (wrap : Bool) {text : String} (h : begins q text.toList = true)
    (hwrap : wrap = false → p ≤ q) : begins p (Expr.parenthesized wrap text).toList = true := by
  cases wrap with
  | true => simp [Expr.parenthesized, begins, beginsText]
  | false => exact begins_mono (hwrap rfl) h

/-! ## Numbers -/

section Numbers

open Scalar (LawfulText ReadsBack)

variable [LawfulText K] {a : K} {rest : List Char} {us : List (Token K)}

/-- A number without a minus sign, in front of what ends it. -/
theorem lexes_number (hfinite : Scalar.isFinite a = true) (hsign : Scalar.isNegative a = false)
    (hreads : ReadsBack a) (hrest : endsNumber rest = true) (h : Lexes rest us) :
    Lexes ((Scalar.text a).toList ++ rest) (.number a :: us) := by
  have hspells := spells_number (K := K) (LawfulText.isDecimal_text hfinite hsign) hrest
  rw [hreads] at hspells
  exact hspells.lexes h

/-- A number of either sign, in front of what ends it. -/
theorem lexes_signed (hfinite : Scalar.isFinite a = true) (hreads : ReadsBack (Scalar.unsigned a))
    (hrest : endsNumber rest = true) (h : Lexes rest us) :
    Lexes ((Scalar.text a).toList ++ rest) (signedTokens a ++ us) := by
  cases hsign : Scalar.isNegative a with
  | false =>
    rw [Scalar.unsigned, hsign] at hreads
    rw [signedTokens, Scalar.unsigned, hsign]
    exact lexes_number hfinite hsign hreads hrest h
  | true =>
    have hfinite' := LawfulText.isFinite_abs hfinite
    have hsign' := LawfulText.isNegative_abs a
    rw [Scalar.unsigned, hsign] at hreads
    rw [signedTokens, Scalar.unsigned, hsign, LawfulText.text_negative hfinite hsign,
      String.toList_append, List.append_assoc]
    have hdigits := (LawfulText.isDecimal_text hfinite' hsign').begins
    have hnumber := lexes_number hfinite' hsign' hreads hrest h
    exact lexes_prefixed rfl prefixed_lt_atom (begins_append rest hdigits) hnumber

end Numbers

end Formula

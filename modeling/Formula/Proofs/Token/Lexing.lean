import Formula.Token.Lexer
import Mathlib.Data.List.Basic
import Mathlib.Data.List.TakeWhile
import Mathlib.Data.String.Basic

/-!
# Lexemes that are read back

`Lexes cs ts` says that the characters `cs` are cut into the tokens `ts`, at whatever byte offset
they start. `Spells word t rest` says that the lexer takes `word` in front of `rest` for the token
`t`. It takes the longest lexeme, so each sort of token is spelled only in front of a rest that does
not continue it: a number in front of no digit, point or letter, a name in front of no character of
a name, a symbol in front of no character that makes it a longer one.
-/

namespace Formula

variable {K : Type} [Scalar K]

/-! ## Cutting a text into tokens -/

/-- The characters are cut into these tokens, wherever they start. -/
def Lexes (cs : List Char) (ts : List (Token K)) : Prop :=
  ∀ offset, ∃ located, tokenizeFrom 0 offset cs = .ok located ∧ located.map (·.1) = ts

/-- The characters that belong to the token before are passed over. -/
theorem tokenizeFrom_pending (n : Nat) : ∀ (cs : List Char) (offset : Nat),
    (tokenizeFrom n offset cs : Except _ (List (Token K × Nat))) =
      tokenizeFrom 0 (offset + String.utf8Len (cs.take n)) (cs.drop n) := by
  induction n with
  | zero => exact fun cs offset => rfl
  | succ n ih =>
    intro cs offset
    cases cs with
    | nil => rfl
    | cons c cs =>
      rw [tokenizeFrom, ih, List.take_succ_cons, List.drop_succ_cons, String.utf8Len_cons,
        Nat.add_assoc, Nat.add_comm c.utf8Size]

theorem Lexes.nil : Lexes [] ([] : List (Token K)) := fun _ => ⟨[], rfl, rfl⟩

/-- Blanks separate tokens. -/
theorem Lexes.blank {c : Char} {cs : List Char} {ts : List (Token K)} (hc : isBlank c = true)
    (h : Lexes cs ts) : Lexes (c :: cs) ts := by
  intro offset
  obtain ⟨located, hlocated, hts⟩ := h (offset + c.utf8Size)
  exact ⟨located, by rw [tokenizeFrom, if_pos hc, hlocated], hts⟩

/-- The lexer takes the word in front of the rest for the token. -/
def Spells (word : List Char) (t : Token K) (rest : List Char) : Prop :=
  ∃ c cs n, word ++ rest = c :: cs ∧ isBlank c = false ∧
    nextToken (c :: cs) = .ok (t, n) ∧ cs.drop (n - 1) = rest

/-- A word is cut off as its token. -/
theorem Spells.lexes {word rest : List Char} {t : Token K} {ts : List (Token K)}
    (h : Spells word t rest) (hrest : Lexes rest ts) : Lexes (word ++ rest) (t :: ts) := by
  obtain ⟨c, cs, n, hcs, hc, hnext, hdrop⟩ := h
  intro offset
  have hpending := tokenizeFrom_pending (K := K) (n - 1) cs (offset + c.utf8Size)
  obtain ⟨located, hlocated, hts⟩ :=
    hrest (offset + c.utf8Size + String.utf8Len (cs.take (n - 1)))
  refine ⟨(t, offset) :: located, ?_, by rw [List.map_cons, hts]⟩
  rw [hcs, tokenizeFrom, if_neg (by simp [hc]), hnext]
  simp only [hpending, hdrop, hlocated, Except.map]

/-- A word that the lexer takes in full. -/
theorem Spells.of_length {c : Char} {cs rest : List Char} {t : Token K} (hc : isBlank c = false)
    (h : nextToken (c :: cs ++ rest) = .ok (t, (c :: cs).length)) : Spells (c :: cs) t rest :=
  ⟨c, cs ++ rest, _, rfl, hc, h, List.drop_left⟩

/-! ## Where a lexeme ends -/

/-- No number goes on with the rest, and no zero in front of it becomes the mark of a base. -/
def endsNumber (rest : List Char) : Bool :=
  rest.head?.all fun c => !c.isDigit && c ≠ '.' && c ≠ 'e' && c ≠ 'E' && (radixOf? c).isNone

/-- No name goes on with the rest. -/
def endsWord (rest : List Char) : Bool := rest.head?.all (!isNameChar ·)

/-- Whether some symbol begins with these characters. -/
def beginsSymbol (cs : List Char) : Bool :=
  Symbol.all.any fun s => s.spellings.any fun word => cs.isPrefixOf word.toList

/-- No symbol goes on with the rest behind these characters. -/
def endsSymbol (cs rest : List Char) : Bool := rest.head?.all fun c => !beginsSymbol (cs ++ [c])

/-- A part whose characters pass a test is taken as far as it goes. -/
theorem takeWhile_append_stop {p : Char → Bool} {cs rest : List Char} (hcs : ∀ c ∈ cs, p c = true)
    (hrest : rest.head?.all (!p ·) = true) : (cs ++ rest).takeWhile p = cs := by
  rw [List.takeWhile_append_of_pos hcs]
  cases rest with
  | nil => simp
  | cons c rest =>
    have hc : p c = false := by simpa using hrest
    rw [List.takeWhile_cons_of_neg (by simp [hc]), List.append_nil]

/-! ## Numbers -/

/-- Digits, perhaps with a point and more digits behind them. -/
def IsDecimal (d : List Char) : Prop :=
  ∃ whole fraction : List Char, whole ≠ [] ∧ (∀ c ∈ whole, c.isDigit = true) ∧
    (∀ c ∈ fraction, c.isDigit = true) ∧
    d = whole ++ if fraction = [] then [] else '.' :: fraction

/-- Where no base is announced behind the first character there is no number in another base. -/
theorem radixLexeme?_eq_none {c : Char} {cs : List Char}
    (h : cs.head?.all fun mark => (radixOf? mark).isNone) : radixLexeme? (c :: cs) = none := by
  unfold radixLexeme?
  split
  · next mark rest heq =>
    cases heq
    have hmark : radixOf? mark = none := by simpa using h
    rw [hmark]
    rfl
  · rfl

/-- No digit announces a base. -/
theorem radixOf?_of_isDigit {c : Char} (hc : c.isDigit = true) : radixOf? c = none := by
  unfold radixOf?
  split
  · next h => rcases h with rfl | rfl <;> cases hc
  · split
    · next h => rcases h with rfl | rfl <;> cases hc
    · split
      · next h => rcases h with rfl | rfl <;> cases hc
      · rfl

/-- No exponent begins behind a number that ends. -/
theorem exponentLexeme_eq_nil {rest : List Char} (h : endsNumber rest = true) :
    exponentLexeme rest = [] := by
  cases rest with
  | nil => rfl
  | cons c rest =>
    have hc : c ≠ 'e' ∧ c ≠ 'E' := by
      simp only [endsNumber, List.head?_cons, Option.all_some, Bool.and_eq_true,
        decide_eq_true_eq] at h
      exact ⟨h.1.1.2, h.1.2⟩
    unfold exponentLexeme
    exact if_neg (by simp [hc])

/-- No fractional part begins behind a number that ends. -/
theorem fractionLexeme_eq_nil {rest : List Char} (h : endsNumber rest = true) :
    fractionLexeme rest = [] := by
  unfold fractionLexeme
  split
  · simp [endsNumber] at h
  · rfl

/-- A decimal number is the longest one in front of a rest that ends it. -/
theorem decimalLexeme_append {d rest : List Char} (hd : IsDecimal d)
    (hrest : endsNumber rest = true) : decimalLexeme (d ++ rest) = d := by
  obtain ⟨whole, fraction, hne, hwhole, hfraction, rfl⟩ := hd
  have hstop : rest.head?.all (!Char.isDigit ·) = true := by
    cases rest with
    | nil => rfl
    | cons c rest => simp [endsNumber] at hrest; simp [hrest]
  by_cases hempty : fraction = []
  · have htake : (whole ++ rest).takeWhile Char.isDigit = whole :=
      takeWhile_append_stop hwhole hstop
    simp [decimalLexeme, hempty, htake, fractionLexeme_eq_nil hrest, exponentLexeme_eq_nil hrest,
      hne]
  · have htake : (whole ++ '.' :: (fraction ++ rest)).takeWhile Char.isDigit = whole :=
      takeWhile_append_stop hwhole rfl
    have hpoint : fractionLexeme ('.' :: (fraction ++ rest)) = '.' :: fraction := by
      have hfrac : (fraction ++ rest).takeWhile Char.isDigit = fraction :=
        takeWhile_append_stop hfraction hstop
      simp [fractionLexeme, hfrac, hempty]
    have hdrop : (whole ++ '.' :: (fraction ++ rest)).drop (whole ++ '.' :: fraction).length
        = rest := by
      have h : whole ++ '.' :: (fraction ++ rest) = (whole ++ '.' :: fraction) ++ rest := by simp
      rw [h, List.drop_left]
    simp only [decimalLexeme, if_neg hempty, List.append_assoc, List.cons_append, htake,
      List.drop_left, hpoint, hdrop, exponentLexeme_eq_nil hrest]
    simp

/-- No digit is a blank. -/
theorem isBlank_of_isDigit {c : Char} (hc : c.isDigit = true) : isBlank c = false := by
  have hall : ([' ', '\t', '\r', '\n', '\x0c'].all fun b => !b.isDigit) = true := by decide
  refine decide_eq_false fun hmem => ?_
  have hnot := List.all_eq_true.1 hall c hmem
  rw [hc] at hnot
  cases hnot

/-- A decimal number in front of a rest that ends it. -/
theorem spells_number {d rest : List Char} (hd : IsDecimal d) (hrest : endsNumber rest = true) :
    Spells d (.number (decimalNumber d) : Token K) rest := by
  have hlexeme := decimalLexeme_append hd hrest
  obtain ⟨whole, fraction, hne, hwhole, hfraction, rfl⟩ := hd
  obtain ⟨c, cs, rfl⟩ := List.exists_cons_of_ne_nil hne
  rw [List.cons_append] at hlexeme ⊢
  refine .of_length (isBlank_of_isDigit (hwhole c (.head _))) ?_
  have hmark : (cs ++ (if fraction = [] then [] else '.' :: fraction) ++ rest).head?.all
      (fun mark => (radixOf? mark).isNone) = true := by
    cases cs with
    | cons m cs =>
      have hm : radixOf? m = none := radixOf?_of_isDigit (hwhole m (.tail _ (.head _)))
      simp [hm]
    | nil =>
      by_cases hempty : fraction = []
      · cases rest with
        | nil => simp [hempty]
        | cons m rest => simp [endsNumber] at hrest; simp [hempty, hrest]
      · rw [if_neg hempty]
        rfl
  have hradix := radixLexeme?_eq_none (c := c) hmark
  rw [List.cons_append] at hlexeme ⊢
  simp only [nextToken, hradix, hlexeme]
  rfl

/-! ### Values -/

/-- A digit in base ten has the value of its character. -/
theorem digitValue?_of_isDigit {c : Char} (hc : c.isDigit = true) :
    digitValue? 10 c = some (c.toNat - '0'.toNat) := by
  have hrange : '0' ≤ c ∧ c ≤ '9' := by simpa [Char.isDigit, Char.le_def] using hc
  have hlow : (48 : Nat) ≤ c.toNat ∧ c.toNat ≤ 57 := Char.isDigit_iff_toNat.1 hc
  rw [digitValue?, if_pos hrange, if_pos]
  show c.toNat - 48 < 10
  omega

/-- The number written by decimal digits. -/
theorem digitsToNat_ten {ds : List Char} (h : ∀ c ∈ ds, c.isDigit = true) :
    digitsToNat 10 ds = Nat.ofDigitChars 10 ds 0 := by
  refine List.foldl_ext _ _ _ fun n c hc => ?_
  rw [digitValue?_of_isDigit (h c hc), Option.getD_some, Nat.mul_comm]

/-- The value of a decimal number without an exponent. -/
theorem decimalValue_eq {whole fraction : List Char} (hwhole : ∀ c ∈ whole, c.isDigit = true)
    (hfraction : ∀ c ∈ fraction, c.isDigit = true) :
    decimalValue (whole ++ if fraction = [] then [] else '.' :: fraction) =
      (Nat.ofDigitChars 10 (whole ++ fraction) 0, -(fraction.length : Int)) := by
  have hne {c mark : Char} (hc : c.isDigit = true) (hmark : mark.isDigit = false) : c ≠ mark := by
    rintro rfl
    rw [hc] at hmark
    cases hmark
  have hdigits := digitsToNat_ten (List.forall_mem_append.2 ⟨hwhole, hfraction⟩)
  have hplain : ∀ c ∈ whole ++ if fraction = [] then [] else '.' :: fraction,
      (!(c == 'e' || c == 'E')) = true := by
    intro c hc
    have hcases : c.isDigit = true ∨ c = '.' := by
      rcases List.mem_append.1 hc with hc | hc
      · exact .inl (hwhole c hc)
      · split at hc
        · cases hc
        · exact (List.mem_cons.1 hc).symm.imp (hfraction c) id
    rcases hcases with hc | rfl
    · have he : c ≠ 'e' := hne hc rfl
      have hE : c ≠ 'E' := hne hc rfl
      simp [he, hE]
    · rfl
  have htake : (whole ++ if fraction = [] then [] else '.' :: fraction).takeWhile (· != '.') =
      whole := by
    refine takeWhile_append_stop (fun c hc => bne_iff_ne.2 (hne (hwhole c hc) rfl)) ?_
    split <;> rfl
  have hdrop : ((whole ++ if fraction = [] then [] else '.' :: fraction).dropWhile
      (· != '.')).drop 1 = fraction := by
    rw [List.dropWhile_append_of_pos fun c hc => bne_iff_ne.2 (hne (hwhole c hc) rfl)]
    split
    · next h => rw [h]; rfl
    · rfl
  rw [decimalValue]
  simp only [List.takeWhile_eq_self_iff.2 hplain, List.dropWhile_eq_nil_iff.2 hplain, htake, hdrop,
    hdigits]
  simp [digitsToNat]

/-! ## Words -/

/-- The characters of a name: a letter, and then letters and digits. -/
def isName (w : List Char) : Bool := w.head?.any isNameStart && w.all isNameChar

/-- A word that the lexer takes for an identifier. -/
def isIdentifier (name : String) : Bool := isName name.toList && (Keyword.ofWord? name).isNone

theorem Keyword.mem_all (k : Keyword) : k ∈ all := by
  cases k with
  | bool value => cases value <;> decide
  | _ => decide

/-- The spellings of keywords are names. -/
theorem isName_of_mem_spellings {word : String} {k : Keyword} (h : word ∈ k.spellings) :
    isName word.toList = true := by
  have hall : ∀ k ∈ Keyword.all, ∀ word ∈ k.spellings, isName word.toList = true := by decide
  exact hall k k.mem_all word h

/-- The characters that begin a name, by their code points: Latin and Greek letters, and `_`. -/
theorem isNameStart_iff {c : Char} : isNameStart c = true ↔
    (65 ≤ c.toNat ∧ c.toNat ≤ 90 ∨ 97 ≤ c.toNat ∧ c.toNat ≤ 122) ∨ c = '_' ∨
      945 ≤ c.toNat ∧ c.toNat ≤ 969 ∨ 913 ≤ c.toNat ∧ c.toNat ≤ 937 := by
  have halpha : c.isAlpha = (decide ('A' ≤ c ∧ c ≤ 'Z') || ('a' ≤ c && c ≤ 'z')) := rfl
  simp [isNameStart, halpha, Char.le_def, UInt32.le_iff_toNat_le, or_assoc]

/-- A name does not begin with a blank, a digit, a point or a quote. -/
theorem not_isDigit_of_isNameStart {c : Char} (hc : isNameStart c = true) :
    c.isDigit = false ∧ isBlank c = false ∧ c ≠ '.' ∧ c ≠ '"' := by
  have hrange : 65 ≤ c.toNat := by
    rcases isNameStart_iff.1 hc with (h | h) | rfl | h | h
    · omega
    · omega
    · simp
    · omega
    · omega
  have hne {b : Char} (hb : b.toNat < 65) : c ≠ b := by
    rintro rfl
    omega
  refine ⟨?_, decide_eq_false fun hmem => ?_, hne (by simp), hne (by simp)⟩
  · rw [Bool.eq_false_iff, ne_eq, Char.isDigit_iff_toNat]
    simp
    omega
  · simp only [List.mem_cons, List.not_mem_nil, or_false] at hmem
    rcases hmem with rfl | rfl | rfl | rfl | rfl <;> simp at hrange

/-- Characters that begin no number begin with no decimal number. -/
theorem decimalLexeme_eq_nil {c : Char} {cs : List Char} (hdigit : c.isDigit = false)
    (hpoint : c ≠ '.') : decimalLexeme (c :: cs) = [] := by
  have hwhole : (c :: cs).takeWhile Char.isDigit = [] :=
    List.takeWhile_cons_of_neg (by simp [hdigit])
  have hfraction : fractionLexeme (c :: cs) = [] := by
    unfold fractionLexeme
    split
    · next heq => cases heq; exact absurd rfl hpoint
    · rfl
  simp [decimalLexeme, hwhole, hfraction]

/-- Characters that begin no number are not taken for one. -/
theorem radixLexeme?_eq_none' {c : Char} {cs : List Char} (hdigit : c.isDigit = false) :
    radixLexeme? (c :: cs) = none := by
  unfold radixLexeme?
  split
  · next heq => cases heq; cases hdigit
  · rfl

/-- A name in front of a rest that ends it. -/
theorem spells_word {w rest : List Char} (hw : isName w = true) (hrest : endsWord rest = true) :
    Spells w (wordToken (String.ofList w) : Token K) rest := by
  simp only [isName, Bool.and_eq_true, List.all_eq_true] at hw
  cases w with
  | nil => simp at hw
  | cons c w =>
    have hc : isNameStart c = true := by simpa using hw.1
    obtain ⟨hdigit, hblank, hpoint, hquote⟩ := not_isDigit_of_isNameStart hc
    have htake : ((c :: w) ++ rest).takeWhile isNameChar = c :: w :=
      takeWhile_append_stop hw.2 hrest
    rw [List.cons_append] at htake
    refine .of_length hblank ?_
    simp only [nextToken, List.cons_append, radixLexeme?_eq_none' hdigit,
      decimalLexeme_eq_nil hdigit hpoint, hc, htake]
    rfl

/-! ## Strings -/

/-- A string without quotes inside, in front of anything. -/
theorem spells_string {body rest : List Char} (hbody : '"' ∉ body) :
    Spells ('"' :: body ++ ['"']) (.string (String.ofList body) : Token K) rest := by
  have htake : (body ++ '"' :: rest).takeWhile (· != '"') = body :=
    takeWhile_append_stop (fun c hc => by simpa using fun h : c = '"' => hbody (h ▸ hc)) rfl
  refine ⟨'"', body ++ '"' :: rest, body.length + 2, by simp, rfl, ?_, ?_⟩
  · have hdigit : Char.isDigit '"' = false := rfl
    have hstart : isNameStart '"' = false := rfl
    simp [nextToken, radixLexeme?_eq_none' hdigit, decimalLexeme_eq_nil hdigit, hstart, htake]
  · have h : body ++ '"' :: rest = (body ++ ['"']) ++ rest := by simp
    rw [h]
    exact List.drop_left' (by simp)

/-! ## Symbols -/

/-- What begins a symbol begins one of its spellings. -/
theorem beginsSymbol_iff {cs : List Char} : beginsSymbol cs = true ↔
    ∃ s ∈ Symbol.all, ∃ word ∈ s.spellings, cs <+: word.toList := by
  simp only [beginsSymbol, List.any_eq_true, List.isPrefixOf_iff_prefix]

/-- Characters that some symbol is spelled with. -/
theorem beginsSymbol_of_ofChars? {cs : List Char} {s : Symbol} (h : Symbol.ofChars? cs = some s) :
    beginsSymbol cs = true := by
  have hspelled := List.find?_some h
  obtain ⟨word, hword, hcs⟩ := List.any_eq_true.1 hspelled
  obtain rfl := beq_iff_eq.1 hcs
  exact beginsSymbol_iff.2 ⟨s, List.mem_of_find?_eq_some h, word, hword, List.prefix_refl _⟩

theorem Symbol.mem_all (s : Symbol) : s ∈ all := by
  cases s with
  | assign op => cases op <;> decide
  | step op => cases op <;> decide
  | _ => decide

/-- A symbol is found by its canonical spelling. -/
theorem ofChars?_text (s : Symbol) : Symbol.ofChars? s.text.toList = some s := by
  have h : ∀ s ∈ Symbol.all, Symbol.ofChars? s.text.toList = some s := by decide
  exact h s s.mem_all

/-- Symbols are spelled with up to three characters, the first of which begins no other lexeme. -/
theorem spelling_of_ofChars? {w : List Char} {s : Symbol} (h : Symbol.ofChars? w = some s) :
    (w.length = 1 ∨ w.length = 2 ∨ w.length = 3) ∧
      w.head?.any fun c => !c.isDigit && !isBlank c && c ≠ '.' && c ≠ '"' && !isNameStart c := by
  have hall : ∀ s ∈ Symbol.all, ∀ word ∈ s.spellings,
      (word.toList.length = 1 ∨ word.toList.length = 2 ∨ word.toList.length = 3) ∧
        word.toList.head?.any fun c => !c.isDigit && !isBlank c && c ≠ '.' && c ≠ '"' &&
          !isNameStart c := by decide
  have hspelled := List.find?_some h
  obtain ⟨word, hword, hw⟩ := List.any_eq_true.1 hspelled
  rw [← beq_iff_eq.1 hw]
  exact hall s s.mem_all word hword

/-- What begins a longer spelling begins a spelling. -/
theorem beginsSymbol_of_append {cs ds : List Char} (h : beginsSymbol (cs ++ ds) = true) :
    beginsSymbol cs = true := by
  obtain ⟨s, hs, word, hword, hprefix⟩ := beginsSymbol_iff.1 h
  exact beginsSymbol_iff.2 ⟨s, hs, word, hword, (List.prefix_append cs ds).trans hprefix⟩

/-- A symbol in front of a rest that does not go on with it is the longest one there. -/
theorem symbolLexeme?_append {w rest : List Char} {s : Symbol} (hs : Symbol.ofChars? w = some s)
    (hrest : endsSymbol w rest = true) :
    ∃ n, symbolLexeme? (w ++ rest) = some (s, n) ∧ (w ++ rest).drop n = rest := by
  obtain ⟨hlength, -⟩ := spelling_of_ofChars? hs
  cases rest with
  | nil =>
    rw [List.append_nil]
    have htake : w.take 3 = w := List.take_of_length_le (by omega)
    refine ⟨3, ?_, List.drop_eq_nil_of_le (by omega)⟩
    rw [symbolLexeme?, List.findSome?_cons, htake, hs]
    rfl
  | cons r rest =>
    have hlong {m : Nat} (hm : w.length < m) :
        Symbol.ofChars? ((w ++ r :: rest).take m) = none := by
      cases hfound : Symbol.ofChars? ((w ++ r :: rest).take m) with
      | none => rfl
      | some s' =>
        obtain ⟨k, rfl⟩ : ∃ k, m = w.length + (k + 1) := ⟨m - w.length - 1, by omega⟩
        have htake : (w ++ r :: rest).take (w.length + (k + 1)) = (w ++ [r]) ++ rest.take k := by
          rw [List.take_length_add_append]
          simp
        have hbegins := beginsSymbol_of_append (htake ▸ beginsSymbol_of_ofChars? hfound)
        simp [endsSymbol, hbegins] at hrest
    have htake : Symbol.ofChars? ((w ++ r :: rest).take w.length) = some s := by
      rw [List.take_left, hs]
    refine ⟨w.length, ?_, List.drop_left⟩
    rcases hlength with h | h | h
    · have h3 := hlong (m := 3) (by omega)
      have h2 := hlong (m := 2) (by omega)
      rw [h] at htake ⊢
      simp [symbolLexeme?, h3, h2, htake]
    · have h3 := hlong (m := 3) (by omega)
      rw [h] at htake ⊢
      simp [symbolLexeme?, h3, htake]
    · rw [h] at htake ⊢
      simp [symbolLexeme?, htake]

/-- A symbol in front of a rest that does not go on with it. -/
theorem spells_symbol {w rest : List Char} {s : Symbol} (hs : Symbol.ofChars? w = some s)
    (hrest : endsSymbol w rest = true) : Spells w (.symbol s : Token K) rest := by
  obtain ⟨n, hlexeme, hdrop⟩ := symbolLexeme?_append hs hrest
  obtain ⟨-, hfirst⟩ := spelling_of_ofChars? hs
  cases w with
  | nil => cases hfirst
  | cons c cs =>
    simp only [List.head?_cons, Option.any_some, Bool.and_eq_true, Bool.not_eq_true',
      decide_eq_true_eq] at hfirst
    obtain ⟨⟨⟨⟨hdigit, hblank⟩, hpoint⟩, hquote⟩, hstart⟩ := hfirst
    refine ⟨c, cs ++ rest, n, rfl, hblank, ?_, ?_⟩
    · rw [List.cons_append] at hlexeme
      simp [nextToken, radixLexeme?_eq_none' hdigit, decimalLexeme_eq_nil hdigit hpoint, hstart,
        hquote, hlexeme]
    · cases n with
      | zero =>
        have h := congrArg List.length hdrop
        simp at h
        omega
      | succ n => exact hdrop

end Formula

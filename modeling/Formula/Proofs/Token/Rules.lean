import Formula.Proofs.Token.Lexing
import Mathlib.Computability.Language

/-!
# The rules of the lexer

`Rule` lists the sorts of lexemes with the regular language of each (`Rule.language`), written as
products, sums and stars of classes of characters, and the token that a word of the sort stands for
(`Rule.token?`). `IsLongest w cs` says that `w` is the longest word of any of these languages at the
start of `cs`. The parts of a decimal number are each cut off as far as they go, and no part is
shorter in a longer number (`Cuts.mul`); so the decimal number that is cut off is the longest one
(`decimalLexeme_isLongest`).
-/

namespace Formula

open scoped Computability

/-! ## Languages -/

/-- The words of one character that passes a test. -/
def oneOf (p : Char → Bool) : Language Char := {w | ∃ c, p c = true ∧ w = [c]}

/-- The words of one or more characters that pass a test. -/
def someOf (p : Char → Bool) : Language Char := oneOf p * (oneOf p)∗

/-- The exponents of decimal numbers. -/
def exponents : Language Char :=
  oneOf (fun c => c = 'e' ∨ c = 'E') * (1 + oneOf (fun c => c = '+' ∨ c = '-')) *
    someOf Char.isDigit

/-- The sorts of lexemes. -/
inductive Rule where
  /-- A decimal number that begins with a digit. -/
  | decimal
  /-- A decimal number that begins with its point. -/
  | fraction
  /-- An integer in another base. -/
  | radix (base : Nat)
  | name
  | string
  | keyword (word : Keyword)
  | symbol (symbol : Symbol)
  /-- What separates tokens. -/
  | blank

/-- The words of a sort. -/
def Rule.language : Rule → Language Char
  | decimal =>
    someOf Char.isDigit * (1 + oneOf (· = '.') * someOf Char.isDigit) * (1 + exponents)
  | fraction => oneOf (· = '.') * someOf Char.isDigit * (1 + exponents)
  | radix base => oneOf (· = '0') * oneOf (radixOf? · = some base) * someOf (isDigitIn base)
  | name => oneOf isNameStart * (oneOf isNameChar)∗
  | string => oneOf (· = '"') * (oneOf (· ≠ '"'))∗ * oneOf (· = '"')
  | keyword k => {w | String.ofList w ∈ k.spellings}
  | symbol s => {w | String.ofList w ∈ s.spellings}
  | blank => someOf isBlank

/-- The token that a word of the sort stands for, if it stands for one. -/
def Rule.token? {K : Type} [Scalar K] : Rule → List Char → Option (Token K)
  | decimal, w | fraction, w => some (.number (decimalNumber w))
  | radix base, w => (Scalar.ofSafeInt? (digitsToNat base (w.drop 2))).map .number
  | name, w => some (.identifier (String.ofList w))
  | string, w => some (.string (String.ofList (w.drop 1).dropLast))
  | keyword k, _ => some (.keyword k)
  | symbol s, _ => some (.symbol s)
  | blank, _ => none

/-- The word stands for the token; a reserved word is no name. -/
def Denotes {K : Type} [Scalar K] (w : List Char) (t : Token K) : Prop :=
  ∃ r : Rule, w ∈ r.language ∧ r.token? w = some t ∧
    (r = .name → ∀ k, w ∉ (Rule.keyword k).language)

/-- A word of some sort. -/
def IsWord (w : List Char) : Prop := ∃ r : Rule, w ∈ r.language

/-- The longest word at the start of the characters. -/
structure IsLongest (w cs : List Char) : Prop where
  isWord : IsWord w
  isStart : w <+: cs
  longest : ∀ {w' : List Char}, IsWord w' → w' <+: cs → w'.length ≤ w.length

section

variable {p : Char → Bool} {w a b cs : List Char} {c : Char} {L M : Language Char}

/-- The words of any number of characters that pass a test. -/
theorem mem_kstar_oneOf : w ∈ (oneOf p)∗ ↔ ∀ c ∈ w, p c = true := by
  rw [Language.mem_kstar]
  constructor
  · rintro ⟨L, rfl, hL⟩ c hc
    obtain ⟨y, hy, hc⟩ := List.mem_flatten.1 hc
    obtain ⟨d, hd, rfl⟩ := hL y hy
    rwa [List.mem_singleton.1 hc]
  · intro h
    refine ⟨w.map ([·]), by rw [← List.flatMap_def, List.flatMap_singleton'], fun y hy => ?_⟩
    obtain ⟨c, hc, rfl⟩ := List.mem_map.1 hy
    exact ⟨c, h c hc, rfl⟩

/-- A character that passes a test, and a word behind it. -/
theorem mem_oneOf_mul : w ∈ oneOf p * L ↔ ∃ c b, p c = true ∧ b ∈ L ∧ w = c :: b := by
  rw [Language.mem_mul]
  constructor
  · rintro ⟨_, ⟨c, hc, rfl⟩, b, hb, rfl⟩
    exact ⟨c, b, hc, hb, rfl⟩
  · rintro ⟨c, b, hc, hb, rfl⟩
    exact ⟨[c], ⟨c, hc, rfl⟩, b, hb, rfl⟩

/-- The words of one or more characters that pass a test. -/
theorem mem_someOf : w ∈ someOf p ↔ w ≠ [] ∧ ∀ c ∈ w, p c = true := by
  rw [someOf, mem_oneOf_mul]
  constructor
  · rintro ⟨c, b, hc, hb, rfl⟩
    exact ⟨List.cons_ne_nil _ _, List.forall_mem_cons.2 ⟨hc, mem_kstar_oneOf.1 hb⟩⟩
  · rintro ⟨hne, hall⟩
    obtain ⟨c, b, rfl⟩ := List.exists_cons_of_ne_nil hne
    obtain ⟨hc, hb⟩ := List.forall_mem_cons.1 hall
    exact ⟨c, b, hc, mem_kstar_oneOf.2 hb, rfl⟩

/-- An optional word. -/
theorem mem_one_add : w ∈ 1 + L ↔ w = [] ∨ w ∈ L := Iff.rfl

/-! ## Parts that are taken as far as they go -/

/-- A start of the characters whose characters pass a test is a start of what is taken. -/
theorem prefix_takeWhile (hall : ∀ c ∈ a, p c = true) (h : a <+: cs) : a <+: cs.takeWhile p := by
  obtain ⟨t, rfl⟩ := h
  rw [List.takeWhile_append_of_pos hall]
  exact List.prefix_append a _

/-- What is taken ends at a character that does not pass the test. -/
theorem takeWhile_eq_of_prefix (hall : ∀ c ∈ a, p c = true) (hc : p c = false)
    (h : a ++ c :: b <+: cs) : cs.takeWhile p = a := by
  obtain ⟨t, rfl⟩ := h
  rw [List.append_assoc]
  exact takeWhile_append_stop hall (by simp [hc])

/-- The function cuts off the longest word of the language, which has a word everywhere. -/
structure Cuts (L : Language Char) (f : List Char → List Char) : Prop where
  isStart (cs : List Char) : f cs <+: cs
  mem (cs : List Char) : f cs ∈ L
  longest {w cs : List Char} : w ∈ L → w <+: cs → w.length ≤ (f cs).length

/-- Characters that pass a test. -/
theorem cuts_takeWhile : Cuts (oneOf p)∗ (List.takeWhile p) where
  isStart _ := List.takeWhile_prefix p
  mem _ := mem_kstar_oneOf.2 fun _ hc => List.all_eq_true.1 List.all_takeWhile _ hc
  longest hw hstart := (prefix_takeWhile (mem_kstar_oneOf.1 hw) hstart).length_le

/-- One word behind another, where no word of the second language goes on with a shorter word of
the first. -/
theorem Cuts.mul {f g : List Char → List Char} (hL : Cuts L f) (hM : Cuts M g)
    (hstop : ∀ {w v cs}, w ∈ L → v ∈ M → v ≠ [] → w ++ v <+: cs → f cs = w) :
    Cuts (L * M) fun cs => f cs ++ g (cs.drop (f cs).length) where
  isStart cs := by
    have hcs := List.prefix_append_drop (hL.isStart cs)
    conv_rhs => rw [hcs]
    exact (List.prefix_append_right_inj _).2 (hM.isStart _)
  mem cs := Language.append_mem_mul (hL.mem cs) (hM.mem _)
  longest {w cs} hw hstart := by
    obtain ⟨a, ha, b, hb, rfl⟩ := Language.mem_mul.1 hw
    rw [List.length_append, List.length_append]
    by_cases hne : b = []
    · have hlength := hL.longest ha ((List.prefix_append a b).trans hstart)
      simp only [hne, List.length_nil]
      omega
    · have heq := hstop ha hb hne hstart
      obtain ⟨t, rfl⟩ := hstart
      have hlength : b.length ≤ (g (b ++ t)).length := hM.longest hb (List.prefix_append b t)
      rw [heq, List.append_assoc, List.drop_left]
      omega

end

/-! ## Decimal numbers -/

section

variable {w v cs : List Char} {c : Char}

/-- The fractional parts of decimal numbers. -/
abbrev fractions : Language Char := oneOf (· = '.') * someOf Char.isDigit

theorem mem_fractions : w ∈ fractions ↔
    ∃ ds, ds ≠ [] ∧ (∀ c ∈ ds, c.isDigit = true) ∧ w = '.' :: ds := by
  rw [mem_oneOf_mul]
  constructor
  · rintro ⟨c, ds, hc, hds, rfl⟩
    obtain rfl : c = '.' := by simpa using hc
    exact ⟨ds, (mem_someOf.1 hds).1, (mem_someOf.1 hds).2, rfl⟩
  · rintro ⟨ds, hne, hds, rfl⟩
    exact ⟨'.', ds, rfl, mem_someOf.2 ⟨hne, hds⟩, rfl⟩

/-- Begins an exponent. -/
def isMark (c : Char) : Bool := c = 'e' ∨ c = 'E'

theorem mem_exponents : w ∈ exponents ↔ ∃ (e : Char) (s ds : List Char), isMark e = true ∧
    (s = [] ∨ s = ['+'] ∨ s = ['-']) ∧ ds ≠ [] ∧ (∀ c ∈ ds, c.isDigit = true) ∧
      w = e :: (s ++ ds) := by
  rw [exponents, mul_assoc, mem_oneOf_mul]
  constructor
  · rintro ⟨e, b, he, hb, rfl⟩
    obtain ⟨s, hs, ds, hds, rfl⟩ := Language.mem_mul.1 hb
    refine ⟨e, s, ds, he, ?_, (mem_someOf.1 hds).1, (mem_someOf.1 hds).2, rfl⟩
    rcases mem_one_add.1 hs with rfl | ⟨c, hc, rfl⟩
    · exact .inl rfl
    · exact .inr (by simpa using hc)
  · rintro ⟨e, s, ds, he, hs, hne, hds, rfl⟩
    refine ⟨e, s ++ ds, he, Language.append_mem_mul (mem_one_add.2 ?_) (mem_someOf.2 ⟨hne, hds⟩),
      rfl⟩
    rcases hs with rfl | rfl | rfl
    · exact .inl rfl
    · exact .inr ⟨'+', rfl, rfl⟩
    · exact .inr ⟨'-', rfl, rfl⟩

/-- A mark is no digit and no point. -/
theorem not_isDigit_of_isMark (h : isMark c = true) : c.isDigit = false ∧ c ≠ '.' := by
  rcases (by simpa [isMark] using h : c = 'e' ∨ c = 'E') with rfl | rfl <;> decide

/-- The longest fractional part. -/
theorem cuts_fractionLexeme : Cuts (1 + fractions) fractionLexeme where
  isStart cs := by
    unfold fractionLexeme
    split
    · dsimp only
      split
      · exact List.nil_prefix
      · exact List.cons_prefix_cons.2 ⟨rfl, List.takeWhile_prefix _⟩
    · exact List.nil_prefix
  mem cs := by
    unfold fractionLexeme
    split
    · dsimp only
      split
      · exact .inl rfl
      · next rest hne =>
        refine .inr (mem_fractions.2 ⟨_, mt List.isEmpty_iff.2 hne, fun c hc => ?_, rfl⟩)
        exact List.all_eq_true.1 List.all_takeWhile c hc
    · exact .inl rfl
  longest {w cs} hw hstart := by
    rcases mem_one_add.1 hw with rfl | hw
    · exact Nat.zero_le _
    obtain ⟨ds, hne, hds, rfl⟩ := mem_fractions.1 hw
    obtain ⟨rest, rfl, hrest⟩ := List.cons_prefix_iff.1 hstart
    have htake := prefix_takeWhile hds hrest
    have hlength := htake.length_le
    have hfound : rest.takeWhile Char.isDigit ≠ [] := fun h => hne (by simpa [h] using htake)
    simp only [fractionLexeme, List.isEmpty_iff, if_neg hfound, List.length_cons]
    omega

/-- An exponent takes its mark, its sign and all digits behind them. -/
theorem exponentLexeme_eq {e : Char} {s rest : List Char} (he : isMark e = true)
    (hs : s = [] ∨ s = ['+'] ∨ s = ['-']) (hne : rest.takeWhile Char.isDigit ≠ []) :
    exponentLexeme (e :: (s ++ rest)) = e :: (s ++ rest.takeWhile Char.isDigit) := by
  have he : e = 'e' ∨ e = 'E' := by simpa [isMark] using he
  rcases hs with rfl | rfl | rfl
  · cases rest with
    | nil => exact absurd rfl hne
    | cons d rest =>
      have hd : ¬(d = '+' ∨ d = '-') := by rintro (rfl | rfl) <;> exact hne rfl
      simp only [exponentLexeme, List.nil_append, if_pos he, if_neg hd, List.isEmpty_iff,
        if_neg hne]
  · simp [exponentLexeme, he, hne]
  · simp [exponentLexeme, he, hne]

/-- What is taken for an exponent is one, or nothing is taken. -/
theorem exponentLexeme_cases (cs : List Char) : exponentLexeme cs = [] ∨
    ∃ e s rest, isMark e = true ∧ (s = [] ∨ s = ['+'] ∨ s = ['-']) ∧
      rest.takeWhile Char.isDigit ≠ [] ∧ cs = e :: (s ++ rest) := by
  unfold exponentLexeme
  split
  · exact .inl rfl
  split
  · next e _ he =>
    have he : isMark e = true := by simpa [isMark] using he
    split
    · next s digits =>
      split
      · next hs =>
        dsimp only
        split
        · exact .inl rfl
        · next hne =>
          exact .inr ⟨e, [s], digits, he, by simpa using hs, mt List.isEmpty_iff.2 hne, rfl⟩
      · dsimp only
        split
        · exact .inl rfl
        · next hne => exact .inr ⟨e, [], s :: digits, he, .inl rfl, mt List.isEmpty_iff.2 hne, rfl⟩
    · exact .inl rfl
  · exact .inl rfl

/-- The longest exponent. -/
theorem cuts_exponentLexeme : Cuts (1 + exponents) exponentLexeme where
  isStart cs := by
    obtain heq | ⟨e, s, rest, he, hs, hne, rfl⟩ := exponentLexeme_cases cs
    · rw [heq]
      exact List.nil_prefix
    · rw [exponentLexeme_eq he hs hne]
      exact List.cons_prefix_cons.2
        ⟨rfl, (List.prefix_append_right_inj s).2 (List.takeWhile_prefix _)⟩
  mem cs := by
    obtain heq | ⟨e, s, rest, he, hs, hne, rfl⟩ := exponentLexeme_cases cs
    · exact .inl heq
    · rw [exponentLexeme_eq he hs hne]
      exact .inr (mem_exponents.2 ⟨e, s, _, he, hs, hne,
        fun c hc => List.all_eq_true.1 List.all_takeWhile c hc, rfl⟩)
  longest {w cs} hw hstart := by
    rcases mem_one_add.1 hw with rfl | hw
    · exact Nat.zero_le _
    obtain ⟨e, s, ds, he, hs, hne, hds, rfl⟩ := mem_exponents.1 hw
    obtain ⟨t, rfl⟩ := hstart
    have htake := prefix_takeWhile hds (List.prefix_append ds t)
    have hfound : (ds ++ t).takeWhile Char.isDigit ≠ [] := fun h => hne (by simpa [h] using htake)
    have hlength := htake.length_le
    rw [List.cons_append, List.append_assoc, exponentLexeme_eq he hs hfound]
    simp only [List.length_cons, List.length_append]
    omega

/-- The digits and the point in front of an exponent. -/
def mantissaLexeme (cs : List Char) : List Char :=
  cs.takeWhile Char.isDigit ++ fractionLexeme (cs.drop (cs.takeWhile Char.isDigit).length)

/-- The digits in front of a fractional part are all digits that there are. -/
theorem cuts_mantissaLexeme : Cuts ((oneOf Char.isDigit)∗ * (1 + fractions)) mantissaLexeme := by
  refine cuts_takeWhile.mul cuts_fractionLexeme fun {w v cs} hw hv hne hstart => ?_
  obtain ⟨ds, -, -, rfl⟩ := mem_fractions.1 ((mem_one_add.1 hv).resolve_left hne)
  exact takeWhile_eq_of_prefix (mem_kstar_oneOf.1 hw) rfl hstart

/-- The longest mantissa in front of a mark. -/
theorem mantissaLexeme_eq (hw : w ∈ (oneOf Char.isDigit)∗ * (1 + fractions))
    (hc : isMark c = true) (hstart : w ++ c :: v <+: cs) : mantissaLexeme cs = w := by
  obtain ⟨hdigit, hpoint⟩ := not_isDigit_of_isMark hc
  obtain ⟨a, ha, f, hf, rfl⟩ := Language.mem_mul.1 hw
  have ha := mem_kstar_oneOf.1 ha
  rcases mem_one_add.1 hf with rfl | hf
  · rw [List.append_nil] at hstart ⊢
    have htake := takeWhile_eq_of_prefix ha hdigit hstart
    obtain ⟨t, rfl⟩ := hstart
    have hnone : fractionLexeme (c :: (v ++ t)) = [] := by
      unfold fractionLexeme
      split
      · next heq => cases heq; exact absurd rfl hpoint
      · rfl
    rw [mantissaLexeme, htake, List.append_assoc, List.drop_left, List.cons_append, hnone,
      List.append_nil]
  · obtain ⟨ds, hne, hds, rfl⟩ := mem_fractions.1 hf
    rw [List.append_assoc] at hstart
    have htake := takeWhile_eq_of_prefix ha (c := '.') rfl hstart
    obtain ⟨t, rfl⟩ := hstart
    have hfraction : (ds ++ c :: v ++ t).takeWhile Char.isDigit = ds :=
      takeWhile_eq_of_prefix hds hdigit (List.prefix_append _ _)
    rw [mantissaLexeme, htake, List.append_assoc, List.drop_left, List.cons_append,
      List.cons_append, fractionLexeme, hfraction, if_neg (mt List.isEmpty_iff.1 hne)]

/-- A decimal number has a mantissa and perhaps an exponent. -/
theorem mem_decimals : w ∈ Rule.decimal.language ∨ w ∈ Rule.fraction.language ↔
    ∃ m e, m ∈ (oneOf Char.isDigit)∗ * (1 + fractions) ∧ m ≠ [] ∧ e ∈ 1 + exponents ∧
      w = m ++ e := by
  constructor
  · rintro (h | h)
    · obtain ⟨m, hm, e, he, rfl⟩ := Language.mem_mul.1 h
      obtain ⟨a, ha, f, hf, rfl⟩ := Language.mem_mul.1 hm
      obtain ⟨hne, ha⟩ := mem_someOf.1 ha
      exact ⟨a ++ f, e, Language.append_mem_mul (mem_kstar_oneOf.2 ha) hf,
        List.append_ne_nil_of_left_ne_nil hne f, he, rfl⟩
    · obtain ⟨f, hf, e, he, rfl⟩ := Language.mem_mul.1 h
      obtain ⟨ds, -, -, rfl⟩ := mem_fractions.1 hf
      exact ⟨_, e, Language.append_mem_mul (a := []) (mem_kstar_oneOf.2 nofun) (.inr hf),
        List.cons_ne_nil _ _, he, rfl⟩
  · rintro ⟨m, e, hm, hne, he, rfl⟩
    obtain ⟨a, ha, f, hf, rfl⟩ := Language.mem_mul.1 hm
    have ha := mem_kstar_oneOf.1 ha
    by_cases hempty : a = []
    · subst hempty
      exact .inr (Language.append_mem_mul ((mem_one_add.1 hf).resolve_left hne) he)
    · exact .inl (Language.append_mem_mul
        (Language.append_mem_mul (mem_someOf.2 ⟨hempty, ha⟩) hf) he)

/-- The decimal number is the longest mantissa with the longest exponent behind it. -/
theorem decimalLexeme_eq : decimalLexeme cs =
    if (mantissaLexeme cs).isEmpty then []
    else mantissaLexeme cs ++ exponentLexeme (cs.drop (mantissaLexeme cs).length) := rfl

/-- The decimal number that is cut off is one, and no longer one is there. -/
theorem decimalLexeme_isLongest (cs : List Char) :
    (decimalLexeme cs <+: cs) ∧
      (decimalLexeme cs ≠ [] → decimalLexeme cs ∈ Rule.decimal.language ∨
        decimalLexeme cs ∈ Rule.fraction.language) ∧
      ∀ {w}, w ∈ Rule.decimal.language ∨ w ∈ Rule.fraction.language → w <+: cs →
        w.length ≤ (decimalLexeme cs).length := by
  -- The exponent belongs to a mantissa that is the longest one.
  have hcuts : Cuts ((oneOf Char.isDigit)∗ * (1 + fractions) * (1 + exponents))
      fun cs => mantissaLexeme cs ++ exponentLexeme (cs.drop (mantissaLexeme cs).length) := by
    refine cuts_mantissaLexeme.mul cuts_exponentLexeme fun {w v cs} hw hv hne hstart => ?_
    obtain ⟨e, s, ds, he, -, -, -, rfl⟩ :=
      mem_exponents.1 ((mem_one_add.1 hv).resolve_left hne)
    exact mantissaLexeme_eq hw he hstart
  rw [decimalLexeme_eq]
  split
  · next hnone =>
    refine ⟨List.nil_prefix, fun h => absurd rfl h, fun {w} hw hstart => ?_⟩
    obtain ⟨m, e, hm, hne, -, rfl⟩ := mem_decimals.1 hw
    have hlength := cuts_mantissaLexeme.longest hm ((List.prefix_append m e).trans hstart)
    rw [List.isEmpty_iff.1 hnone] at hlength
    exact absurd (List.length_eq_zero_iff.1 (Nat.le_zero.1 hlength)) hne
  · next hne =>
    refine ⟨hcuts.isStart cs, fun _ => ?_, fun {w} hw hstart => ?_⟩
    · exact mem_decimals.2 ⟨_, _, cuts_mantissaLexeme.mem cs, mt List.isEmpty_iff.2 hne,
        cuts_exponentLexeme.mem _, rfl⟩
    · obtain ⟨m, e, hm, -, he, rfl⟩ := mem_decimals.1 hw
      exact hcuts.longest (Language.append_mem_mul hm he) hstart

end

/-! ## Words -/

/-- The keyword of a word is the one that it spells; no word spells two. -/
theorem ofWord?_eq_some {word : String} {k : Keyword} :
    Keyword.ofWord? word = some k ↔ word ∈ k.spellings := by
  have hunique : ∀ k ∈ Keyword.all, ∀ word ∈ k.spellings, Keyword.ofWord? word = some k := by
    decide
  constructor
  · intro h
    simpa using List.find?_some h
  · exact hunique k k.mem_all word

/-- The symbol of some characters is the one that they spell; no characters spell two. -/
theorem ofChars?_eq_some {w : List Char} {s : Symbol} :
    Symbol.ofChars? w = some s ↔ String.ofList w ∈ s.spellings := by
  have hunique : ∀ s ∈ Symbol.all, ∀ word ∈ s.spellings,
      Symbol.ofChars? word.toList = some s := by decide
  constructor
  · intro h
    have hspelled := List.find?_some h
    obtain ⟨word, hword, hw⟩ := List.any_eq_true.1 hspelled
    rwa [← beq_iff_eq.1 hw, String.ofList_toList]
  · intro h
    simpa using hunique s s.mem_all _ h

section

variable {r : Rule} {w cs : List Char} {c : Char}

theorem mem_name : w ∈ Rule.name.language ↔ isName w = true := by
  refine mem_oneOf_mul.trans ?_
  constructor
  · rintro ⟨c, b, hc, hb, rfl⟩
    simpa [isName, isNameChar, hc] using mem_kstar_oneOf.1 hb
  · intro h
    obtain ⟨hstart, hall⟩ := Bool.and_eq_true_iff.1 h
    cases w with
    | nil => cases hstart
    | cons c b =>
      exact ⟨c, b, by simpa using hstart,
        mem_kstar_oneOf.2 fun d hd => List.all_eq_true.1 hall d (.tail _ hd), rfl⟩

theorem mem_string :
    w ∈ Rule.string.language ↔ ∃ body, '"' ∉ body ∧ w = '"' :: (body ++ ['"']) := by
  rw [Rule.language, mul_assoc, mem_oneOf_mul]
  constructor
  · rintro ⟨c, b, hc, hb, rfl⟩
    obtain ⟨body, hbody, _, ⟨d, hd, rfl⟩, rfl⟩ := Language.mem_mul.1 hb
    obtain rfl : c = '"' := by simpa using hc
    obtain rfl : d = '"' := by simpa using hd
    exact ⟨body, fun hmem => by simpa using mem_kstar_oneOf.1 hbody _ hmem, rfl⟩
  · rintro ⟨body, hbody, rfl⟩
    refine ⟨'"', body ++ ['"'], rfl, Language.append_mem_mul (mem_kstar_oneOf.2 fun c hc => ?_)
      ⟨'"', rfl, rfl⟩, rfl⟩
    simpa using fun h : c = '"' => hbody (h ▸ hc)

theorem mem_radix {base : Nat} : w ∈ (Rule.radix base).language ↔
    ∃ mark digits, radixOf? mark = some base ∧ digits ≠ [] ∧
      (∀ c ∈ digits, isDigitIn base c = true) ∧ w = '0' :: mark :: digits := by
  rw [Rule.language, mul_assoc, mem_oneOf_mul]
  constructor
  · rintro ⟨c, b, hc, hb, rfl⟩
    obtain ⟨mark, digits, hmark, hdigits, rfl⟩ := mem_oneOf_mul.1 hb
    obtain rfl : c = '0' := by simpa using hc
    obtain ⟨hne, hall⟩ := mem_someOf.1 hdigits
    exact ⟨mark, digits, by simpa using hmark, hne, hall, rfl⟩
  · rintro ⟨mark, digits, hmark, hne, hall, rfl⟩
    exact ⟨'0', mark :: digits, rfl,
      mem_oneOf_mul.2 ⟨mark, digits, by simpa using hmark, mem_someOf.2 ⟨hne, hall⟩, rfl⟩, rfl⟩

end

end Formula

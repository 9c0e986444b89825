import Formula.Proofs.Token.Lexing

/-!
# Digits in another base

A natural number written in a base from two to sixteen has digits of that base only
(`isDigitIn_of_mem_toDigits`), and these write the number (`digitsToNat_toDigits`). Behind a zero
and the mark of the base they are taken for a number literal (`spells_radix`): the decimal number
`0` in front of them is the shorter lexeme.
-/

namespace Formula

variable {K : Type} [Scalar K] {base n : Nat} {c : Char}

/-! ## Written digits -/

/-- A digit that is written in a base has its value there. -/
theorem digitValue?_digitChar {d : Nat} (hbase : base ≤ 16) (hd : d < base) :
    digitValue? base d.digitChar = some d := by
  have hall : ∀ base ≤ 16, ∀ d < base, digitValue? base d.digitChar = some d := by decide +kernel
  exact hall base hbase d hd

/-- The digits of a number in a base, by the base: the last one is the remainder. -/
theorem toDigits_induction {motive : Nat → Prop} (hbase : 1 < base)
    (digit : ∀ n < base, motive n) (more : ∀ n, base ≤ n → motive (n / base) → motive n) (n : Nat) :
    motive n := by
  induction n using Nat.strong_induction_on with
  | h n ih =>
    rcases Nat.lt_or_ge n base with hlt | hge
    · exact digit n hlt
    · exact more n hge (ih _ (Nat.div_lt_self (by omega) hbase))

/-- A number is written in a base with digits of that base. -/
theorem isDigitIn_of_mem_toDigits (hbase : 1 < base) (hle : base ≤ 16) :
    ∀ c ∈ Nat.toDigits base n, isDigitIn base c = true := by
  have hdigit {d : Nat} (hd : d < base) : isDigitIn base d.digitChar = true := by
    rw [isDigitIn, digitValue?_digitChar hle hd]
    rfl
  induction n using toDigits_induction hbase with
  | digit n hn =>
    rw [Nat.toDigits_of_lt_base hn]
    simpa using hdigit hn
  | more n hn ih =>
    rw [Nat.toDigits_of_base_le hbase hn]
    intro c hc
    rcases List.mem_append.1 hc with hc | hc
    · exact ih c hc
    · rw [List.mem_singleton.1 hc]
      exact hdigit (Nat.mod_lt n (by omega))

/-- **The digits of a number in a base write the number.** -/
theorem digitsToNat_toDigits (hbase : 1 < base) (hle : base ≤ 16) :
    digitsToNat base (Nat.toDigits base n) = n := by
  induction n using toDigits_induction hbase with
  | digit n hn =>
    rw [Nat.toDigits_of_lt_base hn]
    simp [digitsToNat, digitValue?_digitChar hle hn]
  | more n hn ih =>
    have hlast := digitValue?_digitChar hle (Nat.mod_lt n (y := base) (by omega))
    rw [digitsToNat] at ih
    rw [Nat.toDigits_of_base_le hbase hn, digitsToNat, List.foldl_append, ih, List.foldl_cons,
      List.foldl_nil, hlast, Option.getD_some]
    exact Nat.div_add_mod' n base

/-! ## Literals behind a mark -/

/-- A mark announces a base between two and sixteen. -/
theorem radixOf?_bounds {mark : Char} (h : radixOf? mark = some base) : 1 < base ∧ base ≤ 16 := by
  unfold radixOf? at h
  split at h
  · cases h
    decide
  · split at h
    · cases h
      decide
    · split at h
      · cases h
        decide
      · cases h

/-- Digits behind the mark of their base, in front of no more of them, are a number literal if the
number is safe. -/
theorem spells_radix {mark : Char} {digits rest : List Char} (hmark : radixOf? mark = some base)
    (hne : digits ≠ []) (hdigits : ∀ c ∈ digits, isDigitIn base c = true)
    (hrest : rest.head?.all (!isDigitIn base ·) = true)
    (hsafe : isSafeInt (digitsToNat base digits) = true) :
    Spells ('0' :: mark :: digits)
      (.number (Scalar.ofInt (digitsToNat base digits : Nat)) : Token K) rest := by
  have htake : (digits ++ rest).takeWhile (isDigitIn base) = digits :=
    takeWhile_append_stop hdigits hrest
  have hlexeme : radixLexeme? ('0' :: mark :: (digits ++ rest)) = some (base, digits) := by
    have hempty : digits.isEmpty = false := List.isEmpty_eq_false_iff.2 hne
    simp only [radixLexeme?, hmark, htake, hempty, Option.bind_eq_bind, Option.bind_some,
      Bool.false_eq_true, if_false]
  refine .of_length rfl ?_
  simp only [nextToken, List.cons_append, hlexeme, Scalar.ofSafeInt?, hsafe, if_true]
  rfl

/-- **A number written in another base is a number literal.** -/
theorem spells_toDigits {mark : Char} {rest : List Char} (hmark : radixOf? mark = some base)
    (hsafe : isSafeInt n = true) (hrest : rest.head?.all (!isDigitIn base ·) = true) :
    Spells ('0' :: mark :: Nat.toDigits base n) (.number (Scalar.ofInt n) : Token K) rest := by
  obtain ⟨hbase, hle⟩ := radixOf?_bounds hmark
  have hvalue := digitsToNat_toDigits (n := n) hbase hle
  have hspells := spells_radix (K := K) hmark Nat.toDigits_ne_nil
    (isDigitIn_of_mem_toDigits (n := n) hbase hle) hrest (by rwa [hvalue])
  rwa [hvalue] at hspells

end Formula

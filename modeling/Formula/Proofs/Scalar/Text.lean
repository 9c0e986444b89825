import Formula.Binary64.Scalar
import Formula.Proofs.Token.Lexing

/-!
# How numbers are written

A finite number without a minus sign is written in decimal digits, and one with a minus sign as its
magnitude behind a minus. `Scalar.LawfulText` states this, and doubles satisfy it. Whether the
digits are read back as the same number is another matter: `Scalar.ReadsBack` says so for one
number.
-/

namespace Formula

/-! ## Scalars -/

/-- Printing the number and reading it gives the number again. -/
def Scalar.ReadsBack {K : Type} [Scalar K] (a : K) : Prop :=
  decimalNumber (Scalar.text a).toList = a

/-- The number without its sign. -/
def Scalar.unsigned {K : Type} [Scalar K] (a : K) : K :=
  if Scalar.isNegative a then Scalar.abs a else a

/-- Finite numbers are written by a sign and decimal digits, and no number made from digits has a
sign. -/
class Scalar.LawfulText (K : Type) [Scalar K] : Prop where
  isFinite_abs {a : K} : Scalar.isFinite a = true → Scalar.isFinite (Scalar.abs a) = true
  isNegative_abs (a : K) : Scalar.isNegative (Scalar.abs a) = false
  neg_abs {a : K} : Scalar.isNegative a = true → -Scalar.abs a = a
  isDecimal_text {a : K} : Scalar.isFinite a = true → Scalar.isNegative a = false →
    IsDecimal (Scalar.text a).toList
  text_negative {a : K} : Scalar.isFinite a = true → Scalar.isNegative a = true →
    Scalar.text a = "-" ++ Scalar.text (Scalar.abs a)
  isNegative_ofInt (n : Nat) : Scalar.isNegative (Scalar.ofInt n : K) = false
  isNegative_ofDecimal (mantissa : Nat) (exponent : Int) :
    Scalar.isNegative (Scalar.ofDecimal mantissa exponent : K) = false

/-! ## Doubles -/

namespace Binary64

variable {x : Binary64}

theorem magnitude_toNat (x : Binary64) : x.magnitude.toNat = x.bits.toNat % 2 ^ 63 := by
  rw [magnitude, UInt64.toNat_and]
  exact Nat.and_two_pow_sub_one_eq_mod _ 63

theorem magnitude_abs (x : Binary64) : x.abs.magnitude = x.magnitude := by
  apply UInt64.toNat_inj.1
  rw [magnitude_toNat, abs, magnitude_toNat, Nat.mod_mod]

theorem isNegative_iff : x.isNegative = true ↔ 2 ^ 63 ≤ x.bits.toNat := by
  rw [isNegative, decide_eq_true_iff, UInt64.le_iff_toNat_le]
  rfl

theorem isNegative_abs (x : Binary64) : x.abs.isNegative = false := by
  rw [Bool.eq_false_iff, Ne, isNegative_iff, abs, magnitude_toNat]
  have := Nat.mod_lt x.bits.toNat (Nat.two_pow_pos 63)
  omega

theorem negate_abs (h : x.isNegative = true) : x.abs.negate = x := by
  have hlow := isNegative_iff.1 h
  have hhigh := x.bits.toNat_lt
  have hbits : x.magnitude ^^^ signMask = x.bits := by
    apply UInt64.toNat_inj.1
    rw [UInt64.toNat_xor, magnitude_toNat]
    show (x.bits.toNat % 2 ^ 63) ^^^ 2 ^ 63 = x.bits.toNat
    apply Nat.eq_of_testBit_eq
    intro i
    rw [Nat.testBit_xor, Nat.testBit_mod_two_pow, Nat.testBit_two_pow]
    rcases Nat.lt_trichotomy i 63 with hi | rfl | hi
    · simp [hi, show 63 ≠ i by omega]
    · have hbit : x.bits.toNat.testBit 63 = true := by
        rw [Nat.testBit_eq_decide_div_mod_eq]
        simp only [decide_eq_true_eq]
        omega
      simp [hbit]
    · have hbit : x.bits.toNat.testBit i = false :=
        Nat.testBit_lt_two_pow (Nat.lt_of_lt_of_le hhigh (Nat.pow_le_pow_right (by omega) hi))
      simp [hbit, show 63 ≠ i by omega]
  rw [negate, abs, hbits]

/-- A finite double and its magnitude have the same parts but for the sign. -/
theorem parts?_abs (h : x.isFinite = true) : ∃ m e, x.parts? = some ⟨x.isNegative, m, e⟩ ∧
    x.abs.parts? = some ⟨false, m, e⟩ := by
  have hfinite : x.magnitude.toNat < 2047 * 2 ^ 52 := by
    have hlt := UInt64.lt_iff_toNat_lt.1 (of_decide_eq_true h)
    exact hlt
  have hfield : x.magnitude.toNat / 2 ^ 52 ≠ 2047 := by omega
  simp only [parts?, magnitude_abs, isNegative_abs, if_neg hfield]
  split
  · exact ⟨_, _, rfl, rfl⟩
  · exact ⟨_, _, rfl, rfl⟩

/-! ### Digits -/

/-- A number written without an exponent is digits, perhaps with a point and more digits: as many
as the exponent says, and all of them together are its digits. -/
theorem positional_toList (d : Decimal) : ∃ whole fraction : List Char, whole ≠ [] ∧
    (∀ c ∈ whole, c.isDigit = true) ∧ (∀ c ∈ fraction, c.isDigit = true) ∧
    d.positional.toList = (whole ++ if fraction = [] then [] else '.' :: fraction) ∧
    Nat.ofDigitChars 10 (whole ++ fraction) 0 = d.digits * 10 ^ d.exponent.toNat ∧
    fraction.length = (-d.exponent).toNat := by
  have hdigits : ∀ c ∈ Nat.toDigits 10 d.digits, c.isDigit = true := fun c hc =>
    Nat.isDigit_of_mem_toDigits (by decide) (by decide) hc
  have hzeros (n : Nat) : ∀ c ∈ List.replicate n '0', c.isDigit = true := by
    intro c hc
    rw [List.eq_of_mem_replicate hc]
    rfl
  have hvalue : Nat.ofDigitChars 10 (Nat.toDigits 10 d.digits) 0 = d.digits :=
    Nat.ofDigitChars_toDigits (by decide) (by decide)
  unfold Decimal.positional
  simp only
  split
  · next hexponent =>
    refine ⟨_, [], ?_, List.forall_mem_append.2 ⟨hdigits, hzeros _⟩, nofun,
      by rw [if_pos rfl, List.append_nil, String.toList_ofList], ?_, ?_⟩
    · simp [Nat.toDigits_ne_nil]
    · rw [List.append_nil, Nat.ofDigitChars_append, hvalue, Nat.ofDigitChars_replicate_zero,
        Nat.mul_comm]
    · rw [List.length_nil]
      omega
  · next hexponent =>
    generalize hplaces : (-d.exponent).toNat = places
    generalize hpadded : List.replicate (places + 1 - (Nat.toDigits 10 d.digits).length) '0' ++
      Nat.toDigits 10 d.digits = padded
    have hall : ∀ c ∈ padded, c.isDigit = true :=
      hpadded ▸ List.forall_mem_append.2 ⟨hzeros _, hdigits⟩
    have hlength : places + 1 ≤ padded.length := by
      rw [← hpadded, List.length_append, List.length_replicate]
      omega
    have hwhole : (padded.take (padded.length - places)).length = padded.length - places := by
      rw [List.length_take]
      omega
    have hfraction : (padded.drop (padded.length - places)).length = places := by
      rw [List.length_drop]
      omega
    refine ⟨padded.take (padded.length - places), padded.drop (padded.length - places),
      List.ne_nil_of_length_pos (by omega), fun c hc => hall c (List.mem_of_mem_take hc),
      fun c hc => hall c (List.mem_of_mem_drop hc), ?_, ?_, hfraction⟩
    · rw [if_neg (List.ne_nil_of_length_pos (by omega)), String.toList_ofList]
    · rw [List.take_append_drop, ← hpadded, Nat.ofDigitChars_append,
        Nat.ofDigitChars_replicate_zero, Nat.mul_zero, hvalue,
        show d.exponent.toNat = 0 by omega, Nat.pow_zero, Nat.mul_one]

theorem isDecimal_positional (d : Decimal) : IsDecimal d.positional.toList := by
  obtain ⟨whole, fraction, hne, hwhole, hfraction, htext, -⟩ := positional_toList d
  exact ⟨whole, fraction, hne, hwhole, hfraction, htext⟩

/-- What is written without an exponent is read as written. -/
theorem decimalValue_positional (d : Decimal) : decimalValue d.positional.toList =
    (d.digits * 10 ^ d.exponent.toNat, -((-d.exponent).toNat : Int)) := by
  obtain ⟨whole, fraction, -, hwhole, hfraction, htext, hvalue, hlength⟩ := positional_toList d
  rw [htext, decimalValue_eq hwhole hfraction, hvalue, hlength]

/-- The digits of a finite double without a sign. -/
theorem isDecimal_text (hfinite : x.isFinite = true) (hsign : x.isNegative = false) :
    IsDecimal x.text.toList := by
  obtain ⟨m, e, hx, -⟩ := parts?_abs hfinite
  rw [text, render, hx, hsign]
  simp only [Bool.false_eq_true, if_false, String.empty_append]
  split
  · exact ⟨['0'], [], List.cons_ne_nil _ _, List.forall_mem_singleton.2 rfl, nofun, rfl⟩
  · exact isDecimal_positional _

/-- A finite double with a sign is written like its magnitude, behind a minus. -/
theorem text_negative (hfinite : x.isFinite = true) (hsign : x.isNegative = true) :
    x.text = "-" ++ x.abs.text := by
  obtain ⟨m, e, hx, habs⟩ := parts?_abs hfinite
  simp [text, render, hx, habs, hsign]

/-! ### Signs -/

/-- Bits up to those of infinity have no sign. -/
theorem isNegative_of_le {n : Nat} (h : n ≤ 2047 * 2 ^ 52) :
    isNegative ⟨UInt64.ofNat n⟩ = false := by
  rw [Bool.eq_false_iff, Ne, isNegative_iff, UInt64.toNat_ofNat']
  have := Nat.mod_le n (2 ^ 64)
  omega

/-- A natural number has no sign. -/
theorem isNegative_ofInt (n : Nat) : (ofInt n).isNegative = false := by
  have hsign : decide ((n : Int) < 0) = false := decide_eq_false (by omega)
  unfold ofInt ofParts
  simp only [hsign, Bool.false_eq_true, if_false]
  split
  · exact isNegative_of_le (Nat.zero_le _)
  · exact isNegative_of_le (Nat.min_le_right _ _)

/-- A number read from digits has no sign. -/
theorem isNegative_ofDecimal (mantissa : Nat) (exponent : Int) :
    (ofDecimal mantissa exponent).isNegative = false := by
  unfold ofDecimal
  dsimp only
  split
  · rfl
  · split
    · rfl
    · exact isNegative_of_le (Nat.min_le_right _ _)

instance : Scalar.LawfulText Binary64 where
  isFinite_abs {a} h := by
    show decide (a.abs.magnitude < infinityBits) = true
    rw [magnitude_abs]
    exact h
  isNegative_abs := isNegative_abs
  neg_abs := negate_abs
  isDecimal_text := isDecimal_text
  text_negative := text_negative
  isNegative_ofInt := isNegative_ofInt
  isNegative_ofDecimal := isNegative_ofDecimal

end Binary64

end Formula

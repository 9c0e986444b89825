import Formula.Binary64.Decimal
import Formula.Proofs.Scalar.Text
import Mathlib.Algebra.Order.Field.Power
import Mathlib.Data.Nat.Log
import Mathlib.Tactic.Linarith
import Mathlib.Tactic.NormNum
import Mathlib.Tactic.Positivity
import Mathlib.Tactic.Ring

/-!
# Reading decimal numbers as doubles

`Binary64.ofDecimal` computes with quotients of natural numbers. Here their values are rationals,
and the result is told from the value alone: a number that lies within half a place of a double, at
half a place only if the last digit of the double is even, is read as this double
(`ofDecimal_eq`). Below a power of two the places are half as long.
-/

namespace Formula.Binary64

/-! ## Values of quotients -/

/-- The quotient as a rational number. -/
def Quotient.value (q : Quotient) : ℚ := (q.num : ℚ) / q.den

variable {q : Quotient} {m n : Nat} {e unit : Int}

theorem Quotient.value_ofDyadic (m : Nat) (e : Int) :
    (Quotient.ofDyadic m e).value = m * (2 : ℚ) ^ e := by
  rw [value, ofDyadic]
  obtain ⟨n, rfl | rfl⟩ := e.eq_nat_or_neg
  · simp [Nat.shiftLeft_eq]
  · simp [Nat.shiftLeft_eq, div_eq_mul_inv]

theorem Quotient.value_inUnits (q : Quotient) (e : Int) :
    (q.inUnits e).value = q.value / (10 : ℚ) ^ e := by
  rw [value, value, inUnits]
  obtain ⟨n, rfl | rfl⟩ := e.eq_nat_or_neg
  · simp [div_div]
  · simp [div_mul_eq_mul_div]

theorem Quotient.value_inBinaryUnits (q : Quotient) (e : Int) :
    (q.inBinaryUnits e).value = q.value / (2 : ℚ) ^ e := by
  rw [value, value, inBinaryUnits]
  obtain ⟨n, rfl | rfl⟩ := e.eq_nat_or_neg
  · simp [div_div, Nat.shiftLeft_eq]
  · simp [div_mul_eq_mul_div, Nat.shiftLeft_eq]

/-- A quotient lies between two natural numbers if its integer part does. -/
theorem Quotient.le_div_iff (hden : 0 < q.den) : n ≤ q.num / q.den ↔ (n : ℚ) ≤ q.value := by
  have hpos : (0 : ℚ) < q.den := Nat.cast_pos.2 hden
  rw [Nat.le_div_iff_mul_le hden, value, le_div_iff₀ hpos]
  norm_cast

theorem Quotient.div_lt_iff (hden : 0 < q.den) : q.num / q.den < n ↔ q.value < n := by
  rw [← not_le, le_div_iff hden, not_le]

/-! ## The nearest integer -/

/-- The nearest integer by its numerators: the bounds are doubled so that a half is a number. -/
theorem Quotient.nearest_eq_of_num (hden : 0 < q.den) (hlow : 2 * (q.den * m) ≤ 2 * q.num + q.den)
    (hhigh : 2 * q.num ≤ 2 * (q.den * m) + q.den)
    (htie : m % 2 = 1 →
      2 * (q.den * m) < 2 * q.num + q.den ∧ 2 * q.num < 2 * (q.den * m) + q.den) :
    q.nearest = m := by
  have hdiv := Nat.div_add_mod q.num q.den
  have hmod := Nat.mod_lt q.num hden
  rw [nearest]
  generalize q.num / q.den = below at *
  generalize q.num % q.den = rest at *
  -- The integer part is the integer itself or the one below.
  have hbelow : below = m ∨ below + 1 = m := by
    have h₁ : below < m + 1 := by
      by_contra h
      have hle := Nat.mul_le_mul_left q.den (Nat.le_of_not_lt h)
      rw [Nat.mul_succ] at hle
      omega
    have h₂ : m < below + 2 := by
      by_contra h
      have hle := Nat.mul_le_mul_left q.den (Nat.le_of_not_lt h)
      rw [Nat.mul_succ, Nat.mul_succ] at hle
      omega
    omega
  rcases hbelow with rfl | rfl
  · generalize q.den * below = product at *
    split <;> omega
  · rw [Nat.mul_succ] at hlow hhigh htie
    generalize q.den * below = product at *
    split <;> omega

/-- An integer is nearest to a quotient that lies within a half of it, at a half if it is even. -/
theorem Quotient.nearest_eq (hden : 0 < q.den) (hlow : (m : ℚ) - 1 / 2 ≤ q.value)
    (hhigh : q.value ≤ m + 1 / 2)
    (htie : m % 2 = 1 → (m : ℚ) - 1 / 2 < q.value ∧ q.value < m + 1 / 2) : q.nearest = m := by
  have hpos : (0 : ℚ) < q.den := Nat.cast_pos.2 hden
  rw [value, le_div_iff₀ hpos] at hlow
  rw [value, div_le_iff₀ hpos] at hhigh
  rw [value, lt_div_iff₀ hpos, div_lt_iff₀ hpos] at htie
  refine nearest_eq_of_num hden ?_ ?_ fun hodd => ⟨?_, ?_⟩
  · have h : (2 * (q.den * m) : ℚ) ≤ 2 * q.num + q.den := by linarith
    exact_mod_cast h
  · have h : (2 * q.num : ℚ) ≤ 2 * (q.den * m) + q.den := by linarith
    exact_mod_cast h
  · have h : (2 * (q.den * m) : ℚ) < 2 * q.num + q.den := by linarith [(htie hodd).1]
    exact_mod_cast h
  · have h : (2 * q.num : ℚ) < 2 * (q.den * m) + q.den := by linarith [(htie hodd).2]
    exact_mod_cast h

/-! ## The last place -/

theorem bitLength_le_iff : bitLength m ≤ n ↔ m < 2 ^ n := by
  rw [bitLength]
  split
  · next h => simp [h]
  · next h => exact Nat.succ_le_iff.trans (Nat.log2_lt h)

theorem Quotient.value_shiftLeft (q : Quotient) (n : Nat) :
    (⟨q.num <<< n, q.den⟩ : Quotient).value = q.value * 2 ^ n := by
  rw [value, value, Nat.shiftLeft_eq, Nat.cast_mul, Nat.cast_pow, Nat.cast_ofNat,
    mul_div_right_comm]

/-- The binary digits of a quotient, counted in multiples of a number far below all doubles. -/
theorem Quotient.bitLength_le_iff (hden : 0 < q.den) {p : Int} (hp : -1100 ≤ p) :
    (bitLength ((q.num <<< 1100) / q.den) : Int) ≤ p + 1100 ↔ q.value < (2 : ℚ) ^ p := by
  obtain ⟨n, hn⟩ : ∃ n : Nat, p + 1100 = n := ⟨(p + 1100).toNat, by omega⟩
  have hpower : ((2 ^ n : Nat) : ℚ) = (2 : ℚ) ^ p * 2 ^ 1100 := by
    rw [← zpow_natCast, ← zpow_add₀ two_ne_zero]
    push_cast
    rw [← zpow_natCast]
    congr 1
    omega
  have hlt := div_lt_iff (q := ⟨q.num <<< 1100, q.den⟩) (n := 2 ^ n) hden
  rw [value_shiftLeft, hpower, mul_lt_mul_iff_left₀ (by positivity)] at hlt
  rw [hn, Nat.cast_le, Binary64.bitLength_le_iff, hlt]

/-- The last place of a quotient with fifty-three binary digits above it. -/
theorem Quotient.lastPlace_eq (hden : 0 < q.den) (he : minExponent ≤ e)
    (hlow : (2 : ℚ) ^ (e + 52) ≤ q.value) (hhigh : q.value < (2 : ℚ) ^ (e + 53)) :
    q.lastPlace = e := by
  rw [minExponent] at he
  have hle := (bitLength_le_iff hden (p := e + 53) (by omega)).2 hhigh
  have hgt := mt (bitLength_le_iff hden (p := e + 52) (by omega)).1 (not_lt.2 hlow)
  rw [lastPlace, minExponent]
  omega

/-- The last place of a small quotient is that of the smallest double. -/
theorem Quotient.lastPlace_small (hden : 0 < q.den)
    (hhigh : q.value < (2 : ℚ) ^ (minExponent + 52)) : q.lastPlace = minExponent := by
  have hle := (bitLength_le_iff hden (p := minExponent + 52) (by decide)).2 hhigh
  rw [minExponent] at hle
  rw [lastPlace, minExponent]
  omega

/-! ## The interval of a double -/

/-- The rationals of an interval: between its ends, and at an end only if it is closed. -/
structure Interval.Holds (i : Interval) (v : ℚ) : Prop where
  low : i.low * (2 : ℚ) ^ i.unit ≤ v
  high : v ≤ i.high * (2 : ℚ) ^ i.unit
  low_lt : i.closed = false → i.low * (2 : ℚ) ^ i.unit < v
  high_lt : i.closed = false → v < i.high * (2 : ℚ) ^ i.unit

/-- The mantissas and exponents of doubles: fifty-three digits, fewer only at the last place of the
smallest double. -/
structure IsParts (m : Nat) (e : Int) : Prop where
  lt : m < 2 ^ 53
  minExponent_le : minExponent ≤ e
  normal : minExponent < e → 2 ^ 52 ≤ m
  exponent_le : e ≤ 971

/-- The bits of a positive double are its mantissa and exponent, the leading digit of a normal
mantissa being added to the exponent. -/
theorem bits_of_parts? {x : Binary64} (h : x.parts? = some ⟨false, m, e⟩) :
    x.bits.toNat = (e - minExponent).toNat * 2 ^ 52 + m ∧ IsParts m e := by
  have hmagnitude := magnitude_toNat x
  have hunsigned (hsign : x.isNegative = false) : x.bits.toNat < 2 ^ 63 := by
    rw [Bool.eq_false_iff, Ne, isNegative_iff] at hsign
    omega
  rw [parts?] at h
  split at h
  · cases h
  · next hfield =>
    split at h
    · next hzero =>
      simp only [Option.some.injEq, Parts.mk.injEq] at h
      obtain ⟨hsign, rfl, rfl⟩ := h
      have hbits := hunsigned hsign
      exact ⟨by omega, by omega, le_refl _, fun hlt => absurd hlt (lt_irrefl _), by decide⟩
    · next hzero =>
      simp only [Option.some.injEq, Parts.mk.injEq] at h
      obtain ⟨hsign, rfl, rfl⟩ := h
      have hbits := hunsigned hsign
      rw [minExponent]
      refine ⟨by omega, by omega, ?_, fun _ => by omega, by omega⟩
      rw [minExponent]
      omega

/-- In units of the last place a double lies within a half of what rounds to it, and below a power
of two within a quarter. -/
theorem Interval.Holds.scaled {v : ℚ} (h : (Interval.around m e).Holds v) (hm : 0 < m) :
    (m : ℚ) - 1 / 2 ≤ v / 2 ^ e ∧ v / 2 ^ e ≤ m + 1 / 2 ∧
      (m % 2 = 1 → (m : ℚ) - 1 / 2 < v / 2 ^ e ∧ v / 2 ^ e < m + 1 / 2) ∧
      (m = 2 ^ 52 → minExponent < e → (m : ℚ) - 1 / 4 ≤ v / 2 ^ e) := by
  have hpos : (0 : ℚ) < 2 ^ e := by positivity
  have hquarter : (2 : ℚ) ^ (e - 2) = 2 ^ e / 4 := by
    rw [zpow_sub₀ two_ne_zero]
    norm_num
  have hhigh : (((Interval.around m e).high : Nat) : ℚ) = 4 * m + 2 := by
    simp [around]
  have hlow : (m : ℚ) * 4 - 2 ≤ ((Interval.around m e).low : Nat) := by
    have hnat : 4 * m ≤ (Interval.around m e).low + 2 := by
      rw [around]
      dsimp only
      split <;> omega
    have hcast : ((4 * m : Nat) : ℚ) ≤ ((Interval.around m e).low + 2 : Nat) := Nat.cast_le.2 hnat
    push_cast at hcast
    linarith
  obtain ⟨h₁, h₂, h₃, h₄⟩ := h
  rw [show (Interval.around m e).unit = e - 2 from rfl, hquarter] at h₁ h₂ h₃ h₄
  rw [hhigh] at h₂ h₄
  rw [le_div_iff₀ hpos, div_le_iff₀ hpos, lt_div_iff₀ hpos, div_lt_iff₀ hpos, le_div_iff₀ hpos]
  have hle := mul_le_mul_of_nonneg_right hlow hpos.le
  refine ⟨by linarith, by linarith, fun hodd => ?_, fun hm he => ?_⟩
  · have hclosed : (Interval.around m e).closed = false := by
      rw [around]
      exact decide_eq_false (by omega)
    have hlow := h₃ hclosed
    have hhigh := h₄ hclosed
    exact ⟨by linarith, by linarith⟩
  · have hexact : (Interval.around m e).low + 1 = 4 * m := by
      rw [around]
      dsimp only
      rw [if_pos ⟨hm, he⟩]
      omega
    have hcast : ((Interval.around m e).low : ℚ) = 4 * m - 1 := by
      rw [eq_sub_iff_add_eq]
      exact_mod_cast hexact
    rw [hcast] at h₁
    linarith

theorem Quotient.inBinaryUnits_den_pos (hden : 0 < q.den) (unit : Int) :
    0 < (q.inBinaryUnits unit).den := by
  show 0 < q.den <<< unit.toNat
  rw [Nat.shiftLeft_eq]
  positivity

theorem two_zpow_add (e : Int) (n : Nat) : (2 : ℚ) ^ (e + n) = 2 ^ n * 2 ^ e := by
  rw [zpow_add₀ two_ne_zero, zpow_natCast, mul_comm]

/-- The double read is known by the last place and by the mantissa in units of it. -/
theorem ofQuotient_eq_of_nearest {x : Binary64} (hx : x.parts? = some ⟨false, m, e⟩)
    (hunit : q.lastPlace = unit) (hnearest : (q.inBinaryUnits unit).nearest = n)
    (hbits : (unit - minExponent).toNat * 2 ^ 52 + n = (e - minExponent).toNat * 2 ^ 52 + m) :
    ofQuotient q = x := by
  obtain ⟨hx, hlt, -, -, he⟩ := bits_of_parts? hx
  have hfinite : x.bits.toNat ≤ 2047 * 2 ^ 52 := by
    rw [hx, minExponent]
    omega
  rw [ofQuotient, hunit, hnearest, hbits, ← hx, Nat.min_eq_left hfinite, UInt64.ofNat_toNat]

/-- In units of its own last place the double is the nearest one. -/
theorem ofQuotient_eq_of_lastPlace {x : Binary64} (hx : x.parts? = some ⟨false, m, e⟩) (hm : 0 < m)
    (hden : 0 < q.den) (h : (Interval.around m e).Holds q.value) (hunit : q.lastPlace = e) :
    ofQuotient q = x := by
  obtain ⟨hlow, hhigh, hodd, -⟩ := h.scaled hm
  rw [← Quotient.value_inBinaryUnits] at hlow hhigh hodd
  exact ofQuotient_eq_of_nearest hx hunit
    (Quotient.nearest_eq (Quotient.inBinaryUnits_den_pos hden e) hlow hhigh hodd) rfl

/-- Only a power of two is met from below its binade, where the places are half as long. It has one
digit more there. -/
theorem ofQuotient_eq_of_lt {x : Binary64} (hx : x.parts? = some ⟨false, m, e⟩) (hm : 0 < m)
    (hden : 0 < q.den) (h : (Interval.around m e).Holds q.value) (he : minExponent < e)
    (hsmall : q.value < (2 : ℚ) ^ (e + 52)) : ofQuotient q = x := by
  obtain ⟨hlow, -, -, hquarter⟩ := h.scaled hm
  have hpos : (0 : ℚ) < 2 ^ e := by positivity
  have hscaled : q.value / 2 ^ e < 2 ^ 52 := by
    rw [show (52 : Int) = ((52 : Nat) : Int) from rfl, two_zpow_add] at hsmall
    exact (div_lt_iff₀ hpos).2 hsmall
  have hmantissa : m = 2 ^ 52 := by
    have hle : 2 ^ 52 ≤ m := (bits_of_parts? hx).2.normal he
    have hcast : (m : ℚ) < (2 ^ 52 + 1 : Nat) := by
      push_cast
      linarith
    have hlt := Nat.cast_lt.1 hcast
    omega
  have hclose := hquarter hmantissa he
  rw [hmantissa, Nat.cast_pow, Nat.cast_ofNat] at hclose
  have hreaches : (2 : ℚ) ^ 51 * 2 ^ e ≤ q.value := (le_div_iff₀ hpos).1 (by linarith)
  have hunit : q.lastPlace = e - 1 := by
    refine Quotient.lastPlace_eq hden (Int.le_sub_one_of_lt he) ?_ ?_
    · rwa [show e - 1 + 52 = e + (51 : Nat) by omega, two_zpow_add]
    · rwa [show e - 1 + 53 = e + 52 by ring]
  have hdouble : (q.inBinaryUnits (e - 1)).value = 2 * (q.value / 2 ^ e) := by
    rw [Quotient.value_inBinaryUnits, zpow_sub_one₀ two_ne_zero, div_mul_eq_div_div, div_inv_eq_mul,
      mul_comm]
  have hnearest : (q.inBinaryUnits (e - 1)).nearest = 2 ^ 53 := by
    refine Quotient.nearest_eq (Quotient.inBinaryUnits_den_pos hden _) ?_ ?_ fun h =>
      absurd h (by decide)
    · rw [hdouble]
      push_cast
      linarith
    · rw [hdouble]
      push_cast
      linarith
  exact ofQuotient_eq_of_nearest hx hunit hnearest (by omega)

/-- **What lies in the interval of a double is read as the double.** -/
theorem ofQuotient_eq {x : Binary64} (hx : x.parts? = some ⟨false, m, e⟩) (hm : 0 < m)
    (hden : 0 < q.den) (h : (Interval.around m e).Holds q.value) : ofQuotient q = x := by
  obtain ⟨-, hlt, he, -, -⟩ := bits_of_parts? hx
  rcases lt_or_ge q.value ((2 : ℚ) ^ (e + 52)) with hsmall | hreaches
  · rcases he.eq_or_lt with rfl | he
    · exact ofQuotient_eq_of_lastPlace hx hm hden h (Quotient.lastPlace_small hden hsmall)
    · exact ofQuotient_eq_of_lt hx hm hden h he hsmall
  · have hbelow : q.value < (2 : ℚ) ^ (e + 53) := by
      have hpos : (0 : ℚ) < 2 ^ e := by positivity
      have hmax : (m : ℚ) + 1 ≤ 2 ^ 53 := by exact_mod_cast hlt
      have hhigh := (h.scaled hm).2.1
      rw [show (53 : Int) = ((53 : Nat) : Int) from rfl, two_zpow_add]
      exact (div_lt_iff₀ hpos).1 (by linarith)
    exact ofQuotient_eq_of_lastPlace hx hm hden h (Quotient.lastPlace_eq hden he hreaches hbelow)

/-! ## Decimal numbers -/

/-- The magnitude of a double is below two to the thousand and twenty-fourth. -/
theorem Interval.Holds.lt_two_pow {v : ℚ} (hparts : IsParts m e) (hm : 0 < m)
    (h : (Interval.around m e).Holds v) : 0 < v ∧ v < 2 ^ 1024 := by
  obtain ⟨hlow, hhigh, -, -⟩ := h.scaled hm
  have hpos : (0 : ℚ) < 2 ^ e := by positivity
  have hone : (1 : ℚ) ≤ m := by exact_mod_cast hm
  have hmax : (m : ℚ) + 1 ≤ 2 ^ 53 := by exact_mod_cast hparts.lt
  have hscaled : 0 < v / 2 ^ e := by linarith
  refine ⟨(div_pos_iff_of_pos_right hpos).1 hscaled, ?_⟩
  calc v = v / 2 ^ e * 2 ^ e := (div_mul_cancel₀ v hpos.ne').symm
    _ < 2 ^ 53 * 2 ^ e := mul_lt_mul_of_pos_right (by linarith) hpos
    _ ≤ 2 ^ 53 * 2 ^ (971 : Int) :=
      mul_le_mul_of_nonneg_left (zpow_le_zpow_right₀ one_le_two hparts.exponent_le) (by positivity)
    _ = 2 ^ 1024 := by rw [← zpow_natCast, ← zpow_natCast, ← zpow_add₀ two_ne_zero]; rfl

/-- **What lies in the interval of a double is read as the double**, if it is written with at most
three hundred and forty-five digits behind the point. -/
theorem ofDecimal_eq {x : Binary64} (hx : x.parts? = some ⟨false, m, e⟩) (hm : 0 < m)
    (hplaces : n ≤ 345) {digits : Nat}
    (h : (Interval.around m e).Holds (digits * (10 : ℚ) ^ (-n : Int))) :
    ofDecimal digits (-n) = x := by
  obtain ⟨hpos, hmax⟩ := h.lt_two_pow (bits_of_parts? hx).2 hm
  have hten : (0 : ℚ) < 10 ^ n := by positivity
  rw [zpow_neg, zpow_natCast, ← div_eq_mul_inv] at h hpos hmax
  have hdigits : digits ≠ 0 := by
    rintro rfl
    simp at hpos
  have hlength : bitLength digits ≤ 1024 + 4 * n := by
    rw [bitLength_le_iff]
    have hlt : (digits : ℚ) < 2 ^ (1024 + 4 * n) := by
      calc (digits : ℚ) < 2 ^ 1024 * 10 ^ n := (div_lt_iff₀ hten).1 hmax
        _ ≤ 2 ^ 1024 * (2 ^ 4) ^ n :=
          mul_le_mul_of_nonneg_left (pow_le_pow_left₀ (by norm_num) (by norm_num) n)
            (by positivity)
        _ = 2 ^ (1024 + 4 * n) := by rw [← pow_mul, ← pow_add]
    exact_mod_cast hlt
  rw [ofDecimal, if_neg (by omega), if_neg (by omega), Int.toNat_neg_natCast, neg_neg,
    Int.toNat_natCast, pow_zero, mul_one]
  refine ofQuotient_eq hx hm (Nat.pow_pos (by decide)) ?_
  rw [Quotient.value]
  push_cast
  exact h

end Formula.Binary64

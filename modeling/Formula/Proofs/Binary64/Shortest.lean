import Formula.Proofs.Binary64.Rounding

/-!
# The shortest digits of a double read back

`Binary64.shortest` tries grids of one to seventeen digits and takes the first that has a point in
the interval of the double. A point that is taken lies in the interval (`gridPoint?_holds`), and a
grid whose unit is short against the value always has one (`gridPoint?_isSome`), because the value
is less than half a unit away from one of its neighbours. With seventeen digits the unit is short
enough, so that the digits are found and read back (`readsBack`).
-/

namespace Formula.Binary64

variable {q : Quotient} {i : Interval} {d : Decimal} {m n : Nat} {e x p : Int}

/-- The decimal number as a rational number. -/
def Decimal.value (d : Decimal) : ℚ := d.digits * (10 : ℚ) ^ d.exponent

/-! ## The position of the point -/

theorem Quotient.inUnits_den_pos (hden : 0 < q.den) (x : Int) : 0 < (q.inUnits x).den :=
  Nat.mul_pos hden (Nat.pow_pos (by decide))

theorem Quotient.le_mul_den_iff (hden : 0 < q.den) : q.num ≤ n * q.den ↔ q.value ≤ n := by
  rw [value, div_le_iff₀ (Nat.cast_pos.2 hden)]
  norm_cast

theorem Quotient.mul_den_le_iff (hden : 0 < q.den) : n * q.den ≤ q.num ↔ n ≤ q.value := by
  rw [value, le_div_iff₀ (Nat.cast_pos.2 hden)]
  norm_cast

theorem Quotient.reaches_iff (hden : 0 < q.den) : q.reaches x = true ↔ (10 : ℚ) ^ x ≤ q.value := by
  have hpos : (0 : ℚ) < 10 ^ x := by positivity
  have hscaled := mul_den_le_iff (n := 1) (inUnits_den_pos hden x)
  rw [one_mul, value_inUnits, Nat.cast_one, le_div_iff₀ hpos, one_mul] at hscaled
  rw [reaches, decide_eq_true_iff, hscaled]

/-- Powers of ten below powers of two, by two fractions close to the logarithm of ten. -/
theorem ten_zpow_le_two_zpow (habove : 196 * x ≤ 59 * p) (hbelow : 93 * x ≤ 28 * p) :
    (10 : ℚ) ^ x ≤ 2 ^ p := by
  have hpower (b : ℚ) (k : Nat) (y : Int) : (b ^ y) ^ k = (b ^ k) ^ y := by
    rw [← zpow_natCast, ← zpow_natCast, zpow_comm]
  have htwo (k : Nat) (y : Int) : ((2 : ℚ) ^ k) ^ y = 2 ^ (k * y) := by
    rw [← zpow_natCast, ← zpow_mul]
  rcases le_or_gt 0 x with hx | hx
  · refine (pow_le_pow_iff_left₀ (by positivity) (by positivity) (n := 59) (by decide)).1 ?_
    rw [hpower, hpower]
    calc ((10 : ℚ) ^ 59) ^ x ≤ (2 ^ 196) ^ x := zpow_le_zpow_left₀ hx (by norm_num) (by norm_num)
      _ = 2 ^ (196 * x) := htwo 196 x
      _ ≤ 2 ^ (59 * p) := zpow_le_zpow_right₀ one_le_two habove
      _ = (2 ^ 59) ^ p := (htwo 59 p).symm
  · have hneg : (0 : Int) ≤ -x := by omega
    refine (pow_le_pow_iff_left₀ (by positivity) (by positivity) (n := 28) (by decide)).1 ?_
    rw [hpower, hpower]
    have hinverse : ((2 : ℚ) ^ 93) ^ (-x) ≤ (10 ^ 28) ^ (-x) :=
      zpow_le_zpow_left₀ hneg (by norm_num) (by norm_num)
    rw [zpow_neg, zpow_neg, inv_le_inv₀ (by positivity) (by positivity)] at hinverse
    calc ((10 : ℚ) ^ 28) ^ x ≤ (2 ^ 93) ^ x := hinverse
      _ = 2 ^ (93 * x) := htwo 93 x
      _ ≤ 2 ^ (28 * p) := zpow_le_zpow_right₀ one_le_two hbelow
      _ = (2 ^ 28) ^ p := (htwo 28 p).symm

/-- An estimate that is not too high is mended upwards only. -/
theorem Quotient.mend_reaches (fuel : Nat) (h : q.reaches (p - 1) = true) :
    p ≤ pointPosition.mend q fuel p ∧ q.reaches (pointPosition.mend q fuel p - 1) = true := by
  induction fuel generalizing p with
  | zero => exact ⟨le_refl p, h⟩
  | succ fuel ih =>
    rw [pointPosition.mend]
    cases hnext : q.reaches p with
    | true =>
      have hrest := ih (p := p + 1) (by rwa [add_sub_cancel_right])
      rw [if_pos rfl]
      exact ⟨by omega, hrest.2⟩
    | false =>
      rw [if_neg Bool.false_ne_true, if_pos h]
      exact ⟨le_refl p, h⟩

theorem two_pow_bitLength_le (hm : 0 < m) : 2 ^ bitLength m ≤ 2 * m := by
  have hlength : bitLength m = m.log2 + 1 := if_neg hm.ne'
  rw [hlength, pow_succ]
  have := Nat.log2_self_le hm.ne'
  omega

/-- The binary lengths of a quotient tell its size up to a half. -/
theorem Quotient.two_zpow_le_value (hnum : 0 < q.num) (hden : 0 < q.den) :
    (2 : ℚ) ^ ((bitLength q.num : Int) - bitLength q.den - 1) ≤ q.value := by
  have hden' : (0 : ℚ) < q.den := Nat.cast_pos.2 hden
  have hlow : (2 : ℚ) ^ bitLength q.num ≤ 2 * q.num := by
    exact_mod_cast two_pow_bitLength_le hnum
  have hhigh : (q.den : ℚ) ≤ 2 ^ bitLength q.den := by
    exact_mod_cast (Binary64.bitLength_le_iff.1 (le_refl (bitLength q.den))).le
  rw [zpow_sub_one₀ two_ne_zero, zpow_sub₀ two_ne_zero, zpow_natCast, zpow_natCast, value,
    le_div_iff₀ hden']
  calc (2 : ℚ) ^ bitLength q.num / 2 ^ bitLength q.den * 2⁻¹ * q.den
      ≤ 2 ^ bitLength q.num / 2 ^ bitLength q.den * 2⁻¹ * 2 ^ bitLength q.den :=
        mul_le_mul_of_nonneg_left hhigh (by positivity)
    _ = 2 ^ bitLength q.num * 2⁻¹ := by
        rw [mul_right_comm, div_mul_cancel₀ _ (by positivity)]
    _ ≤ q.num := by linarith

theorem Quotient.ofDyadic_den_pos (m : Nat) (e : Int) : 0 < (ofDyadic m e).den := by
  show 0 < 1 <<< (-e).toNat
  rw [Nat.shiftLeft_eq]
  positivity

/-- The first digit of a double is at the position found or before it. -/
theorem IsParts.pointPosition (h : IsParts m e) (hm : 0 < m) :
    -324 ≤ (Quotient.ofDyadic m e).pointPosition ∧
      (10 : ℚ) ^ ((Quotient.ofDyadic m e).pointPosition - 1) ≤ m * 2 ^ e := by
  obtain ⟨hlt, hlow, -, hhigh⟩ := h
  rw [minExponent] at hlow
  have hnum : 0 < (Quotient.ofDyadic m e).num := by
    show 0 < m <<< e.toNat
    rw [Nat.shiftLeft_eq]
    positivity
  have hden := Quotient.ofDyadic_den_pos m e
  -- The lengths of the numerator and of the denominator.
  have hlengthNum : bitLength (Quotient.ofDyadic m e).num ≤ 53 + e.toNat := by
    rw [bitLength_le_iff]
    show m <<< e.toNat < 2 ^ (53 + e.toNat)
    rw [Nat.shiftLeft_eq, pow_add]
    exact Nat.mul_lt_mul_of_pos_right hlt (by positivity)
  have hlengthDen : bitLength (Quotient.ofDyadic m e).den ≤ (-e).toNat + 1 := by
    rw [bitLength_le_iff]
    show 1 <<< (-e).toNat < 2 ^ ((-e).toNat + 1)
    rw [Nat.one_shiftLeft]
    exact Nat.pow_lt_pow_right (by decide) (Nat.lt_succ_self _)
  have hlengthPos : 0 < bitLength (Quotient.ofDyadic m e).num := by
    rw [bitLength, if_neg hnum.ne']
    omega
  have hvalue := Quotient.two_zpow_le_value hnum hden
  generalize hlength : (bitLength (Quotient.ofDyadic m e).num : Int) -
    bitLength (Quotient.ofDyadic m e).den = length at hvalue
  have hestimate : (Quotient.ofDyadic m e).reaches (length * 30103 / 100000 - 1) = true :=
    (Quotient.reaches_iff hden).2 <|
      (ten_zpow_le_two_zpow (by omega) (by omega)).trans hvalue
  have hmend := Quotient.mend_reaches 4 hestimate
  rw [Quotient.pointPosition, hlength, ← Quotient.value_ofDyadic, ← Quotient.reaches_iff hden]
  exact ⟨by omega, hmend.2⟩

/-! ## Points of a grid -/

/-- Whether a point of a grid lies in an interval. -/
theorem Interval.has_iff : i.has n x = true ↔ i.Holds (n * (10 : ℚ) ^ x) := by
  have hpos : (0 : ℚ) < 10 ^ x := by positivity
  have hlow := Quotient.inUnits_den_pos (Quotient.ofDyadic_den_pos i.low i.unit) x
  have hhigh := Quotient.inUnits_den_pos (Quotient.ofDyadic_den_pos i.high i.unit) x
  have hlow_le := Quotient.le_mul_den_iff (n := n) hlow
  have hle_high := Quotient.mul_den_le_iff (n := n) hhigh
  have hlow_lt := not_congr (Quotient.mul_den_le_iff (n := n) hlow)
  have hlt_high := not_congr (Quotient.le_mul_den_iff (n := n) hhigh)
  rw [Quotient.value_inUnits, Quotient.value_ofDyadic] at hlow_le hle_high hlow_lt hlt_high
  rw [div_le_iff₀ hpos] at hlow_le
  rw [le_div_iff₀ hpos] at hle_high
  rw [not_le, not_le, div_lt_iff₀ hpos] at hlow_lt
  rw [not_le, not_le, lt_div_iff₀ hpos] at hlt_high
  rw [has]
  cases hclosed : i.closed with
  | true =>
    rw [if_pos rfl, Bool.and_eq_true, decide_eq_true_iff, decide_eq_true_iff, hlow_le, hle_high]
    exact ⟨fun h => ⟨h.1, h.2, by simp [hclosed], by simp [hclosed]⟩, fun h => ⟨h.low, h.high⟩⟩
  | false =>
    rw [if_neg Bool.false_ne_true, Bool.and_eq_true, decide_eq_true_iff, decide_eq_true_iff,
      hlow_lt, hlt_high]
    exact ⟨fun h => ⟨h.1.le, h.2.le, fun _ => h.1, fun _ => h.2⟩,
      fun h => ⟨h.low_lt hclosed, h.high_lt hclosed⟩⟩

theorem Decimal.value_trimmed (d : Decimal) : d.trimmed.value = d.value := by
  rw [trimmed]
  split
  · next hlast =>
    have hdigits : (d.digits : ℚ) = 10 * (d.digits / 10 : Nat) := by
      exact_mod_cast (Nat.mul_div_cancel' (Nat.dvd_of_mod_eq_zero hlast)).symm
    rw [value, value, zpow_add_one₀ (by norm_num), hdigits]
    ring
  · rfl

theorem Decimal.le_exponent_trimmed (d : Decimal) : d.exponent ≤ d.trimmed.exponent := by
  rw [trimmed]
  split
  · exact Int.le_add_one (le_refl _)
  · exact le_refl _

/-- A point that is taken lies in the interval. -/
theorem gridPoint?_holds (h : gridPoint? q i x = some d) :
    i.Holds d.value ∧ x ≤ d.exponent := by
  rw [gridPoint?] at h
  split at h
  · next htaken =>
    obtain rfl := Option.some.inj h
    rw [Bool.and_eq_true, Bool.and_eq_true] at htaken
    exact ⟨Interval.has_iff.1 htaken.1.1, le_refl x⟩
  · split at h
    · next htaken =>
      obtain rfl := Option.some.inj h
      rw [Decimal.value_trimmed]
      exact ⟨Interval.has_iff.1 htaken, Decimal.le_exponent_trimmed _⟩
    · cases h

/-- What is less than half a place away from a double lies in its interval, except perhaps below a
power of two. -/
theorem Interval.holds_of_near {v : ℚ} (hm : 0 < m) (hlow : m * (2 : ℚ) ^ e - 2 ^ e / 2 < v)
    (hhigh : v < m * (2 : ℚ) ^ e + 2 ^ e / 2)
    (hside : (m : ℚ) * 2 ^ e ≤ v ∨ ¬(m = 2 ^ 52 ∧ e > minExponent)) :
    (Interval.around m e).Holds v := by
  have hpos : (0 : ℚ) < 2 ^ e := by positivity
  have hquarter : (2 : ℚ) ^ (Interval.around m e).unit = 2 ^ e / 4 := by
    show (2 : ℚ) ^ (e - 2) = 2 ^ e / 4
    rw [zpow_sub₀ two_ne_zero]
    norm_num
  have hlow' : ((Interval.around m e).low : ℚ) * 2 ^ (Interval.around m e).unit < v := by
    rw [hquarter]
    rcases hside with hside | hside
    · have hnat : (Interval.around m e).low + 1 ≤ 4 * m := by
        rw [around]
        dsimp only
        split <;> omega
      have hcast : ((Interval.around m e).low + 1 : ℚ) ≤ 4 * m := by exact_mod_cast hnat
      have := mul_le_mul_of_nonneg_right hcast hpos.le
      linarith
    · have hnat : (Interval.around m e).low + 2 = 4 * m := by
        rw [around]
        dsimp only
        rw [if_neg hside]
        omega
      have hcast : ((Interval.around m e).low + 2 : ℚ) = 4 * m := by exact_mod_cast hnat
      have := congrArg (· * (2 : ℚ) ^ e) hcast
      linarith
  have hhigh' : v < ((Interval.around m e).high : ℚ) * 2 ^ (Interval.around m e).unit := by
    rw [hquarter, show ((Interval.around m e).high : ℚ) = 4 * m + 2 by simp [around]]
    linarith
  exact ⟨hlow'.le, hhigh'.le, fun _ => hlow', fun _ => hhigh'⟩

/-- The grid has a point if one of the two around the value lies in the interval. -/
theorem gridPoint?_isSome_of_has {below : Nat}
    (hbelow : (q.inUnits x).num / (q.inUnits x).den = below) (hne : below ≠ 0)
    (h : i.has below x = true ∨ i.has (below + 1) x = true) :
    (gridPoint? q i x).isSome = true := by
  rw [gridPoint?, hbelow]
  cases habove : i.has (below + 1) x with
  | true => split <;> rfl
  | false =>
    rw [habove] at h
    rw [h.resolve_right Bool.false_ne_true, bne_iff_ne.2 hne]
    rfl

/-- A grid with seventeen digits has a point that reads back. -/
theorem IsParts.gridPoint?_isSome (h : IsParts m e) (hm : 0 < m)
    (hx : (10 : ℚ) ^ (x + 16) ≤ m * 2 ^ e) :
    (gridPoint? (Quotient.ofDyadic m e) (Interval.around m e) x).isSome = true := by
  have hunit : (0 : ℚ) < 10 ^ x := by positivity
  have hplace : (0 : ℚ) < 2 ^ e := by positivity
  have hden := Quotient.inUnits_den_pos (Quotient.ofDyadic_den_pos m e) x
  have hvalue : ((Quotient.ofDyadic m e).inUnits x).value = m * 2 ^ e / 10 ^ x := by
    rw [Quotient.value_inUnits, Quotient.value_ofDyadic]
  -- Half a unit of the grid is less than half a place of the double.
  have hdigits : (10 : ℚ) ^ x * 10000000000000000 ≤ m * 2 ^ e := by
    rw [zpow_add₀ (by norm_num)] at hx
    norm_num at hx
    exact hx
  have hmax : (m : ℚ) * 2 ^ e < 9007199254740992 * 2 ^ e := by
    have hlt : (m : ℚ) < 9007199254740992 := by exact_mod_cast h.lt
    exact mul_lt_mul_of_pos_right hlt hplace
  -- The value lies between two points of the grid.
  generalize hbelow : ((Quotient.ofDyadic m e).inUnits x).num /
    ((Quotient.ofDyadic m e).inUnits x).den = below
  have hfloor := (Quotient.le_div_iff hden).1 hbelow.ge
  have hceil := (Quotient.div_lt_iff hden).1 (hbelow.trans_lt (Nat.lt_succ_self below))
  rw [hvalue, le_div_iff₀ hunit] at hfloor
  rw [hvalue, div_lt_iff₀ hunit, Nat.cast_succ] at hceil
  refine gridPoint?_isSome_of_has hbelow ?_ ?_
  · rintro rfl
    rw [Nat.cast_zero] at hceil
    linarith
  · rw [Interval.has_iff, Interval.has_iff, Nat.cast_succ]
    by_cases hpower : m = 2 ^ 52 ∧ e > minExponent
    · have hmantissa : (m : ℚ) = 4503599627370496 := by exact_mod_cast hpower.1
      rw [hmantissa] at hdigits
      rw [hmantissa] at hfloor hceil
      exact .inr (Interval.holds_of_near hm (by rw [hmantissa]; linarith)
        (by rw [hmantissa]; linarith) (.inl (by rw [hmantissa]; linarith)))
    · rcases le_or_gt (m * (2 : ℚ) ^ e) (below * 10 ^ x + 10 ^ x / 2) with hnear | hnear
      · exact .inl (Interval.holds_of_near hm (by linarith) (by linarith) (.inr hpower))
      · exact .inr (Interval.holds_of_near hm (by linarith) (by linarith) (.inr hpower))

/-- **The shortest digits lie in the interval of the double.** -/
theorem IsParts.shortest_holds (h : IsParts m e) (hm : 0 < m) :
    (Interval.around m e).Holds (shortest m e).value ∧ -345 ≤ (shortest m e).exponent := by
  obtain ⟨hpoint, hreaches⟩ := h.pointPosition hm
  rw [shortest]
  generalize (Quotient.ofDyadic m e).pointPosition = point at hpoint hreaches
  have hlast := h.gridPoint?_isSome hm (x := point - (16 + 1)) (by
    rwa [show point - (16 + 1) + 16 = point - 1 by ring])
  cases hfound : (List.range 17).findSome? fun (n : Nat) =>
      gridPoint? (Quotient.ofDyadic m e) (Interval.around m e) (point - (n + 1)) with
  | none =>
    have hnone := List.findSome?_eq_none_iff.1 hfound 16 (List.mem_range.2 (by decide))
    rw [Nat.cast_ofNat] at hnone
    rw [hnone] at hlast
    cases hlast
  | some d =>
    obtain ⟨n, hn, hd⟩ := List.exists_of_findSome?_eq_some hfound
    rw [List.mem_range] at hn
    have hholds := gridPoint?_holds hd
    rw [Option.getD_some]
    exact ⟨hholds.1, by omega⟩

/-! ## Reading back -/

/-- The value of a decimal number in units that do not lie above the point. -/
theorem Decimal.value_eq (d : Decimal) : d.value =
    (d.digits * 10 ^ d.exponent.toNat : Nat) * (10 : ℚ) ^ (-((-d.exponent).toNat : Int)) := by
  have hexponent : d.exponent = (d.exponent.toNat : Int) + -((-d.exponent).toNat : Int) := by omega
  conv_lhs => rw [value, hexponent, zpow_add₀ (by norm_num), zpow_natCast]
  push_cast
  rw [mul_assoc]

/-- **A finite double without a sign is read back from its text.** -/
theorem readsBack {x : Binary64} (hfinite : x.isFinite = true) (hsign : x.isNegative = false) :
    Scalar.ReadsBack x := by
  obtain ⟨m, e, hx, -⟩ := parts?_abs hfinite
  rw [hsign] at hx
  obtain ⟨hbits, hparts⟩ := bits_of_parts? hx
  show decimalNumber x.text.toList = x
  rw [text, render, hx]
  simp only [Bool.false_eq_true, if_false, String.empty_append]
  split
  · next hzero =>
    have hexponent : ¬minExponent < e := fun hlt => by
      have := hparts.normal hlt
      omega
    have hplace : (e - minExponent).toNat = 0 := by
      have := hparts.minExponent_le
      omega
    rw [hzero, hplace] at hbits
    have hx : x = ⟨0⟩ := congrArg Binary64.mk (UInt64.toNat_inj.1 hbits)
    rw [hx]
    rfl
  · next hzero =>
    obtain ⟨hholds, hplaces⟩ := hparts.shortest_holds (Nat.pos_of_ne_zero hzero)
    rw [Decimal.value_eq] at hholds
    rw [decimalNumber, decimalValue_positional]
    exact ofDecimal_eq hx (Nat.pos_of_ne_zero hzero) (by omega) hholds

end Formula.Binary64

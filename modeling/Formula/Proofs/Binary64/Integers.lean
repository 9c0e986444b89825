import Formula.Proofs.Binary64.Shortest
import Formula.Scalar.Integer

/-!
# Integers as doubles

An integer of at most fifty-three binary digits is a double exactly: widened to fifty-three digits
its magnitude is the mantissa (`parts?_ofInt`), and so the double denotes the integer again
(`toInt?_ofInt`). Without its sign it is the double of the magnitude (`abs_ofInt`).
-/

namespace Formula.Binary64

variable {m : Nat} {n : Int}

/-- The bits of a double made from parts: those of the magnitude, and one for the sign. -/
theorem bits_ofParts (p : Parts) : ∃ magnitude < 2 ^ 63,
    (ofParts p).bits.toNat = magnitude + (if p.negative then 2 ^ 63 else 0) ∧
      (ofParts { p with negative := false }).bits.toNat = magnitude := by
  obtain ⟨magnitude, hmagnitude⟩ : ∃ magnitude, magnitude =
    if p.mantissa = 0 then 0 else magnitudeBits p.mantissa p.exponent := ⟨_, rfl⟩
  have hlt : magnitude < 2 ^ 63 := by
    rw [hmagnitude]
    split
    · exact Nat.two_pow_pos 63
    · exact Nat.lt_of_le_of_lt (Nat.min_le_right _ _) (by decide)
  refine ⟨magnitude, hlt, ?_, ?_⟩
  · rw [ofParts, ← hmagnitude]
    split
    · rw [UInt64.toNat_ofNat', Nat.mod_eq_of_lt (by omega)]
    · rw [UInt64.toNat_ofNat', Nat.mod_eq_of_lt (by omega), Nat.add_zero]
  · rw [ofParts, ← hmagnitude]
    simp only [Bool.false_eq_true, if_false]
    rw [UInt64.toNat_ofNat', Nat.mod_eq_of_lt (by omega)]

/-- The sign of an integer as a double. -/
theorem isNegative_ofInt_iff : (ofInt n).isNegative = true ↔ n < 0 := by
  obtain ⟨magnitude, hlt, hbits, -⟩ := bits_ofParts ⟨decide (n < 0), n.natAbs, 0⟩
  rw [isNegative_iff, ofInt, hbits]
  by_cases hn : n < 0
  · simp [hn]
  · simpa [hn] using hlt

/-- The magnitude of an integer as a double. -/
theorem abs_ofInt (n : Int) : (ofInt n).abs = ofInt n.natAbs := by
  obtain ⟨magnitude, hlt, hbits, hpositive⟩ := bits_ofParts ⟨decide (n < 0), n.natAbs, 0⟩
  have hunsigned : ofInt n.natAbs = ofParts ⟨false, n.natAbs, 0⟩ := by
    have hsign : decide ((n.natAbs : Int) < 0) = false := decide_eq_false (by omega)
    rw [ofInt, hsign, Int.natAbs_natCast]
  have hmagnitude : (ofInt n).magnitude = (ofInt n.natAbs).bits := by
    apply UInt64.toNat_inj.1
    rw [magnitude_toNat, hunsigned, hpositive, ofInt, hbits]
    split <;> omega
  rw [abs, hmagnitude]

/-- A natural number widened to fifty-three binary digits. -/
theorem two_pow_le_widened (h0 : 0 < m) (h : m < 2 ^ 53) :
    2 ^ 52 ≤ m * 2 ^ (53 - bitLength m) ∧ m * 2 ^ (53 - bitLength m) < 2 ^ 53 := by
  have hlength : bitLength m ≤ 53 := bitLength_le_iff.2 h
  have hsplit : (2 : Nat) ^ bitLength m * 2 ^ (53 - bitLength m) = 2 ^ 53 := by
    rw [← Nat.pow_add, Nat.add_sub_cancel' hlength]
  have hlow := Nat.mul_le_mul_right (2 ^ (53 - bitLength m)) (two_pow_bitLength_le h0)
  have hhigh := Nat.mul_lt_mul_of_pos_right (bitLength_le_iff.1 (le_refl (bitLength m)))
    (Nat.two_pow_pos (53 - bitLength m))
  rw [hsplit, Nat.mul_assoc] at hlow
  rw [hsplit] at hhigh
  omega

/-- The bits of a natural number: it is widened, and nothing is rounded. -/
theorem magnitudeBits_of_lt (h0 : 0 < m) (h : m < 2 ^ 53) :
    magnitudeBits m 0 = (bitLength m + 1021) * 2 ^ 52 + m * 2 ^ (53 - bitLength m) := by
  have hlength : bitLength m ≤ 53 := bitLength_le_iff.2 h
  have hwide := two_pow_le_widened h0 h
  have hunit : max ((0 : Int) + bitLength m - 53) minExponent = bitLength m - 53 := by
    rw [minExponent]
    omega
  have hshift : ((0 : Int) - ((bitLength m : Int) - 53)).toNat = 53 - bitLength m := by omega
  have hfield : ((bitLength m : Int) - 53 - minExponent).toNat = bitLength m + 1021 := by
    rw [minExponent]
    omega
  rw [magnitudeBits]
  simp only [hunit]
  rw [if_pos (by omega), hshift, hfield, Nat.shiftLeft_eq, Nat.min_eq_left (by omega)]

/-- **The exact value of an integer as a double.** -/
theorem parts?_ofInt (h0 : n ≠ 0) (h : n.natAbs < 2 ^ 53) : (ofInt n).parts? =
    some ⟨decide (n < 0), n.natAbs * 2 ^ (53 - bitLength n.natAbs), bitLength n.natAbs - 53⟩ := by
  have hpos : 0 < n.natAbs := Int.natAbs_pos.2 h0
  have hwide := two_pow_le_widened hpos h
  have hlength : bitLength n.natAbs ≤ 53 := bitLength_le_iff.2 h
  have hbits : (ofInt n).bits.toNat = (if n < 0 then 2 ^ 63 else 0) +
      ((bitLength n.natAbs + 1021) * 2 ^ 52 + n.natAbs * 2 ^ (53 - bitLength n.natAbs)) := by
    rw [ofInt, ofParts, if_neg hpos.ne', magnitudeBits_of_lt hpos h, UInt64.toNat_ofNat']
    by_cases hneg : n < 0
    · rw [if_pos (decide_eq_true hneg), if_pos hneg]
      omega
    · rw [if_neg (by simpa using hneg), if_neg hneg]
      omega
  have hsign : (ofInt n).isNegative = decide (n < 0) := by
    rw [Bool.eq_iff_iff, isNegative_iff, hbits, decide_eq_true_iff]
    split <;> omega
  have hmagnitude : (ofInt n).magnitude.toNat =
      (bitLength n.natAbs + 1021) * 2 ^ 52 + n.natAbs * 2 ^ (53 - bitLength n.natAbs) := by
    rw [magnitude_toNat, hbits]
    split <;> omega
  generalize n.natAbs * 2 ^ (53 - bitLength n.natAbs) = mantissa at *
  rw [parts?, hmagnitude, hsign, if_neg (by omega), if_neg (by omega)]
  simp only [Option.some.injEq, Parts.mk.injEq, true_and]
  omega

/-- **A double denotes the integer of fifty-three binary digits that it was made from.** -/
theorem toInt?_ofInt (h : n.natAbs < 2 ^ 53) : (ofInt n).toInt? = some n := by
  rcases eq_or_ne n 0 with rfl | h0
  · decide +kernel
  have hlength : bitLength n.natAbs ≤ 53 := bitLength_le_iff.2 h
  have hsigned (m : Nat) (hm : m = n.natAbs) :
      (if decide (n < 0) then -(m : Int) else m) = n := by
    by_cases hneg : n < 0
    · rw [if_pos (decide_eq_true hneg)]
      omega
    · rw [if_neg (by simpa using hneg)]
      omega
  rw [toInt?, parts?_ofInt h0 h]
  simp only [Option.bind_eq_bind, Option.bind_some]
  split
  · next hunit =>
    have hfull : bitLength n.natAbs = 53 := by omega
    exact congrArg some (hsigned _ (by simp [Parts.scaled, hfull]))
  · next hunit =>
    have hplaces : (-((bitLength n.natAbs : Int) - 53)).toNat = 53 - bitLength n.natAbs := by omega
    rw [hplaces, Nat.mul_mod_left, if_pos rfl]
    exact congrArg some (hsigned _ (Nat.mul_div_cancel _ (Nat.two_pow_pos _)))

end Formula.Binary64

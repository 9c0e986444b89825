import Formula.Scalar

/-!
# Integers among the scalars

Integer operations work on the safe range, the integers of at most fifty-three binary digits:
every one of them is exactly representable, and so are its neighbours. `toSafeInt?` and
`ofSafeInt?` move between the range and the scalars and refuse everything outside it.

Two numbers count as equal when they differ by at most `tolerance`, relative to the larger of
them and of one.
-/

namespace Formula

/-- The largest integer of the safe range. -/
def maxSafeInt : Nat := 2 ^ 53 - 1

/-- The largest number whose factorial is finite. -/
def maxFactorial : Nat := 170

/-- Whether an integer is exactly representable together with its neighbours. -/
def isSafeInt (n : Int) : Bool := n.natAbs ≤ maxSafeInt

namespace Scalar

variable {K : Type} [Scalar K]

/-- An integer of the safe range as a number. -/
def ofSafeInt? (n : Int) : Option K := if isSafeInt n then some (ofInt n) else none

/-- A number as an integer of the safe range. -/
def toSafeInt? (a : K) : Option Int := (toInt? a).filter isSafeInt

/-- Finite and without fractional part. -/
def isIntegral (a : K) : Bool := (toInt? a).isSome

/-- How far apart two equal numbers may lie, relative to their size. -/
def tolerance : K := ofDecimal 1 (-14)

/-- Equality up to the tolerance; infinities of one sign are equal. -/
def approxEq (a b : K) : Bool :=
  eq a b ||
    le (abs (a - b)) (tolerance * max (max (abs a) (abs b)) one)

/-- The product of the integers from two to `n`, infinite past the largest finite factorial. -/
def factorial (n : Nat) : K :=
  if maxFactorial < n then infinity
  else (List.range (n - 1)).foldl (fun product k => product * ofInt (k + 2 : Nat)) one

end Scalar

/-! ## Common divisors and multiples

They are computed in 64-bit integers, whose arithmetic wraps around. -/

/-- A remainder is smaller in magnitude than what was divided by. -/
theorem natAbs_toInt_mod_lt {a b : Int64} (hb : b ≠ 0) :
    (a % b).toInt.natAbs < b.toInt.natAbs := by
  have hpos : 0 < b.toInt.natAbs := Int.natAbs_pos.2 fun h => hb (Int64.toInt_inj.1 h)
  rw [Int64.toInt_mod, Int.natAbs_tmod]
  exact Nat.mod_lt _ hpos

/-- The algorithm of Euclid: the second number and the remainder of the two take the place of both
until the second number is zero. -/
def euclid (a b : Int64) : Int64 :=
  if b = 0 then a else euclid b (a % b)
termination_by b.toInt.natAbs
decreasing_by exact natAbs_toInt_mod_lt ‹_›

theorem euclid_zero (a : Int64) : euclid a 0 = a := by rw [euclid, if_pos rfl]

theorem euclid_of_ne_zero {a b : Int64} (hb : b ≠ 0) : euclid a b = euclid b (a % b) := by
  rw [euclid, if_neg hb]

/-- The greatest common divisor of two integers. -/
def commonDivisor (a b : Int) : Int := (euclid (Int64.ofInt a).abs (Int64.ofInt b).abs).toInt

/-- The least common multiple of two integers; zero with zero. -/
def commonMultiple (a b : Int) : Int :=
  if a = 0 ∨ b = 0 then 0
  else (Int64.ofInt a / Int64.ofInt (commonDivisor a b) * Int64.ofInt b).abs.toInt

end Formula

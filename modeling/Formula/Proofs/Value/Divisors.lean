import Formula.Proofs.Value.Integers
import Mathlib.Algebra.Order.Group.Unbundled.Int
import Mathlib.Data.List.Perm.Basic
import Mathlib.Data.Nat.Prime.Basic

/-!
# Common divisors and multiples of integers

A round of the algorithm of Euclid keeps the common divisors of its two numbers (`gcd_toInt_mod`),
and two rounds halve the second number, so that the algorithm ends within two rounds for each
binary digit (`exists_euclidRun`). For every 64-bit integer but the least, whose magnitude is cut,
the result is the greatest common divisor (`commonDivisor_eq_gcd`). The least common multiple is
right where the product that it is made from fits into sixty-four bits; then its magnitude does too
(`lcm_ne_two_pow`).

The function over a list of arguments takes the greatest common divisor of the first two in their
place until one is left, which keeps the common divisors of all (`isGreatestDivisor_foldl`).
-/

namespace Formula

variable {a b g m n : Int} {ns ns' : List Int}

/-! ## Greatest common divisors -/

/-- The greatest common divisor of a list of integers: it is not negative, divides every one of
them, and is divided by every number that does. -/
structure IsGreatestDivisor (ns : List Int) (g : Int) : Prop where
  nonneg : 0 ≤ g
  divides : ∀ n ∈ ns, g ∣ n
  greatest : ∀ d, (∀ n ∈ ns, d ∣ n) → d ∣ g

namespace IsGreatestDivisor

/-- There is only one, in whatever order the integers stand. -/
theorem unique (h : IsGreatestDivisor ns g) (h' : IsGreatestDivisor ns' m) (hperm : ns.Perm ns') :
    g = m := by
  refine Int.dvd_antisymm h.nonneg h'.nonneg ?_ ?_
  · exact h'.greatest g fun n hn => h.divides n (hperm.mem_iff.2 hn)
  · exact h.greatest m fun n hn => h'.divides n (hperm.mem_iff.1 hn)

/-- It is no larger than the integers are: zero if all of them are, and else a divisor of one that
is not. -/
theorem natAbs_lt (h : IsGreatestDivisor ns g) {bound : Nat} (hbound : 0 < bound)
    (hns : ∀ n ∈ ns, n.natAbs < bound) : g.natAbs < bound := by
  by_cases hzero : ∀ n ∈ ns, n = 0
  · have hg : g = 0 := Int.zero_dvd.1 (h.greatest 0 fun n hn => by rw [hzero n hn])
    rwa [hg, Int.natAbs_zero]
  · push Not at hzero
    obtain ⟨n, hn, hne⟩ := hzero
    have hle : g.natAbs ≤ n.natAbs :=
      Nat.le_of_dvd (Int.natAbs_pos.2 hne) (Int.natAbs_dvd_natAbs.2 (h.divides n hn))
    exact hle.trans_lt (hns n hn)

end IsGreatestDivisor

theorem isGreatestDivisor_pair (a b : Int) : IsGreatestDivisor [a, b] (Int.gcd a b) where
  nonneg := Int.natCast_nonneg _
  divides := by
    simp only [List.forall_mem_cons, List.not_mem_nil, IsEmpty.forall_iff, implies_true, and_true]
    exact ⟨Int.gcd_dvd_left a b, Int.gcd_dvd_right a b⟩
  greatest d hd := Int.dvd_coe_gcd (hd a (by simp)) (hd b (by simp))

/-- Two integers have the divisors of their greatest common divisor in common. -/
theorem dvd_gcd_cons_iff {d : Int} :
    (∀ k ∈ (Int.gcd m n : Int) :: ns, d ∣ k) ↔ ∀ k ∈ m :: n :: ns, d ∣ k := by
  rw [List.forall_mem_cons, List.forall_mem_cons, List.forall_mem_cons, Int.dvd_coe_gcd_iff,
    and_assoc]

/-- Two integers may be replaced by their greatest common divisor. -/
theorem IsGreatestDivisor.of_gcd_cons (h : IsGreatestDivisor (Int.gcd m n :: ns) g) :
    IsGreatestDivisor (m :: n :: ns) g where
  nonneg := h.nonneg
  divides := dvd_gcd_cons_iff.1 h.divides
  greatest d hd := h.greatest d (dvd_gcd_cons_iff.2 hd)

/-! ## The algorithm of Euclid -/

/-- The algorithm, started with two integers, ends after a number of rounds with a result. -/
inductive EuclidRun : Int64 → Int64 → Nat → Int64 → Prop
  | done (a : Int64) : EuclidRun a 0 0 a
  | round {a b result : Int64} {rounds : Nat} (hb : b ≠ 0)
      (rest : EuclidRun b (a % b) rounds result) : EuclidRun a b (rounds + 1) result

section

variable {a b : Int64} {rounds : Nat}

theorem EuclidRun.of_zero (a : Int64) : EuclidRun a 0 0 (euclid a 0) := by
  rw [euclid_zero]
  exact .done a

theorem EuclidRun.of_ne_zero (hb : b ≠ 0) (rest : EuclidRun b (a % b) rounds (euclid b (a % b))) :
    EuclidRun a b (rounds + 1) (euclid a b) := by
  rw [euclid_of_ne_zero hb]
  exact .round hb rest

/-- The remainder of a division by a smaller number is less than half of what was divided. -/
theorem two_mul_mod_lt {m n : Nat} (hn : 0 < n) (hlt : n < m) : 2 * (m % n) < m := by
  have hmod : m % n < n := Nat.mod_lt m hn
  have hquotient : n ≤ n * (m / n) := Nat.le_mul_of_pos_right n (Nat.div_pos hlt.le hn)
  have hsplit : n * (m / n) + m % n = m := Nat.div_add_mod m n
  omega

/-- The algorithm ends within two rounds for each binary digit of the second number: the second
round leaves less than half of it. -/
theorem exists_euclidRun {digits : Nat} (hb : b.toInt.natAbs < 2 ^ digits) :
    ∃ rounds ≤ 2 * digits, EuclidRun a b rounds (euclid a b) := by
  induction digits generalizing a b with
  | zero =>
    have hzero : b = 0 := Int64.toInt_inj.1 (Int.natAbs_eq_zero.1 (Nat.lt_one_iff.1 hb))
    exact ⟨0, le_rfl, hzero ▸ .of_zero a⟩
  | succ digits ih =>
    by_cases hzero : b = 0
    · exact ⟨0, Nat.zero_le _, hzero ▸ .of_zero a⟩
    have hless : (a % b).toInt.natAbs < b.toInt.natAbs := natAbs_toInt_mod_lt hzero
    by_cases hrest : a % b = 0
    · exact ⟨1, by omega, .of_ne_zero hzero (hrest ▸ .of_zero b)⟩
    have hpos : 0 < (a % b).toInt.natAbs :=
      Int.natAbs_pos.2 fun h => hrest (Int64.toInt_inj.1 h)
    have hhalf : (b % (a % b)).toInt.natAbs < 2 ^ digits := by
      have htwice := two_mul_mod_lt hpos hless
      rw [Int64.toInt_mod b, Int.natAbs_tmod]
      rw [Nat.pow_succ] at hb
      omega
    obtain ⟨rounds, hrounds, hrun⟩ := ih hhalf
    exact ⟨rounds + 2, by omega, .of_ne_zero hzero (.of_ne_zero hrest hrun)⟩

/-- A round keeps the common divisors. -/
theorem gcd_toInt_mod (a b : Int64) :
    Int.gcd b.toInt (a % b).toInt = Int.gcd a.toInt b.toInt := by
  rw [Int64.toInt_mod, Int.gcd_def, Int.natAbs_tmod, Nat.gcd_comm, ← Nat.gcd_rec]
  exact Int.gcd_comm b.toInt a.toInt

/-- A round leaves neither number negative. -/
theorem toInt_mod_nonneg (ha : 0 ≤ a.toInt) : 0 ≤ (a % b).toInt := by
  rw [Int64.toInt_mod]
  exact Int.tmod_nonneg _ ha

/-- What the algorithm ends with. -/
theorem toInt_euclid (ha : 0 ≤ a.toInt) (hb : 0 ≤ b.toInt) :
    (euclid a b).toInt = Int.gcd a.toInt b.toInt := by
  fun_induction euclid a b with
  | case1 a =>
    rw [Int64.toInt_zero, Int.gcd_zero_right, Int.natAbs_of_nonneg ha]
  | case2 a b hb0 ih =>
    rw [ih hb (toInt_mod_nonneg ha), gcd_toInt_mod]

/-! ## Two integers -/

/-- Every 64-bit integer but the least has a magnitude of sixty-three bits. -/
theorem natAbs_toInt_lt (ha : a ≠ Int64.minValue) : a.toInt.natAbs < 2 ^ 63 := by
  have hle := a.le_toInt
  have hlt := a.toInt_lt
  have hne : a.toInt ≠ -2 ^ 63 := fun h => ha (Int64.toInt_inj.1 h)
  omega

/-- The magnitude of a 64-bit integer is not cut if it has sixty-three bits. -/
theorem toInt_abs (ha : a.toInt.natAbs < 2 ^ 63) : a.abs.toInt = a.toInt.natAbs := by
  have hne : a.toBitVec ≠ BitVec.intMin 64 := by
    intro h
    have hleast : a = Int64.minValue := Int64.toBitVec_inj.1 h
    rw [hleast] at ha
    exact absurd ha (by decide)
  have h : a.abs.toInt = _ := BitVec.toInt_abs_eq_natAbs (x := a.toBitVec)
  rw [h, if_neg hne]
  rfl

end

theorem toInt_ofInt (ha : a.natAbs < 2 ^ 63) : (Int64.ofInt a).toInt = a :=
  Int64.toInt_ofInt_of_le (by omega) (by omega)

/-- **The algorithm computes the greatest common divisor.** -/
theorem commonDivisor_eq_gcd (ha : a.natAbs < 2 ^ 63) (hb : b.natAbs < 2 ^ 63) :
    commonDivisor a b = Int.gcd a b := by
  have habs {n : Int} (hn : n.natAbs < 2 ^ 63) : (Int64.ofInt n).abs.toInt = n.natAbs := by
    rw [toInt_abs (by rwa [toInt_ofInt hn]), toInt_ofInt hn]
  have heuclid := toInt_euclid (a := (Int64.ofInt a).abs) (b := (Int64.ofInt b).abs)
    (habs ha ▸ Int.natCast_nonneg _) (habs hb ▸ Int.natCast_nonneg _)
  rw [commonDivisor, heuclid, habs ha, habs hb, Int.gcd_def, Int.gcd_def, Int.natAbs_natCast,
    Int.natAbs_natCast]

/-- The greatest common divisor has a magnitude of sixty-three bits again. -/
theorem natAbs_commonDivisor_lt (ha : a.natAbs < 2 ^ 63) (hb : b.natAbs < 2 ^ 63) :
    (commonDivisor a b).natAbs < 2 ^ 63 := by
  rw [commonDivisor_eq_gcd ha hb]
  exact (isGreatestDivisor_pair a b).natAbs_lt (by decide)
    (List.forall_mem_cons.2 ⟨ha, List.forall_mem_singleton.2 hb⟩)

/-- The product that a least common multiple is made from is the multiple up to its sign. -/
theorem natAbs_tdiv_gcd_mul (a b : Int) :
    (a.tdiv (Int.gcd a b) * b).natAbs = Int.lcm a b := by
  have hdvd : Int.gcd a b ∣ a.natAbs := Int.natCast_dvd.1 (Int.gcd_dvd_left a b)
  rw [Int.natAbs_mul, Int.natAbs_tdiv, Int.natAbs_natCast, Int.lcm_def]
  exact Nat.div_mul_right_comm hdvd b.natAbs

/-- No two integers of sixty-three bits have the least magnitude of sixty-four as their multiple:
both would be powers of two, and the larger one their multiple. -/
theorem lcm_ne_two_pow (ha : a.natAbs < 2 ^ 63) (hb : b.natAbs < 2 ^ 63) :
    Int.lcm a b ≠ 2 ^ 63 := by
  intro h
  have hhalf {m : Nat} (hm : m < 2 ^ 63) (hdvd : m ∣ 2 ^ 63) : m ∣ 2 ^ 62 := by
    obtain ⟨k, hk, rfl⟩ := (Nat.dvd_prime_pow Nat.prime_two).1 hdvd
    exact Nat.pow_dvd_pow 2 (Nat.le_of_lt_succ ((Nat.pow_lt_pow_iff_right Nat.one_lt_two).1 hm))
  have hmultiple : Int.lcm a b ∣ 2 ^ 62 := by
    rw [Int.lcm_def] at h ⊢
    exact Nat.lcm_dvd (hhalf ha (h ▸ Nat.dvd_lcm_left _ _)) (hhalf hb (h ▸ Nat.dvd_lcm_right _ _))
  rw [h] at hmultiple
  exact absurd (Nat.le_of_dvd (Nat.two_pow_pos 62) hmultiple) (by decide)

/-- A quotient times an integer in 64-bit arithmetic, where the product fits. -/
theorem toInt_div_mul {d : Int} (ha : a.natAbs < 2 ^ 63) (hb : b.natAbs < 2 ^ 63)
    (hd : d.natAbs < 2 ^ 63) (hproduct : (a.tdiv d * b).natAbs < 2 ^ 63) :
    (Int64.ofInt a / Int64.ofInt d * Int64.ofInt b).toInt = a.tdiv d * b := by
  have hne : Int64.ofInt a ≠ Int64.minValue := by
    intro h
    rw [← toInt_ofInt ha, h] at ha
    exact absurd ha (by decide)
  rw [Int64.toInt_mul, Int64.toInt_div_of_ne_left _ _ hne, toInt_ofInt ha, toInt_ofInt hd,
    toInt_ofInt hb, Value.bmod_of_natAbs_lt hproduct]

/-- **The least common multiple, where no product is cut.** -/
theorem commonMultiple_eq_lcm (ha : a.natAbs < 2 ^ 63) (hb : b.natAbs < 2 ^ 63)
    (hlow : -2 ^ 63 ≤ a.tdiv (commonDivisor a b) * b)
    (hhigh : a.tdiv (commonDivisor a b) * b < 2 ^ 63) : commonMultiple a b = Int.lcm a b := by
  by_cases hzero : a = 0 ∨ b = 0
  · rw [commonMultiple, if_pos hzero]
    rcases hzero with rfl | rfl <;> simp
  have hmultiple : (a.tdiv (commonDivisor a b) * b).natAbs = Int.lcm a b := by
    rw [commonDivisor_eq_gcd ha hb, natAbs_tdiv_gcd_mul]
  -- The bounds leave the least integer open, whose magnitude would be cut.
  have hsmall : (a.tdiv (commonDivisor a b) * b).natAbs < 2 ^ 63 := by
    have hne := lcm_ne_two_pow ha hb
    omega
  have hproduct := toInt_div_mul ha hb (natAbs_commonDivisor_lt ha hb) hsmall
  rw [commonMultiple, if_neg hzero, toInt_abs (hproduct ▸ hsmall), hproduct, hmultiple]

/-! ## Many integers -/

/-- The greatest common divisor of two integers or more, two at a time from the left. -/
theorem isGreatestDivisor_foldl (hm : m.natAbs < 2 ^ 63) (hn : n.natAbs < 2 ^ 63)
    (hns : ∀ k ∈ ns, k.natAbs < 2 ^ 63) :
    IsGreatestDivisor (m :: n :: ns) ((n :: ns).foldl commonDivisor m) := by
  induction ns generalizing m n with
  | nil =>
    rw [List.foldl_cons, List.foldl_nil, commonDivisor_eq_gcd hm hn]
    exact isGreatestDivisor_pair m n
  | cons k ns ih =>
    obtain ⟨hk, hns⟩ := List.forall_mem_cons.1 hns
    have hrest := ih (natAbs_commonDivisor_lt hm hn) hk hns
    rw [← List.foldl_cons (f := commonDivisor)] at hrest
    refine .of_gcd_cons ?_
    rwa [← commonDivisor_eq_gcd hm hn]

/-! ## The function over many numbers -/

namespace Value

theorem applyBuiltin_gcd_eq {K : Type} [Scalar K] (vs : List (Value K)) :
    applyBuiltin .gcd vs = foldIntegers .gcd commonDivisor vs := by
  cases vs <;> rfl

/-- **The greatest common divisor of two numbers or more.** -/
theorem applyBuiltin_gcd {xs : List Binary64} (h : List.Forall₂ StandsFor xs ns)
    (hlength : 2 ≤ ns.length) : ∃ g, IsGreatestDivisor ns g ∧
      StandsFor (Binary64.ofInt g) g ∧
        applyBuiltin .gcd (xs.map number) = .ok (number (Binary64.ofInt g)) := by
  have hbound := natAbs_lt_of_standsFor h
  match ns, h, hlength with
  | m :: n :: ns, .cons hx hxs, _ =>
    have hword : ∀ k ∈ m :: n :: ns, k.natAbs < 2 ^ 63 := fun k hk =>
      (hbound k hk).trans (by decide)
    have hgreatest : IsGreatestDivisor (m :: n :: ns) ((n :: ns).foldl commonDivisor m) :=
      isGreatestDivisor_foldl (hword m (by simp)) (hword n (by simp)) fun k hk =>
        hword k (by simp [hk])
    have hsafe : isSafeInt ((n :: ns).foldl commonDivisor m) = true :=
      isSafeInt_iff.2 (hgreatest.natAbs_lt (by decide) hbound)
    obtain ⟨hresult, hint⟩ := Binary64.ofInteger_of_isSafeInt hsafe Builtin.gcd.name
    refine ⟨_, hgreatest, ⟨hint, hsafe⟩, ?_⟩
    rw [applyBuiltin_gcd_eq, foldIntegers_eq_ofInteger hx hxs, hresult]

end Value

open Value

/-- **Greatest common divisors and least common multiples.** For two 64-bit integers, neither of
them the least, the algorithm of Euclid ends after at most one hundred and twenty-six rounds with
the greatest common divisor. The least common multiple times that is the magnitude of the product,
where the product it is made from fits into sixty-four bits. The function over two numbers or more
of the safe range, in any order, gives the number that stands for the greatest common divisor of
all; the first integral number outside the range is refused. -/
theorem common_divisors_and_multiples :
    (∀ a b : Int64, a ≠ Int64.minValue → b ≠ Int64.minValue →
      (∃ rounds ≤ 126,
        EuclidRun a.abs b.abs rounds (Int64.ofInt (commonDivisor a.toInt b.toInt))) ∧
      IsGreatestDivisor [a.toInt, b.toInt] (commonDivisor a.toInt b.toInt) ∧
      (-2 ^ 63 ≤ a.toInt.tdiv (commonDivisor a.toInt b.toInt) * b.toInt →
        a.toInt.tdiv (commonDivisor a.toInt b.toInt) * b.toInt < 2 ^ 63 →
          0 ≤ commonMultiple a.toInt b.toInt ∧
            commonDivisor a.toInt b.toInt * commonMultiple a.toInt b.toInt =
              |a.toInt * b.toInt|)) ∧
    ∀ {xs : List Binary64} {ns : List Int}, List.Forall₂ StandsFor xs ns →
      (2 ≤ ns.length → ∃ r g, StandsFor r g ∧ IsGreatestDivisor ns g ∧
        ∀ ys : List Binary64, ys.Perm xs →
          applyBuiltin .gcd (ys.map .number) = .ok (.number r)) ∧
      ∀ {x : Binary64} {n : Int}, x.toInt? = some n → maxSafeInt < n.natAbs →
        ∀ rest, applyBuiltin .gcd (xs.map .number ++ .number x :: rest) =
          .error (.expectedInteger "gcd" x) := by
  constructor
  · intro a b ha hb
    have ha := natAbs_toInt_lt ha
    have hb := natAbs_toInt_lt hb
    have hdivisor := commonDivisor_eq_gcd ha hb
    refine ⟨?_, ?_, fun hlow hhigh => ?_⟩
    · rw [commonDivisor, Int64.ofInt_toInt, Int64.ofInt_toInt, Int64.ofInt_toInt]
      have hmagnitude : b.abs.toInt.natAbs < 2 ^ 63 := by rwa [toInt_abs hb, Int.natAbs_natCast]
      exact exists_euclidRun hmagnitude
    · rw [hdivisor]
      exact isGreatestDivisor_pair _ _
    · rw [commonMultiple_eq_lcm ha hb hlow hhigh, hdivisor, Int.abs_eq_natAbs, Int.natAbs_mul,
        ← Int.gcd_mul_lcm]
      exact ⟨Int.natCast_nonneg _, (Nat.cast_mul _ _).symm⟩
  · intro xs ns h
    refine ⟨fun hlength => ?_, fun {x n} hx hn rest => ?_⟩
    · obtain ⟨g, hg, hstands, -⟩ := applyBuiltin_gcd h hlength
      refine ⟨_, g, hstands, hg, fun ys hperm => ?_⟩
      -- The integers behind the other order are those behind the first one in some order.
      obtain ⟨ms, hms, hperm⟩ := List.perm_comp_forall₂ hperm h
      obtain ⟨g', hg', -, hresult⟩ := applyBuiltin_gcd hms (hperm.length_eq ▸ hlength)
      rw [hresult, hg'.unique hg hperm]
    · rw [applyBuiltin_gcd_eq]
      exact foldIntegers_eq_error h hx (decide_eq_false (Nat.not_le.2 hn)) rest

/-- Twelve below zero and eighteen; twenty-seven with them in two orders; and two to the
fifty-third with them, which lies outside the safe range. -/
theorem common_divisors_and_multiples_below_zero :
    let xs : List Binary64 := [Binary64.ofInt (-12), Binary64.ofInt 18, Binary64.ofInt 27]
    let ys : List Binary64 := [Binary64.ofInt 27, Binary64.ofInt (-12), Binary64.ofInt 18]
    (∃ rounds ≤ 126, EuclidRun (Int64.abs (-12)) (Int64.abs 18) rounds
      (Int64.ofInt (commonDivisor (-12) 18))) ∧
    IsGreatestDivisor [-12, 18] (commonDivisor (-12) 18) ∧
    (0 ≤ commonMultiple (-12) 18 ∧
      commonDivisor (-12) 18 * commonMultiple (-12) 18 = |(-12) * 18|) ∧
    List.Forall₂ StandsFor xs [-12, 18, 27] ∧ ys.Perm xs ∧
      (∃ r g, StandsFor r g ∧ IsGreatestDivisor [-12, 18, 27] g ∧
        applyBuiltin .gcd (xs.map .number) = .ok (.number r) ∧
          applyBuiltin .gcd (ys.map .number) = .ok (.number r)) ∧
      maxSafeInt < (2 ^ 53 : Int).natAbs ∧
        applyBuiltin .gcd (xs.map .number ++ [.number (Binary64.ofInt (2 ^ 53))]) =
          .error (.expectedInteger "gcd" (Binary64.ofInt (2 ^ 53))) := by
  intro xs ys
  obtain ⟨hpair, hmany⟩ := common_divisors_and_multiples
  obtain ⟨hrun, hgreatest, hmultiple⟩ := hpair (-12) 18 (by decide) (by decide)
  have hstands : List.Forall₂ StandsFor xs [-12, 18, 27] :=
    .cons ⟨by decide +kernel, rfl⟩ (.cons ⟨by decide +kernel, rfl⟩
      (.cons ⟨by decide +kernel, rfl⟩ .nil))
  have hperm : ys.Perm xs := (List.Perm.swap _ _ _).trans (.cons _ (.swap _ _ _))
  have hlarge : (Binary64.ofInt (2 ^ 53)).toInt? = some (2 ^ 53) := by decide +kernel
  obtain ⟨hsafe, hunsafe⟩ := hmany hstands
  obtain ⟨r, g, hr, hg, hresult⟩ := hsafe (by decide)
  exact ⟨hrun, hgreatest, hmultiple (by decide +kernel) (by decide +kernel), hstands, hperm,
    ⟨r, g, hr, hg, hresult xs (.refl xs), hresult ys hperm⟩, by decide,
    hunsafe hlarge (by decide) []⟩

/-- Two to the fifty-third is an integer, and two is the greatest common divisor of it and of two;
but it lies outside the safe range, and is refused. -/
theorem applyBuiltin_gcd_past_safe_range :
    let xs : List Binary64 := [Binary64.ofInt (2 ^ 53), Binary64.ofInt 2]
    xs.map Scalar.toInt? = [some (2 ^ 53), some 2] ∧ IsGreatestDivisor [2 ^ 53, 2] 2 ∧
      applyBuiltin .gcd (xs.map .number) =
        .error (.expectedInteger "gcd" (Binary64.ofInt (2 ^ 53))) ∧
      ¬∃ v, applyBuiltin .gcd (xs.map .number) = .ok v := by
  intro xs
  have hlarge : (Binary64.ofInt (2 ^ 53)).toInt? = some (2 ^ 53) := by decide +kernel
  have htwo : (Binary64.ofInt 2).toInt? = some 2 := by decide +kernel
  have hgreatest : IsGreatestDivisor [2 ^ 53, 2] 2 := isGreatestDivisor_pair (2 ^ 53) 2
  have hrefused : applyBuiltin .gcd (xs.map .number) =
      .error (.expectedInteger "gcd" (Binary64.ofInt (2 ^ 53))) :=
    foldIntegers_eq_error .nil hlarge (by decide) [.number (Binary64.ofInt 2)]
  refine ⟨congrArg₂ (fun m n => [m, n]) hlarge htwo, hgreatest, hrefused, ?_⟩
  rintro ⟨v, hv⟩
  cases hrefused.symm.trans hv

end Formula

import Formula.Calculate
import Formula.Proofs.Binary64.Integers
import Formula.Proofs.Eval
import Formula.Proofs.RoundTrip.Depth
import Formula.Proofs.RoundTrip.Normal
import Formula.Proofs.Token.Radix

/-!
# Integers in another base are read back

`Expr.execute_radix`: the text that `tobin`, `tooct` and `tohex` give for an integer of the safe
range is a formula whose value is the integer. The function writes the sign in front of the mark,
while a literal has none. So a negative integer is cut into a minus and the literal of its
magnitude, which are the tokens of the number (`lexes_radix`), is read as a prefixed minus
(`parseTokens_number`), and becomes the number again when it is evaluated
(`execute_normal_number`).
-/

namespace Formula

open Formula.Expr
open Scalar (LawfulText)

variable {n : Int}

/-! ## Reading the number -/

/-- The characters of an integer in another base are cut into the tokens of the number. -/
theorem lexes_radix {base : Nat} {mark : Char} (hmark : radixOf? mark = some base)
    (hn : n.natAbs ≤ maxSafeInt) :
    Lexes ((if n < 0 then ['-'] else []) ++ '0' :: mark :: Nat.toDigits base n.natAbs)
      (number (Scalar.ofInt n) : Expr Binary64).tokens := by
  have hsafe : isSafeInt (n.natAbs : Nat) = true := by
    rw [isSafeInt, Int.natAbs_natCast]
    exact decide_eq_true hn
  have hliteral : Lexes ('0' :: mark :: Nat.toDigits base n.natAbs ++ [])
      [(.number (Scalar.ofInt n.natAbs) : Token Binary64)] :=
    (spells_toDigits hmark hsafe rfl).lexes .nil
  rw [List.append_nil] at hliteral
  have habs : Scalar.abs (Scalar.ofInt n : Binary64) = Scalar.ofInt n.natAbs :=
    Binary64.abs_ofInt n
  by_cases hneg : n < 0
  · have hsign : Scalar.isNegative (Scalar.ofInt n : Binary64) = true :=
      Binary64.isNegative_ofInt_iff.2 hneg
    have hspells : Spells ['-'] (.symbol .minus : Token Binary64)
        ('0' :: mark :: Nat.toDigits base n.natAbs) := spells_symbol (by decide) rfl
    have hminus := hspells.lexes hliteral
    simpa [tokens, signedTokens, Scalar.unsigned, hsign, habs, hneg] using hminus
  · have hsign : Scalar.isNegative (Scalar.ofInt n : Binary64) = false :=
      Bool.eq_false_iff.2 (hneg ∘ Binary64.isNegative_ofInt_iff.1)
    have hnat : (n.natAbs : Int) = n := by omega
    rw [hnat] at hliteral
    simpa [tokens, signedTokens, Scalar.unsigned, hsign, hneg] using hliteral

/-- The tokens of a number are read within any limit that leaves room for a prefixed minus. -/
theorem parseTokens_number {K : Type} [Scalar K] [LawfulText K] {x : K}
    {located : List (Token K × Nat)} (hlocated : located.map (·.1) = (number x).tokens) {m : Nat}
    (hm : 3 < m) : parseTokens located (some m) = .ok (number x).normal := by
  have hplain {y : K} (hy : Scalar.isNegative y = false) : (number y).Everywhere IsPlain :=
    .node ⟨fun _ h => by cases h; exact hy, rfl⟩ nofun
  have hliteral {y : K} : Grammatical (fun _ => True) false (number y) := .number trivial
  rw [parseTokens_limited_iff, hlocated, ← tokens_normal]
  cases hsign : Scalar.isNegative x with
  | true =>
    rw [normal, if_pos hsign]
    have hoperand := hplain (LawfulText.isNegative_abs x)
    have htree : (unary .minus (number (Scalar.abs x))).Everywhere IsPlain :=
      .node ⟨nofun, rfl⟩ fun c hc => by
        obtain rfl := List.mem_singleton.1 hc
        exact hoperand
    have hlevels : (unary .minus (number (Scalar.abs x))).levels = 3 := by
      simp [levels, levelsFor, precedence, UnaryOp.isPostfixed, LawfulText.isNegative_abs x,
        atomPrecedence]
    exact (Grammatical.unary (s := false) .minus hliteral).reads_limited htree (hlevels ▸ hm)
  | false =>
    rw [normal, if_neg (by simp [hsign])]
    exact hliteral.reads_limited (hplain hsign) (Nat.lt_of_succ_lt hm)

/-- A number read with a prefixed minus for its sign has its own value. -/
theorem execute_normal_number {K : Type} [Scalar K] [LawfulText K] (x : K) (env : Environment K) :
    (number x).normal.execute env = (.ok (.number x), env) := by
  cases hsign : Scalar.isNegative x with
  | true =>
    have hvalue : (unary .minus (number (Scalar.abs x))).execute env =
        (.ok (.number (-Scalar.abs x)), env) := rfl
    rw [normal, if_pos hsign, hvalue, LawfulText.neg_abs hsign]
  | false =>
    rw [normal, if_neg (by simp [hsign])]
    rfl

/-- A text that is cut into the tokens of a number has the number as its value. -/
theorem calculate_number {source : String} {x : Binary64}
    (hblank : source.toList.all isWhiteSpace = false) (h : Lexes source.toList (number x).tokens)
    (env : Environment Binary64) : calculate source env = (.ok (.number x), env) := by
  obtain ⟨located, htokenize, hlocated⟩ := h 0
  have hparse : parse (K := Binary64) source = .ok (number x).normal := by
    rw [parse, parseWithin, hblank]
    exact (congrArg (· >>= fun ts => parseTokens ts (some defaultMaxDepth)) htokenize).trans
      (parseTokens_number hlocated (by decide))
  rw [calculate, hparse]
  simp only [execute_normal_number]
  rfl

/-! ## Writing the number -/

/-- The mark and the base of a function that writes integers in another base. -/
theorem applyBuiltin_radix {f : Builtin} (hf : f ∈ [Builtin.toBinary, .toOctal, .toHex]) :
    ∃ mark base, radixOf? mark = some base ∧ f.isSymbolic = false ∧ f.arity.accepts 1 = true ∧
      ∀ v : Value Binary64, Value.applyBuiltin f [v] =
        Value.inBase f base (String.ofList ['0', mark]) v := by
  simp only [List.mem_cons, List.not_mem_nil, or_false] at hf
  rcases hf with rfl | rfl | rfl
  · exact ⟨'b', 2, rfl, rfl, rfl, fun _ => rfl⟩
  · exact ⟨'o', 8, rfl, rfl, rfl, fun _ => rfl⟩
  · exact ⟨'x', 16, rfl, rfl, rfl, fun _ => rfl⟩

namespace Expr

/-- **What is written in another base is the number as a formula.** The argument is any tree whose
value is an integer of the safe range. The text has the integer as its value in every environment,
and changes none. -/
theorem execute_radix {f : Builtin} (hf : f ∈ [Builtin.toBinary, .toOctal, .toHex])
    {a : Expr Binary64} {x : Binary64} {env env' : Environment Binary64}
    (ha : a.execute env = (.ok (.number x), env')) (hx : x.toInt? = some n)
    (hn : n.natAbs ≤ maxSafeInt) : ∃ text : String,
      (builtin f [a]).execute env = (.ok (.string text), env') ∧
        ∀ env, calculate text env = (.ok (.number (Binary64.ofInt n)), env) := by
  obtain ⟨mark, base, hmark, hsymbolic, harity, happly⟩ := applyBuiltin_radix hf
  have hinteger : (Value.number x).asInteger f.name = .ok n := by
    have hsafe : Scalar.toSafeInt? x = some n := Option.filter_eq_some_iff.2 ⟨hx, decide_eq_true hn⟩
    show Value.integerOf f.name x = .ok n
    rw [Value.integerOf, hsafe]
  have hwritten : Value.applyBuiltin f [.number x] = .ok (.string ((if n < 0 then "-" else "") ++
      String.ofList ['0', mark] ++ Value.digitsIn base n.natAbs)) := by
    rw [happly, Value.inBase, hinteger]
    rfl
  have hcharacters : ((if n < 0 then "-" else "") ++ String.ofList ['0', mark] ++
      Value.digitsIn base n.natAbs).toList =
        (if n < 0 then ['-'] else []) ++ '0' :: mark :: Nat.toDigits base n.natAbs := by
    split <;> simp [Value.digitsIn]
  refine ⟨_, execute_builtin hsymbolic harity ha hwritten, fun env => calculate_number ?_ ?_ env⟩
  · rw [hcharacters, List.all_eq_false]
    exact ⟨'0', by simp, by decide⟩
  · rw [hcharacters]
    exact lexes_radix hmark hn

/-- Nine below zero in base two. -/
theorem execute_radix_nine : ∃ text : String,
    (builtin .toBinary [unary .minus (number (Binary64.ofInt 9))]).execute .initial =
        (.ok (.string text), .initial) ∧
      ∀ env, calculate text env = (.ok (.number (Binary64.ofInt (-9))), env) := by
  have ha : (unary .minus (number (Binary64.ofInt 9))).execute .initial =
      (.ok (.number (Binary64.ofInt 9).negate), .initial) := rfl
  exact execute_radix (by decide) ha (by decide +kernel) (by decide)

end Expr

end Formula

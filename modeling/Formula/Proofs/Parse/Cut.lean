import Formula.Proofs.Parse.Locality

/-!
# A limit on nesting as a cut of the recursion

A reader that is within a limit has room for so many levels of nesting more. The grammar runs on it
as one without a limit whose recursion fails below these levels (`Nest.limited`), so what is read
within a limit on nesting is what the grammar with the cut reads (`parseTokens_limited_iff`), and the
lemmas on what is read from tokens apply.
-/

namespace Formula

open Formula.Parser Formula.Grammar

variable {K : Type} [Scalar K]

/-- The parser of a nested construct that fails below so many levels. -/
def Nest.limited : (levels : Nat) → Nest → Parser K (Option (Expr K)) :=
  Nest.unrolled fun _ => failHere (.nestingTooDeep 0)

/-- The grammar with the cut sees nothing but the tokens ahead. -/
theorem Nest.limited_sameRuns (levels : Nat) (n : Nest) :
    SameRuns (n.limited levels : Parser K (Option (Expr K))) (n.limited levels) := by
  induction levels generalizing n with
  | zero => exact fun _ _ _ _ _ => .failed rfl rfl
  | succ levels ih => exact (nest_related sameRuns_congruence ih n).nested

omit [Scalar K] in
/-- So deep within a limit a level of nesting takes from the room that is left. -/
theorem Parser.SameRunsAt.nested {α : Type} {p q : Parser K α} {m depth : Nat} (hdepth : depth < m)
    (h : SameRunsAt (fun limit? d => limit? = some m ∧ d = depth + 1) p q) :
    SameRunsAt (fun limit? d => limit? = some m ∧ d = depth) (nested p) (nested q) := by
  intro r s ⟨hmax, hd⟩ hs hahead
  have hdescend : r.descend? = some { r with depth := r.depth + 1 } := by
    rw [Reader.descend?, hmax, hd]
    exact if_pos (decide_eq_true hdepth)
  have hrp := run_nested (p := p) hdescend
  have hsq := run_nested (p := q) (descend?_of_maxDepth? hs)
  have hsort : r.maxDepth? = some m ∧ r.depth + 1 = depth + 1 := ⟨hmax, congrArg (· + 1) hd⟩
  cases h { r with depth := r.depth + 1 } { s with depth := s.depth + 1 } hsort hs hahead with
  | failed hp hq =>
    rw [hp] at hrp
    rw [hq] at hsq
    exact .failed hrp hsq
  | found a n hn hp hq =>
    rw [hp] at hrp
    rw [hq] at hsq
    exact .found a n hn hrp hsq

/-- **Within a limit** the grammar runs as the one that is cut where the limit is reached. -/
theorem Nest.parserWithin_limited {m : Nat} (room : Nat) {depth levels : Nat}
    (hroom : depth + room = m) (hlevels : room < levels) (n : Nest) :
    SameRunsAt (fun limit? d => limit? = some m ∧ d = depth)
      (n.parserWithin levels : Parser K (Option (Expr K))) (n.limited room) := by
  induction room generalizing depth levels n with
  | zero =>
    obtain ⟨levels, rfl⟩ := Nat.exists_eq_succ_of_ne_zero (Nat.ne_zero_of_lt hlevels)
    intro r s ⟨hmax, hd⟩ _ _
    have hdescend : r.descend? = none := by
      rw [Reader.descend?, hmax, hd]
      refine if_neg fun h => ?_
      have hlt : depth < m := of_decide_eq_true h
      omega
    exact .failed (run_nested_error hdescend) rfl
  | succ room ih =>
    obtain ⟨levels, rfl⟩ := Nat.exists_eq_succ_of_ne_zero (Nat.ne_zero_of_lt hlevels)
    have hself := ih (Nat.succ_add_eq_add_succ depth room ▸ hroom) (Nat.lt_of_succ_lt_succ hlevels)
    have hdepth : depth < m := by omega
    exact (nest_related (sameRunsAt_congruence _) hself n).nested hdepth

/-- **What is read within a limit on nesting** is what the grammar reads that is cut at the limit. -/
theorem parseTokens_limited_iff {located : List (Token K × Nat)} {m : Nat} {e : Expr K} :
    parseTokens located (some m) = .ok e ↔
      Reads (Nest.statement.limited m) (located.map (·.1)) [] (some e) := by
  refine parseTokens_iff_reads (Nest.limited_sameRuns m .statement) ?_
  -- The levels that the parser counts down cover the tokens, but maybe not the limit.
  let levels := 2 * located.length + 3 + (m + 1)
  have hrun : (Nest.statement.parser : Parser K (Option (Expr K))).run
      (.ofTokens located (some m)) =
        (Nest.statement.parserWithin levels).run (.ofTokens located (some m)) := by
    rw [Nest.run_parser, ← Nest.unrolled_nothing levels]
    have hlimits : Limits (some m) (some m) := .inl rfl
    cases Nest.parser_tracksAt hlimits (fun _ => return none) located
      (Nat.le_add_right _ (m + 1)) with
    | limit _ _ hne => exact absurd rfl hne
    | same result after _ hgrammar hunrolled => exact hgrammar.trans hunrolled.symm
  have hlevels : m < levels := by omega
  have hahead : (Reader.ofTokens located (some m)).ahead = (Reader.ofTokens located none).ahead :=
    rfl
  cases Nest.parserWithin_limited m (Nat.zero_add m) hlevels .statement
    (Reader.ofTokens located (some m)) (.ofTokens located none) ⟨rfl, rfl⟩ rfl hahead with
  | failed hp hq => exact .failed (hrun.trans hp) hq
  | found a n hn hp hq => exact .found a n hn (hrun.trans hp) hq

end Formula

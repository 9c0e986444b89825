import Formula.Proofs.Scalar.Text
import Formula.Proofs.Token.Lexing

/-!
# What tokens the lexer gives

The lexer reads no sign as a part of a number, takes no reserved word for a name and ends a string
at the first quote. `Token.IsLexed` says this of one token, and all tokens of a text are so.
-/

namespace Formula

variable {K : Type} [Scalar K]

/-- A number without a sign, a name that is no reserved word, or a string without a quote. -/
def Token.IsLexed : Token K → Prop
  | .number a => Scalar.isNegative a = false
  | .identifier name => isIdentifier name = true
  | .string value => '"' ∉ value.toList
  | .keyword _ | .symbol _ => True

/-- What begins a name continues one. -/
theorem isNameChar_of_isNameStart {c : Char} (h : isNameStart c = true) : isNameChar c = true := by
  rw [isNameChar, h, Bool.true_or]

/-- A word is reserved, or it is the name of something. -/
theorem isLexed_wordToken {c : Char} {cs : List Char} (hc : isNameStart c = true) :
    (wordToken (String.ofList ((c :: cs).takeWhile isNameChar)) : Token K).IsLexed := by
  have htake : (c :: cs).takeWhile isNameChar = c :: cs.takeWhile isNameChar :=
    List.takeWhile_cons_of_pos (isNameChar_of_isNameStart hc)
  have hall : ((c :: cs).takeWhile isNameChar).all isNameChar = true := List.all_takeWhile
  unfold wordToken
  split
  · trivial
  · next hword =>
    rw [htake] at hall hword
    rw [htake, Token.IsLexed, isIdentifier, isName, String.toList_ofList, hall, hword]
    simp [hc]

/-- What a string holds is cut off in front of the next quote. -/
theorem isLexed_string (cs : List Char) :
    (.string (String.ofList (cs.takeWhile (· != '"'))) : Token K).IsLexed := by
  intro h
  rw [String.toList_ofList] at h
  simpa using List.all_eq_true.1 List.all_takeWhile _ h

/-- The token at the start of characters. -/
theorem nextToken_isLexed [Scalar.LawfulText K] {cs : List Char} {t : Token K} {n : Nat}
    (h : nextToken cs = .ok (t, n)) : t.IsLexed := by
  unfold nextToken at h
  split at h
  · next base digits _ =>
    split at h <;> cases h
    next value hvalue =>
    unfold Scalar.ofSafeInt? at hvalue
    split at hvalue <;> cases hvalue
    exact Scalar.LawfulText.isNegative_ofInt _
  · dsimp only at h
    split at h
    · cases h
      exact Scalar.LawfulText.isNegative_ofDecimal _ _
    · split at h
      · cases h
      · split at h
        · next hc =>
          cases h
          exact isLexed_wordToken hc
        · split at h
          · split at h <;> cases h
            exact isLexed_string _
          · split at h <;> cases h
            trivial

/-- **The tokens of a text are lexed.** -/
theorem tokenizeFrom_isLexed [Scalar.LawfulText K] (cs : List Char) : ∀ {pending offset : Nat}
    {located : List (Token K × Nat)}, tokenizeFrom pending offset cs = .ok located →
      ∀ t ∈ located, t.1.IsLexed := by
  induction cs with
  | nil =>
    intro pending offset located h
    cases pending <;> cases h <;> exact nofun
  | cons c cs ih =>
    intro pending offset located h
    cases pending with
    | succ pending => exact ih h
    | zero =>
      rw [tokenizeFrom] at h
      split at h
      · exact ih h
      · split at h
        · next token length hnext =>
          cases hrest : (tokenizeFrom (length - 1) (offset + c.utf8Size) cs :
              Except _ (List (Token K × Nat))) with
          | error e =>
            rw [hrest] at h
            cases h
          | ok rest =>
            rw [hrest] at h
            cases h
            exact List.forall_mem_cons.2 ⟨nextToken_isLexed hnext, ih hrest⟩
        · cases h

end Formula

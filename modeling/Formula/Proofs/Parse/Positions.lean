import Formula.Binary64.Scalar
import Formula.Proofs.Parse.Congruence
import Formula.Proofs.Parse.Movement
import Formula.Proofs.Token.Lossless

/-!
# Errors point into the source

A parser keeps the tokens of its reader, and where it fails it does so at the next token of some
reader over them (`Points`). At the end of the tokens that is the last one, so every error of the
grammar is at the offset of a token (`parseTokens_error`). The tokens of a text start inside of it,
each at a character (`tokenize_position`), and so do the characters that the lexer refuses
(`tokenize_error_position`). So `parse_error_points`: an error with a position points at a token of
the text, or at the character that the lexer refuses.
-/

namespace Formula

open Formula.Parser Formula.Grammar
open String (utf8Len)

variable {K : Type}

/-! ## The offset of a reader -/

namespace Reader

variable {r : Reader K} {t : Token K}

/-- In front of a token the offset is that of the token. -/
theorem mem_of_peek? (h : r.peek? = some t) : (t, r.offset) ∈ r.tokens := by
  obtain ⟨found, hget, rfl⟩ := Option.map_eq_some_iff.1 h
  rw [offset, hget]
  exact Array.mem_of_getElem? hget

/-- Past the end the offset is that of the last token. -/
theorem exists_mem_offset (h : r.tokens ≠ #[]) : ∃ t, (t, r.offset) ∈ r.tokens := by
  cases hget : r.tokens[r.position]? with
  | some found =>
    refine ⟨found.1, ?_⟩
    rw [offset, hget]
    exact Array.mem_of_getElem? hget
  | none =>
    cases hlast : r.tokens.back? with
    | none => exact absurd (Array.back?_eq_none_iff.1 hlast) h
    | some last =>
      refine ⟨last.1, ?_⟩
      rw [offset, hget, hlast]
      exact Array.mem_of_back? hlast

end Reader

/-! ## What parsers fail with -/

namespace Parser

variable {α β : Type} {p : Parser K α} {f : α → Parser K β}

/-- The parser keeps the tokens, and fails with an error at the next token of some reader over
them that names no token. -/
def Points (p : Parser K α) : Prop :=
  ∀ r, (p.run r).2.tokens = r.tokens ∧ ∀ e, (p.run r).1 = .error e →
    ∃ s : Reader K, s.tokens = r.tokens ∧ e.position? = some s.offset ∧ e.token? = none

theorem Points.bind (hp : p.Points) (hf : ∀ a, (f a).Points) : (p >>= f).Points := by
  intro r
  obtain ⟨htokens, herror⟩ := hp r
  rcases hrun : p.run r with ⟨e | a, after⟩
  · rw [run_bind_error hrun]
    rw [hrun] at htokens herror
    exact ⟨htokens, fun e' he' => herror e' (by cases he'; rfl)⟩
  · rw [run_bind_ok hrun]
    rw [hrun] at htokens
    obtain ⟨hafter, hlater⟩ := hf a after
    refine ⟨hafter.trans htokens, fun e he => ?_⟩
    obtain ⟨s, hs, he⟩ := hlater e he
    exact ⟨s, hs.trans htokens, he⟩

/-- A checkpoint does not change the tokens. -/
theorem Points.speculate {p : Parser K (Option α)} (hp : p.Points) : (speculate p).Points := by
  intro r
  obtain ⟨htokens, herror⟩ := hp r.mark.2
  rcases hrun : p.run r.mark.2 with ⟨e | found?, after⟩
  · rw [run_speculate_error hrun]
    rw [hrun] at htokens herror
    exact ⟨htokens, fun e' he' => herror e' (by cases he'; rfl)⟩
  · rw [hrun] at htokens
    cases found? with
    | none =>
      rw [run_speculate_none hrun]
      exact ⟨htokens, nofun⟩
    | some a =>
      rw [run_speculate_some hrun]
      exact ⟨htokens, nofun⟩

/-- At a limit on nesting the error is at the next token as well. -/
theorem Points.nested (hp : p.Points) : (nested p).Points := by
  intro r
  cases hdescend : r.descend? with
  | none =>
    rw [run_nested_error hdescend]
    refine ⟨rfl, fun e he => ?_⟩
    cases he
    exact ⟨r, rfl, rfl, rfl⟩
  | some inner =>
    have hinner : inner.tokens = r.tokens := by
      unfold Reader.descend? at hdescend
      split at hdescend
      · cases hdescend
        rfl
      · cases hdescend
    obtain ⟨htokens, herror⟩ := hp inner
    rw [run_nested hdescend]
    refine ⟨htokens.trans hinner, fun e he => ?_⟩
    obtain ⟨s, hs, he⟩ := herror e he
    exact ⟨s, hs.trans hinner, he⟩

/-- The grammar keeps it that errors are at a token. -/
theorem points_congruence : Congruence fun {α} (p _ : Parser K α) => p.Points where
  pure _ _ := ⟨rfl, nofun⟩
  failHere error _ r := ⟨rfl, fun e he => by
    cases he
    exact ⟨r, rfl, Syntactic.position? _, Syntactic.token? _⟩⟩
  take? find? r := by
    refine ⟨?_, nofun⟩
    show (r.take? find?).2.tokens = r.tokens
    unfold Reader.take?
    split <;> rfl
  remaining r := ⟨rfl, nofun⟩
  look hf r := hf r r rfl r
  bind := .bind
  speculate := .speculate

end Parser

/-- The nested constructs keep the tokens, and point at one where they fail. -/
theorem Nest.parserWithin_points [Scalar K] (levels : Nat) (n : Nest) :
    (n.parserWithin levels : Parser K (Option (Expr K))).Points := by
  induction levels generalizing n with
  | zero => exact fun _ => ⟨rfl, nofun⟩
  | succ levels ih =>
    let self : Nest → Parser K (Option (Expr K)) := parserWithin levels
    have hself : ∀ n, (self n).Points := ih
    have hnest : (nest self n).Points := @nest_related _ _ points_congruence self self hself _ n
    exact hnest.nested

section

variable [Scalar K]

/-! ## Errors of the grammar -/

/-- **An error of the grammar is at a token**, and a token that it names is the one it is at. -/
theorem parseTokens_error {tokens : List (Token K × Nat)} {maxDepth? : Option Nat} {e : ParseError}
    (hne : tokens ≠ []) (h : parseTokens tokens maxDepth? = .error e) :
    ∃ t p, e.position? = some p ∧ (t, p) ∈ tokens ∧
      ∀ text, e.token? = some text → text = t.text := by
  have hpoints : (Nest.statement.parser : Parser K (Option (Expr K))).Points :=
    points_congruence.bind (q := remaining) (g := fun _ => pure none) points_congruence.remaining
      fun _ => Nest.parserWithin_points _ _
  have harray : tokens.toArray ≠ #[] := by simpa using hne
  obtain ⟨htokens, herror⟩ := hpoints (.ofTokens tokens maxDepth?)
  have hlast {s : Reader K} (hs : s.tokens = tokens.toArray) : ∃ t, (t, s.offset) ∈ tokens := by
    obtain ⟨t, ht⟩ := s.exists_mem_offset (hs ▸ harray)
    exact ⟨t, by simpa [hs] using ht⟩
  have hnext {s : Reader K} {t : Token K} (hs : s.tokens = tokens.toArray) (ht : s.peek? = some t) :
      (t, s.offset) ∈ tokens := by
    have hmem := Reader.mem_of_peek? ht
    simpa [hs] using hmem
  rcases hrun : (Nest.statement.parser : Parser K (Option (Expr K))).run
    (.ofTokens tokens maxDepth?) with ⟨cause | found?, after⟩
  · rw [hrun] at herror
    obtain ⟨s, hs, hposition, htoken⟩ := herror cause rfl
    obtain ⟨t, ht⟩ := hlast hs
    simp only [parseTokens, hrun, Except.error.injEq] at h
    subst h
    exact ⟨t, s.offset, hposition, ht, fun text htext => by cases htoken.symm.trans htext⟩
  · rw [hrun] at htokens
    -- The statement ends in front of a token that is left, or finds nothing at the end.
    cases hpeek : after.peek? with
    | some t =>
      have hmem := hnext htokens hpeek
      cases found? with
      | none | some _ =>
        simp only [parseTokens, hrun, hpeek, Except.error.injEq] at h
        subst h
        exact ⟨t, after.offset, rfl, hmem, fun text htext => (Option.some.inj htext).symm⟩
    | none =>
      obtain ⟨t, ht⟩ := hlast htokens
      cases found? with
      | none =>
        simp only [parseTokens, hrun, hpeek, Except.error.injEq] at h
        subst h
        exact ⟨t, after.offset, rfl, ht, nofun⟩
      | some tree =>
        simp only [parseTokens, hrun, hpeek] at h
        cases h

/-! ## Offsets in the source -/

/-- The tokens of a text start at its characters. -/
theorem tokenize_position {source : String} {tokens : List (Token K × Nat)} {t : Token K} {p : Nat}
    (h : tokenize source = .ok tokens) (ht : (t, p) ∈ tokens) :
    p < source.utf8ByteSize ∧ String.Pos.Raw.IsValid source ⟨p⟩ := by
  have hlossless := tokenize_lossless (K := K) source
  rw [h] at hlossless
  obtain ⟨lexemes, rfl, hsource⟩ := hlossless
  obtain ⟨l, hl, hlocated⟩ := List.mem_map.1 ht
  cases hlocated
  obtain ⟨_, _, -, -, hstop, hlongest⟩ := hsource.longest l hl
  have hpos := utf8Len_pos_of_isWord hlongest.isWord
  simp only [Lexeme.stop] at hstop
  exact ⟨by omega, hsource.isValid l hl⟩

/-- The lexer refuses a text at one of its characters. -/
theorem tokenize_error_position {source : String} {e : ParseError} {p : Nat}
    (h : tokenize (K := K) source = .error e) (hp : e.position? = some p) :
    p < source.utf8ByteSize ∧ String.Pos.Raw.IsValid source ⟨p⟩ := by
  have hlossless := tokenize_lossless (K := K) source
  rw [h] at hlossless
  obtain ⟨lexemes, refused, position, rfl, -, before, c, rest, hcharacters, rfl, -⟩ := hlossless
  cases hp
  have hsize : source.utf8ByteSize = utf8Len source.toList := by
    rw [← String.utf8ByteSize_ofList, String.ofList_toList]
  have hsplit : source = String.ofList before ++ String.ofList (c :: rest) := by
    rw [← String.ofList_append, ← hcharacters, String.ofList_toList]
  refine ⟨?_, String.Pos.Raw.isValid_iff_exists_append.2 ⟨_, _, hsplit, ?_⟩⟩
  · have hpos := c.utf8Size_pos
    rw [hsize, hcharacters, String.utf8Len_append, String.utf8Len_cons]
    omega
  · exact String.Pos.Raw.ext (String.utf8ByteSize_ofList before).symm

/-- Characters that are cut into no lexeme are blanks. -/
theorem Cut.isBlank_of_nil {start stop : Nat} {cs : List Char}
    (h : Cut start cs ([] : List (Lexeme K)) stop []) : ∀ c ∈ cs, isBlank c = true := by
  generalize hlexemes : ([] : List (Lexeme K)) = lexemes at h
  generalize hrest : ([] : List Char) = rest at h
  induction h with
  | done =>
    subst hrest
    exact nofun
  | blank hc _ ih => exact List.forall_mem_cons.2 ⟨hc, ih hlexemes hrest⟩
  | token => cases hlexemes

/-- A blank leaves a text empty. -/
theorem isWhiteSpace_of_isBlank {c : Char} (hc : isBlank c = true) : isWhiteSpace c = true := by
  have hmem : c ∈ [' ', '\t', '\r', '\n', '\x0c'] := of_decide_eq_true hc
  simp only [List.mem_cons, List.not_mem_nil, or_false] at hmem
  rcases hmem with rfl | rfl | rfl | rfl | rfl <;> rfl

/-- A text that is not empty has a token. -/
theorem tokens_ne_nil {source : String} {tokens : List (Token K × Nat)}
    (hblank : source.toList.all isWhiteSpace = false) (h : tokenize source = .ok tokens) :
    tokens ≠ [] := by
  rintro rfl
  have hrun := tokenizeFrom_isRun (K := K) source.toList 0
  rw [← tokenize, h] at hrun
  obtain ⟨lexemes, hlexemes, hcut⟩ := hrun
  obtain rfl : lexemes = [] := List.map_eq_nil_iff.1 hlexemes.symm
  have hall : source.toList.all isWhiteSpace = true :=
    List.all_eq_true.2 fun c hc => isWhiteSpace_of_isBlank (hcut.isBlank_of_nil c hc)
  rw [hall] at hblank
  cases hblank

/-! ## Errors of a text -/

/-- **An error points into the source.** The position of an error is inside the text, and not inside
of a character. Unless the lexer refuses the text, a token starts at the position, and a token that
the error names is that one. -/
theorem parse_error_points {maxDepth? : Option Nat} {source : String} {e : ParseError} {p : Nat}
    (h : parseWithin (K := K) maxDepth? source = .error e) (hp : e.position? = some p) :
    p < source.utf8ByteSize ∧ String.Pos.Raw.IsValid source ⟨p⟩ ∧
      (tokenize (K := K) source = .error e ∨ ∃ (tokens : List (Token K × Nat)) (t : Token K),
        tokenize source = .ok tokens ∧ (t, p) ∈ tokens ∧
          ∀ text, e.token? = some text → text = t.text) := by
  unfold parseWithin at h
  split at h
  · cases h
    cases hp
  · next hblank =>
    cases htokens : tokenize (K := K) source with
    | error cause =>
      rw [htokens] at h
      obtain rfl : cause = e := Except.error.inj h
      obtain ⟨hlt, hvalid⟩ := tokenize_error_position htokens hp
      exact ⟨hlt, hvalid, .inl rfl⟩
    | ok tokens =>
      rw [htokens] at h
      have hne := tokens_ne_nil (Bool.eq_false_iff.2 hblank) htokens
      obtain ⟨t, p', hposition, ht, htext⟩ := parseTokens_error hne h
      obtain rfl : p = p' := Option.some.inj (hp.symm.trans hposition)
      obtain ⟨hlt, hvalid⟩ := tokenize_position htokens ht
      exact ⟨hlt, hvalid, .inr ⟨tokens, t, rfl, ht, htext⟩⟩

end

/-- A closing parenthesis too many, behind characters of two and of three bytes. -/
theorem parse_error_points_parenthesis :
    (parseWithin none "2∠30° + α )" : Except ParseError (Expr Binary64)) =
        .error (.trailingTokens ")" 14) ∧
      14 < "2∠30° + α )".utf8ByteSize ∧ String.Pos.Raw.IsValid "2∠30° + α )" ⟨14⟩ ∧
        (tokenize (K := Binary64) "2∠30° + α )" = .error (.trailingTokens ")" 14) ∨
          ∃ (tokens : List (Token Binary64 × Nat)) (t : Token Binary64),
            tokenize "2∠30° + α )" = .ok tokens ∧ (t, 14) ∈ tokens ∧
              ∀ text, some ")" = some text → text = t.text) := by
  have hrefused : (match (parseWithin none "2∠30° + α )" : Except ParseError (Expr Binary64)) with
      | .error e => e == .trailingTokens ")" 14
      | .ok _ => false) = true := by decide +kernel
  split at hrefused
  · next e he =>
    obtain rfl := beq_iff_eq.1 hrefused
    exact ⟨he, parse_error_points he rfl⟩
  · cases hrefused

end Formula

import Formula.Proofs.Binary64.Shortest
import Formula.Proofs.RoundTrip.Spelling
import Formula.Proofs.Token.Lexed

/-!
# Tokens are read back from their texts

The texts of the tokens of a text, with blanks between them, are cut into the same tokens again,
if every number is finite (`tokenize_line`). A decimal literal that is too large for a double is
read as infinity, and infinity is written as a word: it is read back as an identifier.
-/

namespace Formula

/-! ## The texts of tokens -/

deriving instance DecidableEq for Token

section

variable {K : Type} [Scalar K]

/-- The texts of tokens with single blanks between them. -/
def Token.line (ts : List (Token K)) : String := String.intercalate " " (ts.map Token.text)

/-- Whether the token is no infinite or undefined number. -/
def Token.isFinite : Token K → Bool
  | number a => Scalar.isFinite a
  | _ => true

/-- Nothing follows, or a blank. -/
def endsToken (rest : List Char) : Bool := rest.head?.all (· = ' ')

theorem endsText_of_endsToken {rest : List Char} (h : endsToken rest = true) :
    endsText rest = true := by
  cases rest with
  | nil => rfl
  | cons c rest =>
    have hc : c = ' ' := by simpa [endsToken] using h
    rw [hc]
    rfl

theorem endsSymbol_of_endsToken (cs : List Char) {rest : List Char} (h : endsToken rest = true) :
    endsSymbol cs rest = true := by
  cases rest with
  | nil => rfl
  | cons c rest =>
    have hc : c = ' ' := by simpa [endsToken] using h
    rw [hc]
    exact endsSymbol_blank cs rest

/-- A keyword is found by its canonical spelling. -/
theorem ofWord?_text (k : Keyword) : Keyword.ofWord? k.text = some k := by
  have hall : ∀ k ∈ Keyword.all, Keyword.ofWord? k.text = some k := by decide
  exact hall k k.mem_all

/-- **A lexed token is read back from its text**, if its number is. -/
theorem Token.IsLexed.lexes [Scalar.LawfulText K] {t : Token K} {rest : List Char}
    {ts : List (Token K)} (ht : t.IsLexed) (hfinite : t.isFinite = true)
    (hreads : ∀ a, t = .number a → Scalar.ReadsBack a) (hrest : endsToken rest = true)
    (h : Lexes rest ts) : Lexes (t.text.toList ++ rest) (t :: ts) := by
  obtain ⟨hnumber, hword⟩ := endsNumber_of_endsText (endsText_of_endsToken hrest)
  cases t with
  | number a => exact lexes_number hfinite ht (hreads a rfl) hnumber h
  | identifier name => exact lexes_identifier ht hword h
  | string value =>
    have hspells := (spells_string ht).lexes h
    rw [String.ofList_toList] at hspells
    simpa [Token.text] using hspells
  | keyword k => exact lexes_keyword (ofWord?_text k) hword h
  | symbol s => exact (spells_symbol (ofChars?_text s) (endsSymbol_of_endsToken _ hrest)).lexes h

/-- The first of several texts stands in front of a blank. -/
theorem Token.line_cons_toList (t : Token K) (ts : List (Token K)) :
    (line (t :: ts)).toList =
      t.text.toList ++ if ts = [] then [] else ' ' :: (line ts).toList := by
  cases ts with
  | nil => simp [line]
  | cons u us => simp [line, String.intercalate_cons_cons]

/-- Tokens are read back from their texts if each of them is read back in front of a blank. -/
theorem lexes_line {f : Token K → Token K} {ts : List (Token K)}
    (h : ∀ t ∈ ts, ∀ {rest us}, endsToken rest = true → Lexes rest us →
      Lexes (t.text.toList ++ rest) (f t :: us)) : Lexes (Token.line ts).toList (ts.map f) := by
  induction ts with
  | nil => exact .nil
  | cons t ts ih =>
    obtain ⟨ht, hts⟩ := List.forall_mem_cons.1 h
    rw [Token.line_cons_toList, List.map_cons]
    split
    · next hnil =>
      rw [hnil]
      exact ht rfl .nil
    · exact ht rfl (.blank rfl (ih hts))

end

/-! ## Doubles -/

namespace Binary64

variable {x : Binary64}

/-- A number that is not finite has no parts. -/
theorem parts?_eq_none (h : x.isFinite = false) : x.parts? = none := by
  have hlow : 2047 * 2 ^ 52 ≤ x.magnitude.toNat := by
    have hle := UInt64.le_iff_toNat_le.1 (UInt64.not_lt.1 (of_decide_eq_false h))
    exact hle
  have hhigh : x.magnitude.toNat < 2 ^ 63 := by
    rw [magnitude_toNat]
    exact Nat.mod_lt _ (Nat.two_pow_pos 63)
  have hfield : x.magnitude.toNat / 2 ^ 52 = 2047 := by omega
  rw [parts?]
  exact if_pos hfield

/-- What is not finite and has no sign is written as a word. -/
theorem isIdentifier_text (hfinite : x.isFinite = false) (hsign : x.isNegative = false) :
    isIdentifier x.text = true := by
  rw [text, render, parts?_eq_none hfinite, hsign]
  dsimp only
  split
  · decide
  · decide

/-- What a token is read as behind its text: a number that is not finite is read as a word. -/
def reread (t : Token Binary64) : Token Binary64 := if t.isFinite then t else .identifier t.text

/-- Only tokens with finite numbers are read as themselves. -/
theorem reread_eq_iff {t : Token Binary64} : reread t = t ↔ t.isFinite = true := by
  constructor
  · intro h
    by_contra hfinite
    rw [reread, if_neg hfinite] at h
    rw [← h] at hfinite
    exact hfinite rfl
  · intro h
    rw [reread, if_pos h]

/-- A lexed token with a double is read back from its text, or as a word. -/
theorem lexes_reread {t : Token Binary64} {rest : List Char} {ts : List (Token Binary64)}
    (ht : t.IsLexed) (hrest : endsToken rest = true) (h : Lexes rest ts) :
    Lexes (t.text.toList ++ rest) (reread t :: ts) := by
  cases hfinite : t.isFinite with
  | true =>
    rw [reread, if_pos hfinite]
    refine ht.lexes hfinite (fun a ha => ?_) hrest h
    subst ha
    exact readsBack hfinite ht
  | false =>
    rw [reread, if_neg (by simp [hfinite])]
    cases t with
    | number a =>
      have hword := (endsNumber_of_endsText (endsText_of_endsToken hrest)).2
      exact lexes_identifier (isIdentifier_text hfinite ht) hword h
    | _ => cases hfinite

/-- **The texts of tokens are cut into tokens again**, and these are the same tokens iff every
number is finite. -/
theorem tokenize_line {source : String} {located : List (Token Binary64 × Nat)}
    (h : tokenize source = .ok located) :
    ∃ relocated, tokenize (Token.line (located.map (·.1))) = .ok relocated ∧
      (relocated.map (·.1) = located.map (·.1) ↔ ∀ t ∈ located, t.1.isFinite = true) := by
  have hlexed := tokenizeFrom_isLexed _ h
  have hlexes : Lexes (Token.line (located.map (·.1))).toList
      ((located.map (·.1)).map reread) := by
    refine lexes_line fun t ht {rest us} hrest hus => ?_
    obtain ⟨l, hl, rfl⟩ := List.mem_map.1 ht
    exact lexes_reread (hlexed l hl) hrest hus
  obtain ⟨relocated, htokenize, htokens⟩ := hlexes 0
  refine ⟨relocated, htokenize, ?_⟩
  rw [htokens, List.map_map, List.map_inj_left]
  exact forall₂_congr fun t _ => reread_eq_iff

/-- Literals of every sort, a string, Greek letters and the longest symbols. -/
theorem tokenize_line_literals :
    ∃ located relocated : List (Token Binary64 × Nat),
      tokenize "0xFF*2.5e-3 α1<<=\"inf °\" xnor .5" = .ok located ∧
      tokenize (Token.line (located.map (·.1))) = .ok relocated ∧
        relocated.map (·.1) = located.map (·.1) := by
  have h : tokenize "0xFF*2.5e-3 α1<<=\"inf °\" xnor .5" = .ok
      [(.number (ofInt 255), 0), (.symbol .star, 4), (.number (ofDecimal 25 (-4)), 5),
        (.identifier "α1", 12), (.symbol (.assign .shiftLeft), 15), (.string "inf °", 18),
        (.keyword .eq, 27), (.number (ofDecimal 5 (-1)), 32)] := by
    decide +kernel
  obtain ⟨relocated, hrelocated, hiff⟩ := tokenize_line h
  exact ⟨_, relocated, h, hrelocated, hiff.2 (by decide +kernel)⟩

/-- A literal that is too large is read as infinity, whose text is a name. -/
theorem tokenize_line_overflow :
    ∃ located relocated : List (Token Binary64 × Nat), tokenize "1e400" = .ok located ∧
      tokenize (Token.line (located.map (·.1))) = .ok relocated ∧
        relocated.map (·.1) ≠ located.map (·.1) :=
  ⟨[(.number infinity, 0)], [(.identifier "inf", 0)], by decide +kernel⟩

end Binary64

end Formula

import Formula.Proofs.Token.Longest

/-!
# Lexing loses nothing

`tokenize` cuts a text into lexemes with blanks between them (`Cut`), one after the other from the
start of the text. Every lexeme is the longest word where it starts, and what is in no lexeme is
blank (`IsLossless`). Where the cut stops short of the end of the text, no word starts, or one that
has no value.
-/

namespace Formula

open String (utf8Len)

/-- A token of a text with the characters that it is read from. -/
structure Lexeme (K : Type) where
  token : Token K
  /-- The byte at which it starts. -/
  offset : Nat
  word : List Char

namespace Lexeme

variable {K : Type}

/-- The byte behind a lexeme. -/
def stop (l : Lexeme K) : Nat := l.offset + utf8Len l.word

/-- The token as the lexer gives it. -/
def located (l : Lexeme K) : Token K × Nat := (l.token, l.offset)

end Lexeme

section

variable {K : Type} [Scalar K]

/-- The lexemes of a text up to a byte, with nothing but blanks around them. -/
structure IsLossless (source : String) (lexemes : List (Lexeme K)) (stop : Nat) : Prop where
  /-- One starts after the other. -/
  increasing : (lexemes.map (·.offset)).Pairwise (· < ·)
  /-- They do not overlap. -/
  disjoint : lexemes.Pairwise fun l m => l.stop ≤ m.offset
  /-- None starts inside a character. -/
  isValid : ∀ l ∈ lexemes, String.Pos.Raw.IsValid source ⟨l.offset⟩
  /-- A lexeme is the longest word where it starts. -/
  longest : ∀ l ∈ lexemes, ∃ before after, source.toList = before ++ (l.word ++ after) ∧
    utf8Len before = l.offset ∧ l.stop ≤ stop ∧ IsLongest l.word (l.word ++ after)
  /-- It stands for its token. -/
  denotes : ∀ l ∈ lexemes, Denotes l.word l.token
  /-- A name is the keyword that the whole of it spells, and an identifier if it spells none. -/
  keyword : ∀ l ∈ lexemes, l.word ∈ Rule.name.language →
    (∀ k, l.token = .keyword k ↔ l.word ∈ (Rule.keyword k).language) ∧
      (l.token = .identifier (String.ofList l.word) ↔
        ∀ k, l.word ∉ (Rule.keyword k).language)
  /-- A byte outside of them is a blank. -/
  blank : ∀ i < stop, (∀ l ∈ lexemes, ¬(l.offset ≤ i ∧ i < l.stop)) →
    ∃ before c after, source.toList = before ++ c :: after ∧ utf8Len before = i ∧
      c.utf8Size = 1 ∧ isBlank c = true

/-! ## What a word stands for -/

/-- A name is the keyword that it spells, or else an identifier. -/
theorem Denotes.of_name {w : List Char} {t : Token K} (h : Denotes w t)
    (hname : w ∈ Rule.name.language) :
    (∀ k, t = .keyword k ↔ w ∈ (Rule.keyword k).language) ∧
      (t = .identifier (String.ofList w) ↔ ∀ k, w ∉ (Rule.keyword k).language) := by
  obtain ⟨r, hmem, htoken, hreserved⟩ := h
  have hlead : r.lead = .letter := by
    obtain ⟨c, b, rfl, hc⟩ := Rule.leadOf_of_mem hname
    rw [Rule.lead_eq hmem (List.prefix_refl _), hc]
    rfl
  cases r with
  | name =>
    obtain rfl : Token.identifier (String.ofList w) = t := Option.some.inj htoken
    have hnone := hreserved rfl
    exact ⟨fun k => ⟨nofun, fun hk => absurd hk (hnone k)⟩, fun _ => hnone, fun _ => rfl⟩
  | keyword k =>
    obtain rfl : Token.keyword k = t := Option.some.inj htoken
    refine ⟨fun k' => ⟨fun h => ?_, fun hk' => ?_⟩, nofun, fun h => absurd hmem (h k)⟩
    · cases h
      exact hmem
    · have hk := ofWord?_eq_some.2 hmem
      rw [ofWord?_eq_some.2 hk'] at hk
      rw [Option.some.inj hk]
  | _ => cases hlead

/-! ## The cut of a text -/

/-- The characters from a byte on are cut into lexemes and blanks as far as some byte, with the
rest left over. -/
inductive Cut : Nat → List Char → List (Lexeme K) → Nat → List Char → Prop where
  | done {start : Nat} {cs : List Char} : Cut start cs [] start cs
  | blank {start stop : Nat} {c : Char} {cs rest : List Char} {lexemes : List (Lexeme K)} :
    isBlank c = true → Cut (start + c.utf8Size) cs lexemes stop rest →
      Cut start (c :: cs) lexemes stop rest
  | token {start stop : Nat} {w cs rest : List Char} {t : Token K} {lexemes : List (Lexeme K)} :
    IsLongest w (w ++ cs) → Denotes w t → Cut (start + utf8Len w) cs lexemes stop rest →
      Cut start (w ++ cs) (⟨t, start, w⟩ :: lexemes) stop rest

variable {start stop : Nat} {w cs rest : List Char} {c : Char} {t : Token K}
  {lexemes : List (Lexeme K)}

/-- The cut begins before it ends. -/
theorem Cut.exists_append (h : Cut start cs lexemes stop rest) :
    ∃ before, cs = before ++ rest ∧ start + utf8Len before = stop := by
  induction h with
  | done => exact ⟨[], rfl, rfl⟩
  | @blank start stop c cs rest lexemes hc _ ih =>
    obtain ⟨before, rfl, hstop⟩ := ih
    exact ⟨c :: before, rfl, by rw [← hstop, String.utf8Len_cons]; omega⟩
  | @token start stop w cs rest t lexemes _ _ _ ih =>
    obtain ⟨before, rfl, hstop⟩ := ih
    exact ⟨w ++ before, (List.append_assoc _ _ _).symm, by
      rw [← hstop, String.utf8Len_append]; omega⟩

/-- Every lexeme lies in the cut, and is the longest word where it starts. -/
theorem Cut.longest (h : Cut start cs lexemes stop rest) : ∀ l ∈ lexemes,
    (∃ before after, cs = before ++ (l.word ++ after) ∧ start + utf8Len before = l.offset ∧
      l.stop ≤ stop ∧ IsLongest l.word (l.word ++ after)) ∧ Denotes l.word l.token := by
  induction h with
  | done => exact nofun
  | @blank start stop c cs rest lexemes hc _ ih =>
    intro l hl
    obtain ⟨⟨before, after, rfl, hoffset, hstop, hlongest⟩, hdenotes⟩ := ih l hl
    refine ⟨⟨c :: before, after, rfl, ?_, hstop, hlongest⟩, hdenotes⟩
    rw [← hoffset, String.utf8Len_cons]
    omega
  | @token start stop w cs rest t lexemes hlongest hdenotes hcut ih =>
    refine List.forall_mem_cons.2 ⟨⟨⟨[], cs, rfl, rfl, ?_, hlongest⟩, hdenotes⟩, fun l hl => ?_⟩
    · obtain ⟨before, -, hstop⟩ := hcut.exists_append
      show start + utf8Len w ≤ stop
      omega
    · obtain ⟨⟨before, after, rfl, hoffset, hstop, hlongest⟩, hdenotes⟩ := ih l hl
      refine ⟨⟨w ++ before, after, (List.append_assoc _ _ _).symm, ?_, hstop, hlongest⟩, hdenotes⟩
      rw [← hoffset, String.utf8Len_append]
      omega

/-- Every lexeme starts where the one before it has ended. -/
theorem Cut.disjoint (h : Cut start cs lexemes stop rest) :
    lexemes.Pairwise fun l m => l.stop ≤ m.offset := by
  induction h with
  | done => exact .nil
  | blank _ _ ih => exact ih
  | token _ _ hcut ih =>
    refine .cons (fun m hm => ?_) ih
    obtain ⟨⟨before, -, -, hoffset, -⟩, -⟩ := hcut.longest m hm
    show _ ≤ m.offset
    simp only [Lexeme.stop]
    omega

/-- Blanks take one byte. -/
theorem utf8Size_of_isBlank (hc : isBlank c = true) : c.utf8Size = 1 := by
  have hmem : c ∈ [' ', '\t', '\r', '\n', '\x0c'] := of_decide_eq_true hc
  simp only [List.mem_cons, List.not_mem_nil, or_false] at hmem
  rcases hmem with rfl | rfl | rfl | rfl | rfl <;> rfl

/-- What is in no lexeme of the cut is blank. -/
theorem Cut.isBlank_of_not_mem (h : Cut start cs lexemes stop rest) : ∀ i, start ≤ i → i < stop →
    (∀ l ∈ lexemes, ¬(l.offset ≤ i ∧ i < l.stop)) →
      ∃ before c after, cs = before ++ c :: after ∧ start + utf8Len before = i ∧
        c.utf8Size = 1 ∧ isBlank c = true := by
  induction h with
  | done => exact fun i hstart hstop => absurd hstart (Nat.not_le.2 hstop)
  | @blank start stop c cs rest lexemes hc _ ih =>
    intro i hstart hstop hout
    have hsize := utf8Size_of_isBlank hc
    rcases Nat.eq_or_lt_of_le hstart with rfl | hlater
    · exact ⟨[], c, cs, rfl, rfl, hsize, hc⟩
    · obtain ⟨before, b, after, rfl, hoffset, hb⟩ := ih i (by omega) hstop hout
      refine ⟨c :: before, b, after, rfl, ?_, hb⟩
      rw [← hoffset, String.utf8Len_cons]
      omega
  | @token start stop w cs rest t lexemes _ _ _ ih =>
    intro i hstart hstop hout
    obtain ⟨hfirst, hlater⟩ := List.forall_mem_cons.1 hout
    have hbehind : start + utf8Len w ≤ i := by
      simp only [Lexeme.stop] at hfirst
      omega
    obtain ⟨before, b, after, rfl, hoffset, hb⟩ := ih i hbehind hstop hlater
    refine ⟨w ++ before, b, after, (List.append_assoc _ _ _).symm, ?_, hb⟩
    rw [← hoffset, String.utf8Len_append]
    omega

/-- No word is empty. -/
theorem utf8Len_pos_of_isWord (h : IsWord w) : 0 < utf8Len w := by
  obtain ⟨r, hr⟩ := h
  obtain ⟨c, b, rfl, -⟩ := Rule.leadOf_of_mem hr
  have hpos := c.utf8Size_pos
  rw [String.utf8Len_cons]
  omega

/-- A text is the lexemes of its cut with blanks around them. -/
theorem Cut.isLossless {source : String} (h : Cut 0 source.toList lexemes stop rest) :
    IsLossless source lexemes stop where
  increasing := by
    refine List.pairwise_map.2 (h.disjoint.imp_of_mem fun {l m} hl _ hstop => ?_)
    obtain ⟨⟨_, _, -, -, -, hlongest⟩, -⟩ := h.longest l hl
    have hpos := utf8Len_pos_of_isWord hlongest.isWord
    simp only [Lexeme.stop] at hstop
    omega
  disjoint := h.disjoint
  isValid l hl := by
    obtain ⟨⟨before, after, hsource, hoffset, -⟩, -⟩ := h.longest l hl
    refine String.Pos.Raw.isValid_iff_exists_append.2
      ⟨String.ofList before, String.ofList (l.word ++ after), ?_, ?_⟩
    · rw [← String.ofList_append, ← hsource, String.ofList_toList]
    · rw [← hoffset, Nat.zero_add]
      exact String.Pos.Raw.ext (String.utf8ByteSize_ofList before).symm
  longest l hl := by
    obtain ⟨⟨before, after, hsource, hoffset, hstop, hlongest⟩, -⟩ := h.longest l hl
    exact ⟨before, after, hsource, by omega, hstop, hlongest⟩
  denotes l hl := (h.longest l hl).2
  keyword l hl := (h.longest l hl).2.of_name
  blank i hstop hout := by
    obtain ⟨before, c, after, hsource, hoffset, hc⟩ :=
      h.isBlank_of_not_mem i (Nat.zero_le i) hstop hout
    exact ⟨before, c, after, hsource, by omega, hc⟩

/-! ## The run of the lexer -/

/-- A blank is passed over. -/
theorem tokenizeFrom_blank (hc : isBlank c = true) :
    (tokenizeFrom 0 start (c :: cs) : Except _ (List (Token K × Nat))) =
      tokenizeFrom 0 (start + c.utf8Size) cs := by
  rw [tokenizeFrom, if_pos hc]

/-- The longest word is cut off, and the lexer goes on behind it. -/
theorem tokenizeFrom_token {n : Nat} (start : Nat) (hc : isBlank c = false)
    (h : nextToken (c :: cs) = .ok (t, n)) :
    ∃ w rest, c :: cs = w ++ rest ∧ IsLongest w (w ++ rest) ∧ Denotes w t ∧
      (tokenizeFrom 0 start (c :: cs) : Except _ (List (Token K × Nat))) =
        (tokenizeFrom 0 (start + utf8Len w) rest).map ((t, start) :: ·) := by
  obtain ⟨hlongest, hdenotes⟩ := nextToken_ok h
  refine ⟨(c :: cs).take n, (c :: cs).drop n, (List.take_append_drop n _).symm,
    by rwa [List.take_append_drop], hdenotes, ?_⟩
  cases n with
  | zero => exact absurd (utf8Len_pos_of_isWord hlongest.isWord) (Nat.lt_irrefl 0)
  | succ n =>
    rw [tokenizeFrom, if_neg (by simp [hc]), h]
    simp only [Nat.add_sub_cancel, tokenizeFrom_pending n, List.take_succ_cons,
      List.drop_succ_cons, String.utf8Len_cons, Nat.add_assoc, Nat.add_comm c.utf8Size]

/-- What the lexer makes of the characters from a byte on: all of them are cut, or they are cut as
far as a character with which no token begins. -/
def IsRun (start : Nat) (cs : List Char) : Except ParseError (List (Token K × Nat)) → Prop
  | .ok located => ∃ lexemes : List (Lexeme K), located = lexemes.map Lexeme.located ∧
    Cut start cs lexemes (start + utf8Len cs) []
  | .error cause => ∃ (lexemes : List (Lexeme K)) (refused : String) (position : Nat) (c : Char)
      (rest : List Char), cause = .unexpectedToken refused position ∧
    Cut start cs lexemes position (c :: rest) ∧ isBlank c = false ∧ IsStuck K (c :: rest)

/-- A blank in front does not change what the lexer makes of the rest. -/
theorem IsRun.blank {result : Except ParseError (List (Token K × Nat))} (hc : isBlank c = true)
    (h : IsRun (start + c.utf8Size) cs result) : IsRun start (c :: cs) result := by
  cases result with
  | ok located =>
    obtain ⟨lexemes, hlocated, hcut⟩ := h
    refine ⟨lexemes, hlocated, .blank hc ?_⟩
    rwa [String.utf8Len_cons, Nat.add_comm (utf8Len cs), ← Nat.add_assoc]
  | error cause =>
    obtain ⟨lexemes, refused, position, b, rest, hcause, hcut, hstuck⟩ := h
    exact ⟨lexemes, refused, position, b, rest, hcause, .blank hc hcut, hstuck⟩

/-- A token in front is one more lexeme. -/
theorem IsRun.token {result : Except ParseError (List (Token K × Nat))}
    (hlongest : IsLongest w (w ++ cs)) (hdenotes : Denotes w t)
    (h : IsRun (start + utf8Len w) cs result) :
    IsRun start (w ++ cs) (result.map ((t, start) :: ·)) := by
  cases result with
  | ok located =>
    obtain ⟨lexemes, rfl, hcut⟩ := h
    refine ⟨⟨t, start, w⟩ :: lexemes, rfl, .token hlongest hdenotes ?_⟩
    rwa [String.utf8Len_append, ← Nat.add_assoc]
  | error cause =>
    obtain ⟨lexemes, refused, position, b, rest, hcause, hcut, hstuck⟩ := h
    exact ⟨_, refused, position, b, rest, hcause, .token hlongest hdenotes hcut, hstuck⟩

/-- **The lexer cuts the characters as far as it can.** -/
theorem tokenizeFrom_isRun (cs : List Char) (start : Nat) :
    IsRun start cs (tokenizeFrom 0 start cs : Except _ (List (Token K × Nat))) := by
  -- A token takes several characters, so the induction is on how many are left.
  induction hn : cs.length using Nat.strong_induction_on generalizing cs start with
  | _ n ih =>
    subst hn
    cases cs with
    | nil => exact ⟨[], rfl, .done⟩
    | cons c cs =>
      cases hc : isBlank c with
      | true =>
        rw [tokenizeFrom_blank hc]
        exact (ih cs.length (Nat.lt_succ_self _) cs _ rfl).blank hc
      | false =>
        cases hnext : (nextToken (c :: cs) : Except _ (Token K × Nat)) with
        | ok found =>
          obtain ⟨t, n⟩ := found
          obtain ⟨w, rest, hcs, hlongest, hdenotes, hrun⟩ :=
            tokenizeFrom_token start hc hnext
          have hlength : rest.length < (c :: cs).length := by
            have hpos : w ≠ [] := by
              rintro rfl
              exact absurd (utf8Len_pos_of_isWord hlongest.isWord) (Nat.lt_irrefl 0)
            rw [hcs, List.length_append]
            have := List.length_pos_iff.2 hpos
            omega
          rw [hrun, hcs]
          exact (ih rest.length hlength rest _ rfl).token hlongest hdenotes
        | error refused =>
          rw [tokenizeFrom, if_neg (by simp [hc]), hnext]
          exact ⟨[], _, start, c, cs, rfl, .done, hc, nextToken_error hc hnext⟩

/-- **Lexing loses nothing.** The tokens of a text are its longest words, one after the other, with
nothing but blanks around them. A text is refused at the place behind such words and blanks where no
word begins, or where the longest one is a number without a value. -/
theorem tokenize_lossless (source : String) :
    match (tokenize source : Except ParseError (List (Token K × Nat))) with
    | .ok located => ∃ lexemes : List (Lexeme K), located = lexemes.map Lexeme.located ∧
      IsLossless source lexemes source.utf8ByteSize
    | .error cause => ∃ (lexemes : List (Lexeme K)) (refused : String) (position : Nat),
      cause = .unexpectedToken refused position ∧ IsLossless source lexemes position ∧
        ∃ before c rest, source.toList = before ++ c :: rest ∧ utf8Len before = position ∧
          isBlank c = false ∧ IsStuck K (c :: rest) := by
  have hrun := tokenizeFrom_isRun (K := K) source.toList 0
  rw [tokenize]
  split
  · next located hlocated =>
    rw [hlocated] at hrun
    obtain ⟨lexemes, rfl, hcut⟩ := hrun
    have hsize : 0 + utf8Len source.toList = source.utf8ByteSize := by
      rw [Nat.zero_add, ← String.utf8ByteSize_ofList, String.ofList_toList]
    rw [hsize] at hcut
    exact ⟨lexemes, rfl, hcut.isLossless⟩
  · next cause hcause =>
    rw [hcause] at hrun
    obtain ⟨lexemes, refused, position, c, rest, rfl, hcut, hc, hstuck⟩ := hrun
    obtain ⟨before, hsource, hposition⟩ := hcut.exists_append
    exact ⟨lexemes, refused, position, rfl, hcut.isLossless, before, c, rest, hsource,
      by omega, hc, hstuck⟩

end

end Formula

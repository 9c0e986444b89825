import Formula.Proofs.Token.Rules

/-!
# The longest lexeme is taken

Lexemes of different sorts begin with different characters (`Rule.lead_eq`), except that a number
in another base begins like a decimal one. So the longest word at some place is the longest one of
the sorts that begin like it (`isLongest_of_lead`), and that is what `nextToken` takes
(`nextToken_ok`); what it refuses is no word, or a literal without a value (`nextToken_error`).
-/

namespace Formula

section

variable {r : Rule} {w cs : List Char} {c : Char}

/-! ## Where the sorts begin -/

/-- What the first character of a lexeme can be. -/
inductive Lead where
  | digit | point | quote | letter | blank
  /-- Anything else: only symbols begin so. -/
  | mark

/-- What a character is at the start of a lexeme. -/
def leadOf (c : Char) : Lead :=
  if c.isDigit then .digit
  else if isBlank c then .blank
  else if c = '.' then .point
  else if c = '"' then .quote
  else if isNameStart c then .letter
  else .mark

/-- What the words of a sort begin with. -/
def Rule.lead : Rule → Lead
  | decimal | radix _ => .digit
  | fraction => .point
  | name | keyword _ => .letter
  | string => .quote
  | symbol _ => .mark
  | blank => .blank

theorem leadOf_of_isDigit (h : c.isDigit = true) : leadOf c = .digit := if_pos h

theorem leadOf_of_isNameStart (h : isNameStart c = true) : leadOf c = .letter := by
  obtain ⟨hdigit, hblank, hpoint, hquote⟩ := not_isDigit_of_isNameStart h
  simp [leadOf, hdigit, hblank, hpoint, hquote, h]

theorem leadOf_of_isBlank (h : isBlank c = true) : leadOf c = .blank := by
  have hdigit : ¬c.isDigit = true := fun hc => by simp [isBlank_of_isDigit hc] at h
  simp [leadOf, hdigit, h]

/-- No word is empty, and it begins as its sort does. -/
theorem Rule.leadOf_of_mem (h : w ∈ r.language) : ∃ c b, w = c :: b ∧ leadOf c = r.lead := by
  have hhead {p : Char → Bool} (h : w.head?.any p = true) : ∃ c b, w = c :: b ∧ p c = true := by
    cases w with
    | nil => cases h
    | cons c b => exact ⟨c, b, rfl, by simpa using h⟩
  cases r with
  | decimal =>
    obtain ⟨m, hm, e, -, rfl⟩ := Language.mem_mul.1 h
    obtain ⟨a, ha, f, -, rfl⟩ := Language.mem_mul.1 hm
    obtain ⟨hne, hall⟩ := mem_someOf.1 ha
    obtain ⟨c, b, rfl⟩ := List.exists_cons_of_ne_nil hne
    exact ⟨c, _, rfl, leadOf_of_isDigit (hall c (.head _))⟩
  | fraction =>
    obtain ⟨f, hf, e, -, rfl⟩ := Language.mem_mul.1 h
    obtain ⟨ds, -, -, rfl⟩ := mem_fractions.1 hf
    exact ⟨'.', _, rfl, rfl⟩
  | radix base =>
    obtain ⟨mark, digits, -, -, -, rfl⟩ := mem_radix.1 h
    exact ⟨'0', _, rfl, rfl⟩
  | name =>
    obtain ⟨c, b, rfl, hc⟩ := hhead (Bool.and_eq_true_iff.1 (mem_name.1 h)).1
    exact ⟨c, b, rfl, leadOf_of_isNameStart hc⟩
  | string =>
    obtain ⟨body, -, rfl⟩ := mem_string.1 h
    exact ⟨'"', _, rfl, rfl⟩
  | keyword k =>
    have hname := isName_of_mem_spellings (show String.ofList w ∈ k.spellings from h)
    rw [String.toList_ofList] at hname
    obtain ⟨c, b, rfl, hc⟩ := hhead (Bool.and_eq_true_iff.1 hname).1
    exact ⟨c, b, rfl, leadOf_of_isNameStart hc⟩
  | symbol s =>
    obtain ⟨c, b, rfl, hc⟩ := hhead (spelling_of_ofChars? (ofChars?_eq_some.2 h)).2
    refine ⟨c, b, rfl, ?_⟩
    simp only [Bool.and_eq_true, Bool.not_eq_true', decide_eq_true_eq] at hc
    simp [leadOf, Rule.lead, hc]
  | blank =>
    obtain ⟨hne, hall⟩ := mem_someOf.1 h
    obtain ⟨c, b, rfl⟩ := List.exists_cons_of_ne_nil hne
    exact ⟨c, b, rfl, leadOf_of_isBlank (hall c (.head _))⟩

/-- A word at the start of the characters begins with their first one. -/
theorem Rule.lead_eq (h : w ∈ r.language) (hstart : w <+: c :: cs) : r.lead = leadOf c := by
  obtain ⟨d, b, rfl, hd⟩ := leadOf_of_mem h
  obtain ⟨rfl, -⟩ := List.cons_prefix_cons.1 hstart
  exact hd.symm

/-- A word is the longest one if it is so among the words that begin like it. -/
theorem isLongest_of_lead (hw : w ∈ r.language) (hstart : w <+: cs)
    (h : ∀ {r' : Rule} {w'}, r'.lead = r.lead → w' ∈ r'.language → w' <+: cs →
      w'.length ≤ w.length) : IsLongest w cs where
  isWord := ⟨r, hw⟩
  isStart := hstart
  longest := by
    rintro w' ⟨r', hw'⟩ hstart'
    refine h ?_ hw' hstart'
    obtain ⟨c, b, rfl, hc⟩ := Rule.leadOf_of_mem hw
    obtain ⟨rest, rfl, -⟩ := List.cons_prefix_iff.1 hstart
    rw [Rule.lead_eq hw' hstart', hc]

end

/-! ## The longest words -/

section

variable {base : Nat} {w cs digits : List Char} {s : Symbol} {n : Nat}

/-- The number in another base that is cut off is one. -/
theorem mem_radix_of_radixLexeme? (h : radixLexeme? cs = some (base, digits)) :
    ∃ mark, radixOf? mark = some base ∧ '0' :: mark :: digits <+: cs ∧
      '0' :: mark :: digits ∈ (Rule.radix base).language := by
  unfold radixLexeme? at h
  split at h
  · next mark rest =>
    obtain ⟨base', hmark, h⟩ := Option.bind_eq_some_iff.1 h
    dsimp only at h
    split at h <;> cases h
    next hne =>
    refine ⟨mark, hmark, ?_, mem_radix.2 ⟨mark, _, hmark, mt List.isEmpty_iff.2 hne,
      fun c hc => List.all_eq_true.1 List.all_takeWhile c hc, rfl⟩⟩
    exact List.cons_prefix_cons.2 ⟨rfl, List.cons_prefix_cons.2 ⟨rfl, List.takeWhile_prefix _⟩⟩
  · cases h

/-- Where there is a number in another base, the longest one is cut off. -/
theorem radixLexeme?_longest (hw : w ∈ (Rule.radix base).language) (hstart : w <+: cs) :
    ∃ digits, radixLexeme? cs = some (base, digits) ∧ w.length ≤ digits.length + 2 := by
  obtain ⟨mark, digits, hmark, hne, hall, rfl⟩ := mem_radix.1 hw
  obtain ⟨_, rfl, htail⟩ := List.cons_prefix_iff.1 hstart
  obtain ⟨rest, rfl, hdigits⟩ := List.cons_prefix_iff.1 htail
  have htake := prefix_takeWhile hall hdigits
  have hfound : rest.takeWhile (isDigitIn base) ≠ [] := fun h => hne (by simpa [h] using htake)
  refine ⟨rest.takeWhile (isDigitIn base), ?_, by simpa using htake.length_le⟩
  rw [radixLexeme?, hmark]
  exact if_neg (mt List.isEmpty_iff.1 hfound)

/-- A letter that announces a base goes on with no decimal number. -/
theorem decimalLexeme_of_radixOf? {mark : Char} (hmark : radixOf? mark = some base) :
    decimalLexeme ('0' :: mark :: cs) = ['0'] := by
  obtain ⟨hdigit, hpoint, hexponent⟩ :
      mark.isDigit = false ∧ mark ≠ '.' ∧ ¬(mark = 'e' ∨ mark = 'E') := by
    unfold radixOf? at hmark
    split at hmark
    · next h => rcases h with rfl | rfl <;> decide
    split at hmark
    · next h => rcases h with rfl | rfl <;> decide
    split at hmark
    · next h => rcases h with rfl | rfl <;> decide
    · cases hmark
  have hwhole : ('0' :: mark :: cs).takeWhile Char.isDigit = ['0'] := by
    rw [List.takeWhile_cons_of_pos rfl, List.takeWhile_cons_of_neg (by simp [hdigit])]
  have hfraction : fractionLexeme (mark :: cs) = [] := by
    unfold fractionLexeme
    split
    · next heq => cases heq; exact absurd rfl hpoint
    · rfl
  have hexponent : exponentLexeme (mark :: cs) = [] := if_neg hexponent
  simp [decimalLexeme, hwhole, hfraction, hexponent]

/-- The longest word that begins like a number in another base. -/
theorem isLongest_radix (h : radixLexeme? cs = some (base, digits)) :
    cs.take (digits.length + 2) ∈ (Rule.radix base).language ∧
      (cs.take (digits.length + 2)).drop 2 = digits ∧
      IsLongest (cs.take (digits.length + 2)) cs := by
  obtain ⟨mark, hmark, hstart, hmem⟩ := mem_radix_of_radixLexeme? h
  obtain ⟨rest, rfl⟩ := hstart
  have htake : ('0' :: mark :: digits ++ rest).take (digits.length + 2) =
      '0' :: mark :: digits := List.take_left' rfl
  rw [htake]
  refine ⟨hmem, rfl, isLongest_of_lead hmem (List.prefix_append _ _)
    fun {r' w'} hlead hw' hstart' => ?_⟩
  cases r' with
  | decimal =>
    have hlength := (decimalLexeme_isLongest _).2.2 (.inl hw') hstart'
    rw [List.cons_append, List.cons_append, decimalLexeme_of_radixOf? hmark] at hlength
    simp at hlength ⊢
    omega
  | radix base' =>
    obtain ⟨digits', h', hlength⟩ := radixLexeme?_longest hw' hstart'
    rw [h, Option.some.injEq, Prod.mk.injEq] at h'
    rw [← h'.2] at hlength
    exact hlength
  | _ => cases hlead

/-- Where no decimal number is taken, none starts. -/
theorem not_prefix_of_decimalLexeme (h : decimalLexeme cs = [])
    (hw : w ∈ Rule.decimal.language ∨ w ∈ Rule.fraction.language) : ¬w <+: cs := fun hstart => by
  have hlength := (decimalLexeme_isLongest cs).2.2 hw hstart
  rw [h] at hlength
  rcases hw with hw | hw <;> obtain ⟨d, b, rfl, -⟩ := Rule.leadOf_of_mem hw <;>
    simp at hlength

/-- The longest word where there is a decimal number and none in another base. -/
theorem isLongest_decimal (hradix : radixLexeme? cs = none) (hne : decimalLexeme cs ≠ []) :
    (decimalLexeme cs ∈ Rule.decimal.language ∨ decimalLexeme cs ∈ Rule.fraction.language) ∧
      IsLongest (decimalLexeme cs) cs := by
  obtain ⟨hstart, hmem, hlongest⟩ := decimalLexeme_isLongest cs
  refine ⟨hmem hne, (hmem hne).elim ?_ ?_⟩ <;>
    refine fun hmem => isLongest_of_lead hmem hstart fun {r' w'} hlead hw' hstart' => ?_
  · cases r' with
    | decimal => exact hlongest (.inl hw') hstart'
    | radix base =>
      obtain ⟨digits, h, -⟩ := radixLexeme?_longest hw' hstart'
      rw [hradix] at h
      cases h
    | _ => cases hlead
  · cases r' with
    | fraction => exact hlongest (.inr hw') hstart'
    | _ => cases hlead

/-- The longest word that begins like a name. -/
theorem isLongest_name {c : Char} (cs : List Char) (hc : isNameStart c = true) :
    (c :: cs).takeWhile isNameChar ∈ Rule.name.language ∧
      IsLongest ((c :: cs).takeWhile isNameChar) (c :: cs) := by
  have htake : (c :: cs).takeWhile isNameChar = c :: cs.takeWhile isNameChar :=
    List.takeWhile_cons_of_pos (by simp [isNameChar, hc])
  have hmem : (c :: cs).takeWhile isNameChar ∈ Rule.name.language := by
    have hall : ((c :: cs).takeWhile isNameChar).all isNameChar = true := List.all_takeWhile
    rw [mem_name, isName, hall, htake]
    simp [hc]
  have hlongest {w : List Char} (hw : isName w = true) (hstart : w <+: c :: cs) :
      w.length ≤ ((c :: cs).takeWhile isNameChar).length :=
    (prefix_takeWhile (List.all_eq_true.1 (Bool.and_eq_true_iff.1 hw).2) hstart).length_le
  refine ⟨hmem, isLongest_of_lead hmem (List.takeWhile_prefix _)
    fun {r' w'} hlead hw' hstart' => ?_⟩
  cases r' with
  | name => exact hlongest (mem_name.1 hw') hstart'
  | keyword k =>
    have hname := isName_of_mem_spellings (show String.ofList w' ∈ k.spellings from hw')
    rw [String.toList_ofList] at hname
    exact hlongest hname hstart'
  | _ => cases hlead

/-- What is between the quotes of a string is what is in front of the next quote. -/
theorem takeWhile_of_mem_string (hw : w ∈ Rule.string.language) (hstart : w <+: '"' :: cs) :
    ∃ rest, w = '"' :: (cs.takeWhile (· != '"') ++ ['"']) ∧
      cs = cs.takeWhile (· != '"') ++ '"' :: rest := by
  obtain ⟨body, hbody, rfl⟩ := mem_string.1 hw
  obtain ⟨-, hstart⟩ := List.cons_prefix_cons.1 hstart
  have htake : cs.takeWhile (· != '"') = body :=
    takeWhile_eq_of_prefix (fun c hc => by simpa using fun h : c = '"' => hbody (h ▸ hc)) rfl hstart
  obtain ⟨rest, hrest⟩ := hstart
  exact ⟨rest, by rw [htake], by rw [htake, ← hrest]; simp⟩

/-- A string begins with a quote, and another quote follows. -/
theorem closed_of_mem_string {c : Char} (hw : w ∈ Rule.string.language) (hstart : w <+: c :: cs) :
    c = '"' ∧ (cs.takeWhile (· != '"')).length < cs.length := by
  have hquote : c = '"' := by
    obtain ⟨body, -, rfl⟩ := mem_string.1 hw
    exact (List.cons_prefix_cons.1 hstart).1.symm
  subst hquote
  obtain ⟨rest, -, hcs⟩ := takeWhile_of_mem_string hw hstart
  have hlength := congrArg List.length hcs
  rw [List.length_append, List.length_cons] at hlength
  exact ⟨rfl, by omega⟩

/-- The longest word that begins with a quote, if another quote follows. -/
theorem isLongest_string (h : (cs.takeWhile (· != '"')).length < cs.length) :
    ('"' :: cs).take ((cs.takeWhile (· != '"')).length + 2) =
        '"' :: (cs.takeWhile (· != '"') ++ ['"']) ∧
      '"' :: (cs.takeWhile (· != '"') ++ ['"']) ∈ Rule.string.language ∧
      IsLongest ('"' :: (cs.takeWhile (· != '"') ++ ['"'])) ('"' :: cs) := by
  -- The first character that is not taken is the closing quote.
  obtain ⟨rest, hrest⟩ : ∃ rest, cs = cs.takeWhile (· != '"') ++ '"' :: rest := by
    have hsplit := List.takeWhile_append_dropWhile (p := (· != '"')) (l := cs)
    cases hdrop : cs.dropWhile (· != '"') with
    | nil =>
      rw [hdrop, List.append_nil] at hsplit
      rw [hsplit] at h
      exact absurd h (Nat.lt_irrefl _)
    | cons c rest =>
      have hc : c = '"' := by
        have := List.head?_dropWhile_not (· != '"') cs
        rw [hdrop] at this
        simpa using this
      exact ⟨rest, by rw [hdrop, hc] at hsplit; exact hsplit.symm⟩
  have hbody : '"' ∉ cs.takeWhile (· != '"') := fun hmem => by
    simpa using List.all_eq_true.1 List.all_takeWhile _ hmem
  have hmem := mem_string.2 ⟨_, hbody, rfl⟩
  have hcs : '"' :: cs = '"' :: (cs.takeWhile (· != '"') ++ ['"']) ++ rest := by
    conv_lhs => rw [hrest]
    simp
  refine ⟨?_, hmem, isLongest_of_lead hmem ⟨rest, hcs.symm⟩ fun {r' w'} hlead hw' hstart' => ?_⟩
  · conv_lhs => rw [hcs]
    exact List.take_left' (by simp)
  · cases r' with
    | string => rw [(takeWhile_of_mem_string hw' hstart').choose_spec.1]
    | _ => cases hlead

/-- Every symbol at the start of the characters is found. -/
theorem symbolLexeme?_ne_none (hw : w ∈ (Rule.symbol s).language) (hstart : w <+: cs) :
    ∃ s' n, symbolLexeme? cs = some (s', n) ∧ w.length ≤ n := by
  have hs := ofChars?_eq_some.2 hw
  rw [List.prefix_iff_eq_take.1 hstart] at hs
  obtain ⟨hlength, -⟩ := spelling_of_ofChars? (ofChars?_eq_some.2 hw)
  unfold symbolLexeme?
  simp only [List.findSome?_cons, List.findSome?_nil]
  cases h3 : Symbol.ofChars? (cs.take 3) with
  | some s' => exact ⟨s', 3, rfl, by omega⟩
  | none =>
    cases h2 : Symbol.ofChars? (cs.take 2) with
    | some s' =>
      refine ⟨s', 2, rfl, ?_⟩
      rcases hlength with h | h | h
      · omega
      · omega
      · rw [h, h3] at hs
        cases hs
    | none =>
      rcases hlength with h | h | h
      · rw [h] at hs
        exact ⟨s, 1, by simp [hs], by omega⟩
      · rw [h, h2] at hs
        cases hs
      · rw [h, h3] at hs
        cases hs

/-- The symbol that is found is spelled by the characters that it takes. -/
theorem ofChars?_of_symbolLexeme? (h : symbolLexeme? cs = some (s, n)) :
    Symbol.ofChars? (cs.take n) = some s := by
  obtain ⟨m, -, hm⟩ := List.exists_of_findSome?_eq_some h
  obtain ⟨s', hs', heq⟩ := Option.map_eq_some_iff.1 hm
  cases heq
  exact hs'

/-- The longest word that begins like a symbol. -/
theorem isLongest_symbol (h : symbolLexeme? cs = some (s, n)) :
    cs.take n ∈ (Rule.symbol s).language ∧ IsLongest (cs.take n) cs := by
  have hmem : cs.take n ∈ (Rule.symbol s).language :=
    ofChars?_eq_some.1 (ofChars?_of_symbolLexeme? h)
  refine ⟨hmem, isLongest_of_lead hmem (List.take_prefix n cs)
    fun {r' w'} hlead hw' hstart' => ?_⟩
  cases r' with
  | symbol s' =>
    obtain ⟨s'', m, h', hlength⟩ := symbolLexeme?_ne_none hw' hstart'
    rw [h, Option.some.injEq, Prod.mk.injEq] at h'
    rw [List.length_take, h'.2]
    exact Nat.le_min.2 ⟨hlength, hstart'.length_le⟩
  | _ => cases hlead

end

/-! ## What is taken for a token -/

section

variable {K : Type} [Scalar K] {w cs refused : List Char} {c : Char} {t : Token K} {n : Nat}

/-- **A token is the longest word that starts there.** -/
theorem nextToken_ok (h : nextToken (c :: cs) = .ok (t, n)) :
    IsLongest ((c :: cs).take n) (c :: cs) ∧ Denotes ((c :: cs).take n) t := by
  unfold nextToken at h
  split at h
  · next base digits hradix =>
    split at h <;> cases h
    next value hvalue =>
    obtain ⟨hmem, hdigits, hlongest⟩ := isLongest_radix hradix
    refine ⟨hlongest, .radix base, hmem, ?_, nofun⟩
    rw [Rule.token?, hdigits, hvalue, Option.map_some]
  · next hradix =>
    dsimp only at h
    split at h
    · next hne =>
      cases h
      obtain ⟨hmem, hlongest⟩ := isLongest_decimal hradix (by simpa using hne)
      rw [← List.prefix_iff_eq_take.1 hlongest.isStart]
      refine ⟨hlongest, ?_⟩
      rcases hmem with hmem | hmem
      · exact ⟨.decimal, hmem, rfl, nofun⟩
      · exact ⟨.fraction, hmem, rfl, nofun⟩
    split at h
    · next hc =>
      cases h
      obtain ⟨hmem, hlongest⟩ := isLongest_name cs hc
      rw [← List.prefix_iff_eq_take.1 hlongest.isStart]
      refine ⟨hlongest, ?_⟩
      unfold wordToken
      split
      · next k hk => exact ⟨.keyword k, ofWord?_eq_some.1 hk, rfl, nofun⟩
      · next hk =>
        refine ⟨.name, hmem, rfl, fun _ k hmem => ?_⟩
        rw [ofWord?_eq_some.2 hmem] at hk
        cases hk
    split at h
    · next hc =>
      split at h <;> cases h
      next hclosed =>
      subst hc
      obtain ⟨htake, hmem, hlongest⟩ := isLongest_string hclosed
      rw [htake]
      exact ⟨hlongest, .string, hmem, by simp [Rule.token?], nofun⟩
    · split at h <;> cases h
      next symbol hsymbol =>
      obtain ⟨hmem, hlongest⟩ := isLongest_symbol hsymbol
      exact ⟨hlongest, .symbol symbol, hmem, rfl, nofun⟩

/-- No word is there, or the longest one is a number in another base that has no value. -/
def IsStuck (K : Type) [Scalar K] (cs : List Char) : Prop :=
  (∀ {w}, IsWord w → ¬w <+: cs) ∨
    ∃ w base, IsLongest w cs ∧ w ∈ (Rule.radix base).language ∧
      (Rule.radix base).token? w = (none : Option (Token K))

/-- **Only what is no word, or a number without a value, is refused.** -/
theorem nextToken_error (hc : isBlank c = false)
    (h : (nextToken (c :: cs) : Except _ (Token K × Nat)) = .error refused) :
    IsStuck K (c :: cs) := by
  unfold nextToken at h
  split at h
  · next base digits hradix =>
    split at h <;> cases h
    next hvalue =>
    obtain ⟨hmem, hdigits, hlongest⟩ := isLongest_radix hradix
    refine .inr ⟨_, base, hlongest, hmem, ?_⟩
    rw [Rule.token?, hdigits, hvalue, Option.map_none]
  · next hradix =>
    dsimp only at h
    split at h
    · cases h
    next hdecimal =>
    split at h
    · cases h
    next hname =>
    left
    rintro w ⟨r, hw⟩ hstart
    have hlead := Rule.lead_eq hw hstart
    have hletter {r : Rule} (hlead : r.lead = leadOf c) : r.lead ≠ .letter := fun hr => by
      rw [hr] at hlead
      unfold leadOf at hlead
      split_ifs at hlead
    have hdecimal : decimalLexeme (c :: cs) = [] := by simpa using hdecimal
    cases r with
    | decimal => exact not_prefix_of_decimalLexeme hdecimal (.inl hw) hstart
    | fraction => exact not_prefix_of_decimalLexeme hdecimal (.inr hw) hstart
    | radix base =>
      obtain ⟨digits, hsome, -⟩ := radixLexeme?_longest hw hstart
      rw [hradix] at hsome
      cases hsome
    | name => exact hletter hlead rfl
    | keyword k => exact hletter hlead rfl
    | string =>
      obtain ⟨hquote, hclosed⟩ := closed_of_mem_string hw hstart
      rw [if_pos hquote, if_pos hclosed] at h
      cases h
    | symbol s =>
      obtain ⟨s', m, hsome, -⟩ := symbolLexeme?_ne_none hw hstart
      rw [hsome] at h
      split at h
      · next hquote =>
        rw [hquote] at hlead
        cases hlead
      · cases h
    | blank =>
      rw [Rule.lead] at hlead
      unfold leadOf at hlead
      split_ifs at hlead with h1 h2
      rw [hc] at h2
      cases h2

end

end Formula

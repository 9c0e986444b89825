import Formula.Proofs.Parse.Reads

/-!
# What a parser did if it gave something

`Yields p ts a us` says of a run that it gave `a` in front of the tokens `ts` and left `us`. Where
`Reads` builds the run of a parser from those of its parts, the lemmas here take it apart again: one
for each way to build a parser, which tells what its parts did.
-/

namespace Formula.Parser

variable {K α β : Type} {p : Parser K α} {f : α → Parser K β} {ts us : List (Token K)} {a : α} {b : β}

/-- In front of the tokens a run of the parser gives the result and leaves the others. -/
def Yields (p : Parser K α) (ts : List (Token K)) (a : α) (us : List (Token K)) : Prop :=
  ∃ r s : Reader K, p.run r = (.ok a, s) ∧ r.ahead = ts ∧ s.ahead = us

/-- What is read is given. -/
theorem Reads.yields {rest : List (Token K)} (h : Reads p ts rest a) :
    Yields p (ts ++ rest) a rest := by
  let r : Reader K := .ofTokens ((ts ++ rest).map (·, 0)) none
  have hahead : r.ahead = ts ++ rest := by
    rw [Reader.ahead_ofTokens, List.map_map]
    exact List.map_id _
  exact ⟨r, _, h r rfl hahead, hahead, Reader.ahead_skip_append hahead⟩

namespace Yields

/-! ## Sequences -/

theorem pure {c : α} (h : Yields (pure c) ts a us) : c = a ∧ ts = us := by
  obtain ⟨r, s, hrun, rfl, rfl⟩ := h
  cases hrun
  exact ⟨rfl, rfl⟩

theorem not_failHere {error : Nat → ParseError} : ¬Yields (failHere error) ts a us := by
  rintro ⟨r, s, hrun, -⟩
  cases hrun

/-- The parts of a sequence. -/
theorem bind (h : Yields (p >>= f) ts b us) : ∃ a vs, Yields p ts a vs ∧ Yields (f a) vs b us := by
  obtain ⟨r, s, hrun, rfl, rfl⟩ := h
  rcases hp : p.run r with ⟨e | a, t⟩
  · rw [run_bind_error hp] at hrun
    cases hrun
  · rw [run_bind_ok hp] at hrun
    exact ⟨a, t.ahead, ⟨r, t, hp, rfl, rfl⟩, ⟨t, s, hrun, rfl, rfl⟩⟩

/-- A look at the reader shows the next token. -/
theorem inspect {k : Reader K → Parser K α} (h : Yields (do k (← get)) ts a us) :
    ∃ r : Reader K, r.peek? = ts.head? ∧ Yields (k r) ts a us := by
  obtain ⟨r, s, hrun, rfl, rfl⟩ := h
  have hget : (get : Parser K (Reader K)).run r = (.ok r, r) := rfl
  rw [run_bind_ok hget] at hrun
  exact ⟨r, r.peek?_eq, r, s, hrun, rfl, rfl⟩

/-- Counting tokens consumes none. -/
theorem remaining {n : Nat} (h : Yields remaining ts n us) : ts = us := by
  obtain ⟨r, s, hrun, rfl, rfl⟩ := h
  cases hrun
  rfl

/-- A decisive parser that finds nothing consumes nothing. -/
theorem of_decisive {p : Parser K (Option α)} (hp : p.Decisive) (h : Yields p ts none us) :
    ts = us := by
  obtain ⟨r, s, hrun, rfl, rfl⟩ := h
  have hobeys := hp r
  rw [hrun] at hobeys
  exact congrArg Reader.ahead (show s = r from hobeys).symm

/-! ## Tokens -/

theorem take? {find? : Token K → Option α} {found : Option α}
    (h : Yields (take? find?) ts found us) :
    (found = none ∧ ts.head?.bind find? = none ∧ ts = us) ∨
      ∃ t a, found = some a ∧ find? t = some a ∧ ts = t :: us := by
  obtain ⟨r, s, hrun, rfl, rfl⟩ := h
  have htake : (Parser.take? find?).run r = (.ok (r.take? find?).1, (r.take? find?).2) := rfl
  rw [htake, Reader.take?] at hrun
  cases hfound : r.peek?.bind find? with
  | none =>
    rw [hfound] at hrun
    cases hrun
    exact .inl ⟨rfl, r.peek?_eq ▸ hfound, rfl⟩
  | some a =>
    rw [hfound] at hrun
    cases hrun
    obtain ⟨t, hpeek, ht⟩ := Option.bind_eq_some_iff.1 hfound
    rw [r.peek?_eq] at hpeek
    obtain ⟨us, hus⟩ := List.head?_eq_some_iff.1 hpeek
    refine .inr ⟨t, a, rfl, ht, ?_⟩
    have hskip : (r.skip 1).ahead = us := by
      rw [Reader.ahead_skip, hus, List.drop_one, List.tail_cons]
    rw [hus, ← hskip]
    rfl

theorem symbol {s : Symbol} {found : Bool} (h : Yields (symbol s) ts found us) :
    (found = false ∧ ts = us) ∨ (found = true ∧ ts = .symbol s :: us) := by
  obtain ⟨taken, vs, htake, hpure⟩ := h.bind
  obtain ⟨rfl, rfl⟩ := hpure.pure
  rcases htake.take? with ⟨rfl, -, rfl⟩ | ⟨t, a, rfl, ht, rfl⟩
  · exact .inl ⟨rfl, rfl⟩
  · have hsymbol : Token.isSymbol s t = true := by
      cases hsymbol : Token.isSymbol s t with
      | true => rfl
      | false =>
        rw [hsymbol] at ht
        cases ht
    cases t with
    | symbol s' => exact .inr ⟨rfl, by rw [eq_of_beq hsymbol]⟩
    | _ => cases hsymbol

theorem expect {s : Symbol} {error : Nat → ParseError} {a : Unit}
    (h : Yields (expect s error) ts a us) : ts = .symbol s :: us := by
  obtain ⟨found, vs, hsymbol, hrest⟩ := h.bind
  rcases hsymbol.symbol with ⟨rfl, rfl⟩ | ⟨rfl, rfl⟩
  · exact absurd hrest not_failHere
  · rw [hrest.pure.2]

/-! ## Choices and levels -/

theorem require {p : Parser K (Option α)} {error : Nat → ParseError}
    (h : Yields (require error p) ts a us) : Yields p ts (some a) us := by
  obtain ⟨found, vs, hp, hrest⟩ := h.bind
  cases found with
  | none => exact absurd hrest not_failHere
  | some a =>
    obtain ⟨rfl, rfl⟩ := hrest.pure
    exact hp

/-- One of several parsers found what their choice found. -/
theorem firstOf {ps : List (Parser K (Option α))} (hps : ∀ p ∈ ps, p.Decisive)
    (h : Yields (firstOf ps) ts (some a) us) : ∃ p ∈ ps, Yields p ts (some a) us := by
  induction ps with
  | nil => cases h.pure.1
  | cons p ps ih =>
    obtain ⟨found, vs, hp, hrest⟩ := h.bind
    cases found with
    | some a =>
      obtain ⟨heq, rfl⟩ := hrest.pure
      exact ⟨p, .head _, heq ▸ hp⟩
    | none =>
      obtain rfl := hp.of_decisive (hps p (.head _))
      obtain ⟨q, hq, hfound⟩ := ih (fun q hq => hps q (.tail _ hq)) hrest
      exact ⟨q, .tail _ hq, hfound⟩

/-- Where a choice found nothing, none of the parsers did. -/
theorem firstOf_none {ps : List (Parser K (Option α))} (hps : ∀ p ∈ ps, p.Decisive)
    (h : Yields (Parser.firstOf ps) ts none us) : ∀ p ∈ ps, Yields p ts none ts := by
  induction ps with
  | nil => exact List.forall_mem_nil _
  | cons p ps ih =>
    obtain ⟨found, vs, hp, hrest⟩ := h.bind
    cases found with
    | some a => cases hrest.pure.1
    | none =>
      obtain rfl := hp.of_decisive (hps p (.head _))
      exact List.forall_mem_cons.2 ⟨hp, ih (fun q hq => hps q (.tail _ hq)) hrest⟩

/-- What is found on a checkpoint. -/
theorem speculate {p : Parser K (Option α)} (h : Yields (speculate p) ts (some a) us) :
    Yields p ts (some a) us := by
  obtain ⟨r, s, hrun, rfl, rfl⟩ := h
  rcases hp : p.run r.mark.2 with ⟨e | found, t⟩
  · rw [run_speculate_error hp] at hrun
    cases hrun
  · cases found with
    | none =>
      rw [run_speculate_none hp] at hrun
      cases hrun
    | some a =>
      rw [run_speculate_some hp] at hrun
      cases hrun
      exact ⟨r.mark.2, t, hp, rfl, rfl⟩

/-- What is given a level of nesting further in. -/
theorem nested (h : Yields (nested p) ts a us) : Yields p ts a us := by
  obtain ⟨r, s, hrun, rfl, rfl⟩ := h
  cases hdescend : r.descend? with
  | none =>
    rw [run_nested_error hdescend] at hrun
    cases hrun
  | some inner =>
    rw [run_nested hdescend] at hrun
    rcases hp : p.run inner with ⟨e | a, t⟩
    · rw [hp] at hrun
      cases hrun
    · rw [hp] at hrun
      cases hrun
      have hinner : inner.ahead = r.ahead := by
        rw [Reader.descend?] at hdescend
        split at hdescend <;> cases hdescend
        rfl
      exact ⟨inner, t, hp, hinner, rfl⟩

end Yields

end Formula.Parser

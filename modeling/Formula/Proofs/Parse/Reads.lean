import Formula.Proofs.Parse.Movement

/-!
# What parsers read

`Reads p ts rest a` says that the parser `p`, in front of the tokens `ts` and then `rest`, gives `a`
and consumes `ts`, on every reader without a limit on nesting. What a parser gives may depend on the
rest, which it looks at and leaves alone; with `ts = []` it only looks. There is one rule for each
way to build a parser, so that a construct is read part by part.
-/

namespace Formula

/-! ## The tokens ahead of a reader -/

namespace Reader

variable {K : Type} {r : Reader K}

/-- The tokens a reader has not consumed. -/
def ahead (r : Reader K) : List (Token K) := (r.tokens.toList.drop r.position).map (·.1)

theorem ahead_skip (r : Reader K) (n : Nat) : (r.skip n).ahead = r.ahead.drop n := by
  simp only [ahead, skip, List.drop_drop, List.map_drop]

theorem peek?_eq (r : Reader K) : r.peek? = r.ahead.head? := by
  simp only [peek?, ahead, List.head?_map, List.head?_drop, Array.getElem?_toList]

theorem remaining_eq (r : Reader K) : r.remaining = r.ahead.length := by
  simp only [remaining, ahead, List.length_map, List.length_drop, Array.length_toList]

/-- A reader in front of tokens is behind the first ones after skipping them. -/
theorem ahead_skip_append {ts rest : List (Token K)} (h : r.ahead = ts ++ rest) :
    (r.skip ts.length).ahead = rest := by
  rw [ahead_skip, h, List.drop_left]

/-- A reader before the first token has all tokens ahead. -/
theorem ahead_ofTokens (tokens : List (Token K × Nat)) (maxDepth? : Option Nat) :
    (ofTokens tokens maxDepth?).ahead = tokens.map (·.1) := by
  simp [ahead, ofTokens]

end Reader

namespace Parser

variable {K α β : Type}

/-- In front of `ts` and then `rest` the parser gives `a` and consumes `ts`. -/
def Reads (p : Parser K α) (ts rest : List (Token K)) (a : α) : Prop :=
  ∀ r : Reader K, r.maxDepth? = none → r.ahead = ts ++ rest → p.run r = (.ok a, r.skip ts.length)

variable {p : Parser K α} {f : α → Parser K β} {ts us rest : List (Token K)} {a : α} {b : β}
  {t : Token K}

/-! ## Sequences -/

/-- A constant reads nothing. -/
theorem Reads.pure (a : α) : Reads (pure a : Parser K α) [] rest a := fun _ _ _ => rfl

/-- A sequence reads what its parts read. -/
theorem Reads.bind (hp : Reads p ts (us ++ rest) a) (hf : Reads (f a) us rest b) :
    Reads (p >>= f) (ts ++ us) rest b := by
  intro r hmax hr
  rw [List.append_assoc] at hr
  have hrest := hf (r.skip ts.length) hmax (Reader.ahead_skip_append hr)
  rw [run_bind_ok (hp r hmax hr), hrest, Reader.skip_skip, List.length_append]

/-- A sequence whose first part only looks reads what its second part reads. -/
theorem Reads.look (hp : Reads p [] (ts ++ rest) a) (hf : Reads (f a) ts rest b) :
    Reads (p >>= f) ts rest b := hp.bind hf

/-- A sequence whose first part takes a token reads that and what its second part reads. -/
theorem Reads.step (hp : Reads p [t] (ts ++ rest) a) (hf : Reads (f a) ts rest b) :
    Reads (p >>= f) (t :: ts) rest b := hp.bind hf

/-- A sequence whose second part only looks reads what its first part reads. -/
theorem Reads.last (hp : Reads p ts rest a) (hf : Reads (f a) [] rest b) :
    Reads (p >>= f) ts rest b := by
  have h : Reads (p >>= f) (ts ++ []) rest b := Reads.bind hp hf
  rwa [List.append_nil] at h

/-- A changed result. -/
theorem Reads.map {g : α → β} (hp : Reads p ts rest a) :
    Reads (do return g (← p)) ts rest (g a) := hp.last (.pure _)

/-- A sequence whose second part is chosen by a look at the next token. -/
theorem Reads.inspect {k : Reader K → Parser K β} (q : Parser K β)
    (hk : ∀ r : Reader K, r.peek? = (ts ++ rest).head? → k r = q) (h : Reads q ts rest b) :
    Reads (do k (← get)) ts rest b := by
  intro r hmax hr
  have hget : (get : Parser K (Reader K)).run r = (.ok r, r) := rfl
  rw [run_bind_ok hget, hk r (by rw [r.peek?_eq, hr])]
  exact h r hmax hr

/-- A look at the number of tokens. -/
theorem Reads.remaining : Reads (remaining : Parser K Nat) [] rest rest.length := by
  intro r _ hr
  have hrun : (Parser.remaining : Parser K Nat).run r = (.ok r.remaining, r) := rfl
  rw [hrun, r.remaining_eq, hr]
  rfl

/-! ## Parsers that go on as others -/

/-- In front of `ts` and then `rest` the parser consumes `ts` and goes on as another one. -/
def GoesOn (p : Parser K α) (ts rest : List (Token K)) (q : Parser K α) : Prop :=
  ∀ r : Reader K, r.maxDepth? = none → r.ahead = ts ++ rest → p.run r = q.run (r.skip ts.length)

variable {q s : Parser K α}

/-- A sequence goes on behind what its first part reads. -/
theorem Reads.goesOn (hp : Reads p ts rest a) : GoesOn (p >>= f) ts rest (f a) :=
  fun r hmax hr => run_bind_ok (hp r hmax hr)

theorem GoesOn.trans (h : GoesOn p ts (us ++ rest) q) (h' : GoesOn q us rest s) :
    GoesOn p (ts ++ us) rest s := by
  intro r hmax hr
  rw [List.append_assoc] at hr
  rw [h r hmax hr, h' (r.skip ts.length) hmax (Reader.ahead_skip_append hr), Reader.skip_skip,
    List.length_append]

theorem GoesOn.look (h : GoesOn p ts rest q) (h' : GoesOn q [] rest s) : GoesOn p ts rest s := by
  have htrans : GoesOn p (ts ++ []) rest s := GoesOn.trans h h'
  rwa [List.append_nil] at htrans

/-- A sequence goes on as its first part does. -/
theorem GoesOn.bind (h : GoesOn p ts rest q) : GoesOn (p >>= f) ts rest (q >>= f) := by
  intro r hmax hr
  have hrun := h r hmax hr
  rcases hq : q.run (r.skip ts.length) with ⟨e | a, after⟩
  · rw [run_bind_error (hrun.trans hq), run_bind_error hq]
  · rw [run_bind_ok (hrun.trans hq), run_bind_ok hq]

/-- A parser that goes on as one that only looks. -/
theorem GoesOn.reads (h : GoesOn p ts rest q) (hq : Reads q [] rest a) : Reads p ts rest a := by
  intro r hmax hr
  rw [h r hmax hr, hq (r.skip ts.length) hmax (Reader.ahead_skip_append hr)]
  rfl

/-! ## Single tokens -/

/-- A token that gives what is looked for. -/
theorem Reads.take? {find? : Token K → Option α} (h : find? t = some a) :
    Reads (Parser.take? find?) [t] rest (some a) := by
  intro r _ hr
  have hpeek : r.peek? = some t := by rw [r.peek?_eq, hr]; rfl
  show (Except.ok (r.take? find?).1, (r.take? find?).2) = _
  simp only [Reader.take?, hpeek, Option.bind_some, h]
  rfl

/-- A next token that does not give what is looked for, or none. -/
theorem Reads.take?_none {find? : Token K → Option α} (h : rest.head?.bind find? = none) :
    Reads (Parser.take? find?) [] rest none := by
  intro r _ hr
  have hpeek : r.peek?.bind find? = none := by rw [r.peek?_eq, hr]; exact h
  show (Except.ok (r.take? find?).1, (r.take? find?).2) = _
  simp only [Reader.take?, hpeek]
  rfl

/-- A token that passes a test. -/
theorem Reads.accept {test : Token K → Bool} (h : test t = true) :
    Reads (Parser.accept test) [t] rest true :=
  Reads.map (g := Option.isSome) (.take? (if_pos h))

/-- A next token that fails a test, or none. -/
theorem Reads.accept_false {test : Token K → Bool} (h : rest.head?.any test = false) :
    Reads (Parser.accept test) [] rest false := by
  refine Reads.map (g := Option.isSome) (.take?_none ?_)
  cases hhead : rest.head? with
  | none => rfl
  | some t =>
    rw [hhead] at h
    exact if_neg (by simpa using h)

/-- A symbol. -/
theorem Reads.symbol {s : Symbol} : Reads (Parser.symbol s) [.symbol s] rest true :=
  .accept (by simp [Token.isSymbol])

/-- A required symbol. -/
theorem Reads.expect {s : Symbol} {error : Nat → ParseError} :
    Reads (Parser.expect s error) [.symbol s] rest () := Reads.last .symbol (.pure _)

/-! ## Results that are required or tried -/

/-- A required result. -/
theorem Reads.require {p : Parser K (Option α)} {error : Nat → ParseError}
    (h : Reads p ts rest (some a)) : Reads (Parser.require error p) ts rest a := h.last (.pure a)

/-- The first of several parsers that finds something. -/
theorem Reads.firstOf_some {p : Parser K (Option α)} {ps : List (Parser K (Option α))}
    (h : Reads p ts rest (some a)) : Reads (firstOf (p :: ps)) ts rest (some a) := h.last (.pure _)

/-- A parser that finds nothing leaves the choice to the others. -/
theorem Reads.firstOf_none {p : Parser K (Option α)} {ps : List (Parser K (Option α))}
    {a? : Option α} (h : Reads p [] (ts ++ rest) none) (hps : Reads (firstOf ps) ts rest a?) :
    Reads (firstOf (p :: ps)) ts rest a? := h.look hps

/-- A find on a checkpoint. -/
theorem Reads.speculate {p : Parser K (Option α)} (h : Reads p ts rest (some a)) :
    Reads (Parser.speculate p) ts rest (some a) := by
  intro r hmax hr
  rw [run_speculate_some (h r.mark.2 hmax hr)]
  simp [Reader.commit, Reader.mark, Reader.skip]

/-- Whatever a parser on a checkpoint reads before it finds nothing is not consumed. -/
theorem Reads.speculate_none {p : Parser K (Option α)} (ts : List (Token K))
    (h : Reads p ts rest none) :
    Reads (Parser.speculate p) [] (ts ++ rest) none := by
  intro r hmax hr
  rw [run_speculate_none (h r.mark.2 hmax hr)]
  simp [Reader.rollback, Reader.mark, Reader.skip]

/-- Without a limit a level of nesting changes nothing. -/
theorem Reads.nested (h : Reads p ts rest a) : Reads (nested p) ts rest a := by
  intro r hmax hr
  have hdescend : r.descend? = some { r with depth := r.depth + 1 } := by
    rw [Reader.descend?, hmax]
    rfl
  rw [run_nested hdescend, h { r with depth := r.depth + 1 } hmax hr]
  rfl

end Parser

end Formula

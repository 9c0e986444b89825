import Formula.Binary64.Scalar
import Formula.Proofs.Parse.Locality
import Formula.Proofs.Parse.Yields
import Formula.Proofs.RoundTrip.Levels

/-!
# Closing tokens end what stands in front of them

No construct of an expression goes on with a parenthesis or a brace that closes, with a comma or
with a colon. So what the grammar reads as an expression at the end of the tokens, it reads as well
in front of such a token (`Lasts`). The loops behind a comma are no exception: they stand inside of
brackets, which have to be closed behind them, so that they never stop at the end of the tokens
(`Lasts.closed`).

`expression_lasts` is this for expressions, with any number of levels that is enough for the tokens
read. A closing parenthesis is one of the tokens, and parentheses around an expression are
therefore read as the expression.
-/

namespace Formula

open Formula.Grammar Formula.Parser

variable {K : Type}

/-! ## Closing tokens -/

/-- Ends every expression in front of it. -/
inductive Token.Closes : Token K → Prop
  | parenthesis : Closes (.symbol .closeParenthesis)
  | brace : Closes (.symbol .closeBrace)
  | comma : Closes (.symbol .comma)
  | colon : Closes (.symbol .colon)

/-- The closing tokens. -/
def Token.closing : List (Token K) :=
  [.symbol .closeParenthesis, .symbol .closeBrace, .symbol .comma, .symbol .colon]

theorem Token.Closes.mem_closing {t : Token K} (h : t.Closes) : t ∈ closing := by
  cases h <;> simp only [closing, List.mem_cons, true_or, or_true]

/-- A closing token pulls on nothing. -/
theorem Token.Closes.follows {t : Token K} {rest : List (Token K)} (h : t.Closes) :
    follows 0 (t :: rest) = true := by
  cases h <;> rfl

/-- What pulls on nothing is a closing token. -/
theorem Token.closes_of_follows {t : Token K} {rest : List (Token K)}
    (h : Formula.follows 0 (t :: rest) = true) : t.Closes := by
  have hpulls (hfollows : Formula.follows 0 (t :: rest) = false) : t.Closes := by
    rw [hfollows] at h
    cases h
  cases t with
  | symbol s =>
    cases s with
    | closeParenthesis => exact .parenthesis
    | closeBrace => exact .brace
    | comma => exact .comma
    | colon => exact .colon
    | _ => exact hpulls rfl
  | keyword k => cases k <;> exact hpulls rfl
  | _ => exact hpulls rfl

namespace Parser

variable {α β : Type} {p : Parser K α} {f : α → Parser K β} {ts us rest : List (Token K)} {a : α}
  {b : β} {ends : Bool}

/-! ## What a sequence reads -/

/-- A sequence reads what its parts read. -/
theorem SameRuns.reads_bind (hp : SameRuns p p) (hf : ∀ a, SameRuns (f a) (f a))
    (h : Reads (p >>= f) ts us b) :
    ∃ a xs ys, ts = xs ++ ys ∧ Reads p xs (ys ++ us) a ∧ Reads (f a) ys us b := by
  rcases hp.reads_or_fails (ts ++ us) with ⟨xs, ws, a, hsplit, hreads⟩ | hfails
  · obtain ⟨ys, rfl, rfl, hlater⟩ := hreads.goesOn.exists_reads (hf a) h hsplit.symm
    exact ⟨a, xs, ys, rfl, hreads, hlater⟩
  · exact absurd hfails.bind h.not_fails

/-- A constant is read from nothing. -/
theorem Reads.of_pure {c : α} (h : Reads (Pure.pure a : Parser K α) ts us c) :
    ts = [] ∧ a = c := by
  have hpure : Reads (Pure.pure a : Parser K α) [] (ts ++ us) a := .pure a
  obtain ⟨hts, -, heq⟩ := h.unique hpure rfl
  exact ⟨hts, heq.symm⟩

/-- A token is read if it gives what is looked for. -/
theorem Reads.of_take? {find? : Token K → Option α} {found : Option α}
    (h : Reads (Parser.take? find?) ts us found) :
    (found = none ∧ ts = [] ∧ us.head?.bind find? = none) ∨
      ∃ t a, found = some a ∧ ts = [t] ∧ find? t = some a := by
  rcases h.yields.take? with ⟨rfl, hnone, hsplit⟩ | ⟨t, a, rfl, ht, hsplit⟩
  · have hts : ts = [] := List.append_left_eq_self.1 hsplit
    exact .inl ⟨rfl, hts, by simpa [hts] using hnone⟩
  · exact .inr ⟨t, a, rfl, List.append_cancel_right (hsplit.trans (List.singleton_append).symm), ht⟩

/-- What is read on a checkpoint; without a find the tokens are given back. -/
theorem SameRuns.reads_speculate {p : Parser K (Option α)} {found : Option α} (hp : SameRuns p p)
    (h : Reads (speculate p) ts us found) :
    (∃ a, found = some a ∧ Reads p ts us (some a)) ∨
      found = none ∧ ts = [] ∧ ∃ xs ys, us = xs ++ ys ∧ Reads p xs ys none := by
  rcases hp.reads_or_fails (ts ++ us) with ⟨xs, ys, found', hsplit, hreads⟩ | hfails
  · cases found' with
    | some a =>
      obtain ⟨rfl, rfl, rfl⟩ := h.unique hreads.speculate hsplit
      exact .inl ⟨a, rfl, hreads⟩
    | none =>
      obtain ⟨rfl, rfl, rfl⟩ := h.unique (hreads.speculate_none xs) hsplit
      exact .inr ⟨rfl, rfl, xs, ys, rfl, hreads⟩
  · exact absurd hfails.speculate h.not_fails

/-! ## Parsers that last -/

/-- What the parser reads, it reads in front of closing tokens as well. It may read up to the end of
the tokens only if `ends` says so. -/
structure Lasts (ends : Bool) (p : Parser K α) : Prop where
  sameRuns : SameRuns p p
  reads : ∀ {ts us rest : List (Token K)} {a : α}, (us = [] → ends = true) →
    follows 0 rest = true → Reads p ts us a → Reads p ts (us ++ rest) a

theorem Lasts.pure (a : α) : Lasts ends (Pure.pure a : Parser K α) where
  sameRuns := sameRuns_congruence.pure a
  reads _ _ h := by
    obtain ⟨rfl, rfl⟩ := h.of_pure
    exact .pure a

theorem Lasts.failHere (error : Nat → ParseError) [Syntactic error] :
    Lasts ends (failHere error : Parser K α) where
  sameRuns := sameRuns_congruence.failHere error
  reads _ _ h := absurd (Fails.failHere error) h.not_fails

theorem Lasts.take?_of {find? : Token K → Option α}
    (hfind : ends = true → ∀ t, t.Closes → find? t = none) : Lasts ends (take? find?) where
  sameRuns := sameRuns_congruence.take? find?
  reads {ts us rest found} hends hrest h := by
    rcases h.of_take? with ⟨rfl, rfl, hnone⟩ | ⟨t, a, rfl, rfl, ht⟩
    · refine .take?_none ?_
      cases us with
      | cons => exact hnone
      | nil =>
        cases rest with
        | nil => rfl
        | cons t rest => exact hfind (hends rfl) t (Token.closes_of_follows hrest)
    · exact .take? ht

/-- A look for a token lasts if no closing token is found. -/
theorem Lasts.take? {find? : Token K → Option α}
    (hfind : (Token.closing.all fun t => (find? t).isNone) = true) : Lasts true (take? find?) :=
  .take?_of fun _ _ ht => Option.isNone_iff_eq_none.1 (List.all_eq_true.1 hfind _ ht.mem_closing)

/-- A sequence lasts if its parts do. -/
theorem Lasts.bind (hp : Lasts ends p) (hf : ∀ a, Lasts ends (f a)) : Lasts ends (p >>= f) where
  sameRuns := sameRuns_congruence.bind hp.sameRuns fun a => (hf a).sameRuns
  reads {ts us rest b} hends hrest h := by
    obtain ⟨a, xs, ys, rfl, hreads, hlater⟩ :=
      hp.sameRuns.reads_bind (fun a => (hf a).sameRuns) h
    have hus : ys ++ us = [] → ends = true := fun hnil => hends (List.append_eq_nil_iff.1 hnil).2
    have hfirst := hp.reads hus hrest hreads
    rw [List.append_assoc] at hfirst
    exact .bind hfirst ((hf a).reads hends hrest hlater)

/-- A sequence whose second part needs a token lasts, also if its first part does not where it has
come to the end. -/
theorem Lasts.closed (hp : Lasts false p) (hf : ∀ a, Lasts ends (f a))
    (hfails : ∀ a, Fails (f a) []) : Lasts ends (p >>= f) where
  sameRuns := sameRuns_congruence.bind hp.sameRuns fun a => (hf a).sameRuns
  reads {ts us rest b} hends hrest h := by
    obtain ⟨a, xs, ys, rfl, hreads, hlater⟩ :=
      hp.sameRuns.reads_bind (fun a => (hf a).sameRuns) h
    have hus : ys ++ us = [] → false = true := fun hnil =>
      absurd (hnil ▸ hfails a) hlater.not_fails
    have hfirst := hp.reads hus hrest hreads
    rw [List.append_assoc] at hfirst
    exact .bind hfirst ((hf a).reads hends hrest hlater)

/-- What lasts at the end of the tokens does so in front of others. -/
theorem Lasts.inside (hp : Lasts true p) : Lasts false p where
  sameRuns := hp.sameRuns
  reads _ hrest h := hp.reads (fun _ => rfl) hrest h

/-! ### Optional results and tests -/

theorem Lasts.bind_option {p : Parser K (Option α)} {f : Option α → Parser K β} (hp : Lasts ends p)
    (hnone : Lasts ends (f none)) (hsome : ∀ a, Lasts ends (f (some a))) : Lasts ends (p >>= f) :=
  hp.bind fun | none => hnone | some a => hsome a

theorem Lasts.bind_bool {p : Parser K Bool} {f : Bool → Parser K β} (hp : Lasts ends p)
    (hfalse : Lasts ends (f false)) (htrue : Lasts ends (f true)) : Lasts ends (p >>= f) :=
  hp.bind fun | false => hfalse | true => htrue

theorem Lasts.map {p : Parser K (Option α)} (hp : Lasts ends p) (g : α → β) :
    Lasts ends (do return (← p).map g) := hp.bind fun _ => .pure _

theorem Lasts.symbol {s : Symbol}
    (hs : (Token.closing.all fun t : Token K => !Token.isSymbol s t) = true) :
    Lasts true (symbol s : Parser K Bool) := by
  refine .bind (.take?_of fun _ t ht => ?_) fun _ => .pure _
  have hother : Token.isSymbol s t = false := by
    rw [← Bool.not_eq_true']
    exact List.all_eq_true.1 hs t ht.mem_closing
  rw [hother]
  rfl

/-- In front of the end a comma is told from what else may come next. -/
theorem Lasts.comma : Lasts false (Parser.symbol .comma : Parser K Bool) :=
  .bind (.take?_of nofun) fun _ => .pure _

/-- A required symbol is no look at what follows it. -/
theorem Lasts.expect (s : Symbol) (error : Nat → ParseError) [Syntactic error] :
    Lasts ends (expect s error : Parser K Unit) where
  sameRuns := sameRuns_congruence.expect s error
  reads {ts us rest a} _ _ h := by
    have hsplit : ts ++ us = [Token.symbol s] ++ us := h.yields.expect
    obtain rfl := List.append_cancel_right hsplit
    exact .expect

/-- A symbol that is required is missing at the end of the tokens. -/
theorem Fails.expect (s : Symbol) (error : Nat → ParseError) :
    Fails (expect s error : Parser K Unit) [] :=
  Reads.fails (Reads.accept_false rfl) (.failHere error)

theorem Lasts.require {error : Nat → ParseError} [Syntactic error] {p : Parser K (Option α)}
    (hp : Lasts ends p) : Lasts ends (require error p) :=
  hp.bind_option (.failHere error) fun _ => .pure _

theorem Lasts.firstOf_cons {p : Parser K (Option α)} {ps : List (Parser K (Option α))}
    (hp : Lasts ends p) (hps : Lasts ends (firstOf ps)) : Lasts ends (firstOf (p :: ps)) :=
  hp.bind_option hps fun _ => .pure _

theorem Lasts.build : ∀ e : Except BuildError α, Lasts ends (build e : Parser K α)
  | .ok a => .pure a
  | .error _ => .failHere _

/-! ### Looks, checkpoints and levels -/

/-- A look at the next token lasts if it does not tell a closing token from none. -/
theorem Lasts.look {g : Reader K → Parser K α} (hg : ∀ r, Lasts true (g r))
    (hpeek : ∀ r s, r.peek? = s.peek? → g r = g s)
    (hclosed : ∀ r s t, t.Closes → r.peek? = some t → s.peek? = none → g r = g s) :
    Lasts true (get >>= g) where
  sameRuns := sameRuns_congruence.look fun r s h => hpeek r s h ▸ (hg r).sameRuns
  reads {ts us rest a} hends hrest h := by
    obtain ⟨s, hs⟩ : ∃ s : Reader K, s.ahead = ts ++ us := by
      refine ⟨.ofTokens ((ts ++ us).map (·, 0)) none, ?_⟩
      rw [Reader.ahead_ofTokens, List.map_map]
      exact List.map_id _
    have hnow : Reads (g s) ts us a := fun r hmax hr => by
      rw [← hpeek r s (by rw [r.peek?_eq, s.peek?_eq, hr, hs])]
      exact h r hmax hr
    refine .inspect (g s) (fun r hr => ?_) ((hg s).reads hends hrest hnow)
    rw [← List.append_assoc, ← hs] at hr
    cases hsplit : s.ahead with
    | cons t more => exact hpeek r s (by rw [hr, s.peek?_eq, hsplit]; rfl)
    | nil =>
      have hnone : s.peek? = none := by rw [s.peek?_eq, hsplit]; rfl
      rw [hsplit] at hr
      cases rest with
      | nil => exact hpeek r s (hr.trans hnone.symm)
      | cons t rest => exact hclosed r s t (Token.closes_of_follows hrest) hr hnone

/-- A checkpoint gives back what lasts. -/
theorem Lasts.speculate {p : Parser K (Option α)} (hp : Lasts true p) :
    Lasts true (speculate p) where
  sameRuns := sameRuns_congruence.speculate hp.sameRuns
  reads {ts us rest found} hends hrest h := by
    rcases hp.sameRuns.reads_speculate h with ⟨a, rfl, hreads⟩ | ⟨rfl, rfl, xs, ys, rfl, hreads⟩
    · exact (hp.reads hends hrest hreads).speculate
    · have hlater := (hp.reads (fun _ => rfl) hrest hreads).speculate_none xs
      rwa [← List.append_assoc] at hlater

theorem Lasts.nested (hp : Lasts ends p) : Lasts ends (nested p) where
  sameRuns := hp.sameRuns.nested
  reads hends hrest h := (hp.reads hends hrest (h.of_nested hp.sameRuns)).nested

/-! ### Loops -/

/-- A loop lasts that ends by itself, if it does with every count. -/
theorem Lasts.counted {loop : Nat → Parser K α} (hsettles : Settles loop)
    (hloop : ∀ count, Lasts ends (loop count)) : Lasts ends (remaining >>= loop) := by
  have hreads {ts us : List (Token K)} {a : α} {count : Nat} (hcount : (ts ++ us).length ≤ count) :
      Reads (remaining >>= loop) ts us a ↔ Reads (loop count) ts us a := by
    refine forall_congr' fun r => imp_congr_right fun _ => forall_congr' fun hahead => ?_
    have hrun : (remaining >>= loop).run r = (loop r.remaining).run r := rfl
    rw [hrun, ← hsettles r count (by rwa [r.remaining_eq, hahead])]
  refine ⟨sameRuns_congruence.bind sameRuns_congruence.remaining fun n => (hloop n).sameRuns,
    fun {ts us rest a} hends hrest h => ?_⟩
  -- With a count that covers all of the tokens it is one loop that reads in front of both.
  have hcount : (ts ++ us).length ≤ (ts ++ (us ++ rest)).length := by
    simp only [List.length_append]
    omega
  rw [hreads hcount] at h
  rw [hreads (Nat.le_refl _)]
  exact (hloop _).reads hends hrest h

theorem Lasts.moreItems {item : Parser K α} (hitem : Lasts true item) :
    ∀ count, Lasts false (moreItems item count)
  | 0 => .pure []
  | count + 1 => .bind_bool .comma (.pure []) <| .bind hitem.inside fun _ =>
      .bind (.moreItems hitem count) fun _ => .pure _

/-- A loop with something behind it. -/
theorem Lasts.counted_bind {loop : Nat → Parser K α} (hsettles : Settles loop)
    (hloop : ∀ count, Lasts ends (loop count)) (hf : ∀ a, Lasts ends (f a)) :
    Lasts ends (remaining >>= fun count => loop count >>= f) := by
  rw [← bind_assoc]
  exact .bind (.counted hsettles hloop) hf

/-- A loop behind which a token is required. -/
theorem Lasts.counted_closed {loop : Nat → Parser K α} (hsettles : Settles loop)
    (hloop : ∀ count, Lasts false (loop count)) (hf : ∀ a, Lasts ends (f a))
    (hfails : ∀ a, Fails (f a) []) : Lasts ends (remaining >>= fun count => loop count >>= f) := by
  rw [← bind_assoc]
  exact .closed (.counted hsettles hloop) hf hfails

end Parser

namespace Grammar

/-! ## Constructs without nested ones -/

theorem number_lasts : Lasts true (number : Parser K (Option (Expr K))) := by
  refine .bind_option (.take? rfl) (.pure none) fun _ =>
    .bind (.take? rfl) fun unit? => ?_
  cases unit? <;> exact .pure _

theorem truth_lasts : Lasts true (truth : Parser K (Option (Expr K))) :=
  .map (.take? rfl) _

theorem text_lasts : Lasts true (text : Parser K (Option (Expr K))) :=
  .map (.take? rfl) _

theorem polarMagnitude_lasts : Lasts true (polarMagnitude : Parser K (Option K)) :=
  .speculate <| .bind (.symbol rfl) fun _ =>
    .bind_option (.take? rfl) (.pure _) fun _ =>
      .bind_bool (.symbol rfl) (.pure _) (.pure _)

theorem complexNumber_lasts [Scalar K] : Lasts true (complexNumber : Parser K (Option (Expr K))) :=
  .bind_option polarMagnitude_lasts (.pure _) fun _ =>
    .bind (.take? rfl) fun _ =>
      .bind (.require (.take? rfl)) fun _ =>
        .bind (.expect _ _) fun _ => .pure _

theorem variableName_lasts : Lasts true (variableName : Parser K (Option String)) := by
  refine .speculate (.bind_option (.take? rfl) (.pure none) fun name =>
    .look (fun r => ?_) (fun r s hpeek => by rw [hpeek]) fun r s t ht hr hs => ?_)
  · split <;> exact .pure _
  · rw [hr, hs]
    cases ht <;> rfl

theorem makeCall_lasts (name : String) (arguments : List (Expr K)) :
    Lasts true (makeCall name arguments) := by
  unfold makeCall
  split
  · exact .build _
  · exact .pure _

theorem factorials_lasts : ∀ count (e : Expr K), Lasts true (factorials count e)
  | 0, e => .pure e
  | count + 1, e => .bind_bool (.symbol rfl) (.pure e)
      (factorials_lasts count (.unary .factorial e))

theorem stepOf_lasts (e : Expr K) : Lasts true (stepOf e) := by
  unfold stepOf
  split
  · exact .map (.take? rfl) _
  · exact .pure _

theorem assignmentHead_lasts :
    Lasts true (assignmentHead : Parser K (Option (AssignOp × String))) :=
  .speculate <| .bind_option variableName_lasts (.pure _) fun _ =>
    .map (.take? rfl) _

/-! ## Constructs over nested ones -/

variable {self : Nest → Parser K (Option (Expr K))}

/-- The nested constructs of an expression last, and consume a token if they find something. -/
structure ExpressionsLast (nested : Nest → Parser K (Option (Expr K))) : Prop where
  decisive : ∀ n, (nested n).Decisive
  expression : Lasts true (nested .expression)
  prefixed : Lasts true (nested .prefixed)

variable (hself : ExpressionsLast self)

include hself

theorem expressions_last (construct : String) : Lasts false (expressions self construct) :=
  .bind_option hself.expression.inside (.pure _) fun _ =>
    .counted_bind (moreItems_settles (hself.decisive _).steady.require)
      (.moreItems (.require hself.expression)) fun _ => .pure _

theorem arguments_last : Lasts true (arguments self) :=
  .bind_bool (.symbol rfl) (.pure _) <|
    .closed (expressions_last hself _) (fun _ => .bind (.expect _ _) fun _ => .pure _)
      fun _ => (Fails.expect _ _).bind

theorem functionOrVariable_lasts : Lasts true (functionOrVariable self) :=
  .bind_option (.take? rfl) (.pure _) fun _ =>
    .bind_option (arguments_last hself) (.pure _) fun _ =>
      .bind (makeCall_lasts _ _) fun _ => .pure _

theorem parentheses_last : Lasts true (parentheses self) :=
  .bind_bool (.symbol rfl) (.pure _) <|
    .bind (.require hself.expression) fun _ => .bind (.expect _ _) fun _ => .pure _

theorem elements_last : Lasts true (elements self) :=
  .bind_bool (.symbol rfl) (.pure _) <|
    .bind (.require hself.expression) fun _ =>
      .counted_closed (moreItems_settles (hself.decisive _).steady.require)
        (.moreItems (.require hself.expression)) (fun _ => .bind (.expect _ _) fun _ => .pure _)
        fun _ => (Fails.expect _ _).bind

theorem vector_lasts : Lasts true (vector self) := .map (elements_last hself) _

theorem firstRow_lasts : Lasts true (firstRow self) :=
  .speculate <| .bind_bool (.symbol rfl) (.pure _) (elements_last hself)

theorem matrix_lasts : Lasts true (matrix self) :=
  .bind_option (firstRow_lasts hself) (.pure _) fun _ =>
    .counted_closed (moreItems_settles (elements_decisive hself.decisive).steady.require)
      (.moreItems (.require (elements_last hself)))
      (fun _ => .bind (.expect _ _) fun _ => .bind (.build _) fun _ => .pure _)
      fun _ => (Fails.expect _ _).bind

variable [Scalar K]

theorem operand_lasts : Lasts true (operand self) :=
  .firstOf_cons complexNumber_lasts <| .firstOf_cons number_lasts <|
    .firstOf_cons (functionOrVariable_lasts hself) <| .firstOf_cons truth_lasts <|
    .firstOf_cons text_lasts <| .firstOf_cons (parentheses_last hself) <|
    .firstOf_cons (matrix_lasts hself) <| .firstOf_cons (vector_lasts hself) (.pure none)

theorem postfixed_lasts : Lasts true (postfixed self) :=
  .bind_option (operand_lasts hself) (.pure _) fun e =>
    .bind_option (stepOf_lasts e)
      (.counted_bind (factorials_settles e) (factorials_lasts · e) fun _ => .pure _)
      fun _ => .pure _

theorem power_lasts : Lasts true (power self) :=
  .bind_option (postfixed_lasts hself) (.pure _) fun _ =>
    .bind_bool (.symbol rfl) (.pure _) <|
      .bind (.require hself.prefixed) fun _ => .pure _

/-- A closing token is no prefixed operator, and at the end of the tokens there is none. -/
theorem prefixed_lasts : Lasts true (prefixed self) := by
  refine .look (fun r => ?_) (fun r s hpeek => by rw [hpeek]) fun r s t ht hr hs => ?_
  · split
    · exact power_lasts hself
    · exact .speculate <| .bind (.take? rfl) fun _ =>
        .map hself.prefixed _
  · rw [hr, hs]
    cases ht <;> rfl

theorem namedFactor_lasts : Lasts true (namedFactor self) :=
  .bind_option (functionOrVariable_lasts hself) (.pure _) fun _ =>
    .bind_bool (.symbol rfl) (.pure _) <|
      .bind (.require (power_lasts hself)) fun _ => .pure _

theorem numberTimes_lasts : Lasts true (numberTimes self) :=
  .speculate <| .bind (.symbol rfl) fun _ =>
    .bind_option number_lasts (.pure _) fun _ =>
      .bind_option
        (.firstOf_cons (namedFactor_lasts hself) <| .firstOf_cons (parentheses_last hself) <|
          .firstOf_cons (matrix_lasts hself) <| .firstOf_cons (vector_lasts hself) (.pure none))
        (.pure _) fun _ => .pure _

theorem implicitProduct_lasts : Lasts true (implicitProduct self) :=
  .firstOf_cons (numberTimes_lasts hself) (.firstOf_cons hself.prefixed (.pure none))

omit hself [Scalar K] in
/-- No closing token is an operator. -/
theorem chain_lasts (precedence : Nat) {next : Parser K (Option (Expr K))}
    (hnext : Lasts true next) :
    ∀ count (left : Expr K), Lasts true (chain precedence next count left)
  | 0, left => .pure left
  | count + 1, left => .bind_option (.take? rfl) (.pure left) fun _ =>
      .bind (.require hnext) fun _ => chain_lasts precedence hnext count _

theorem ladder_lasts : ∀ precedences, Lasts true (ladder self precedences)
  | [] => implicitProduct_lasts hself
  | precedence :: tighter => .bind_option (ladder_lasts tighter) (.pure _) fun left =>
      .counted_bind (chain_settles precedence (ladder_decisive hself.decisive tighter).steady left)
        (chain_lasts precedence (ladder_lasts tighter) · left) fun _ => .pure _

theorem conditional_lasts : Lasts true (conditional self) :=
  .bind_option (ladder_lasts hself _) (.pure _) fun _ =>
    .bind_bool (.symbol rfl) (.pure _) <|
      .bind (.require hself.expression) fun _ => .bind (.expect _ _) fun _ =>
        .bind (.require hself.expression) fun _ => .pure _

omit [Scalar K] in
theorem compoundAssignment_lasts : Lasts true (compoundAssignment self) :=
  .bind_option assignmentHead_lasts (.pure _) fun _ =>
    .bind (.require hself.expression) fun _ => .pure _

end Grammar

/-! ## Expressions -/

section

variable [Scalar K] {ts us rest : List (Token K)} {e : Expr K} {levels : Nat}

/-- The nested constructs of expressions last. -/
theorem Nest.parserWithin_last (levels : Nat) :
    ExpressionsLast (Nest.parserWithin (K := K) levels) := by
  have hdecisive := Nest.parserWithin_decisive (K := K) levels
  induction levels with
  | zero => exact ⟨hdecisive, .pure none, .pure none⟩
  | succ levels ih =>
    have hself := ih (Nest.parserWithin_decisive levels)
    refine ⟨hdecisive, .nested ?_, .nested (prefixed_lasts hself)⟩
    exact .firstOf_cons (compoundAssignment_lasts hself) <|
      .firstOf_cons (conditional_lasts hself) (.pure none)

/-- **What is read as an expression at the end of the tokens** is read in front of everything that
pulls on nothing, with any number of levels that is enough for the tokens. -/
theorem expression_lasts (hlevels : 2 * ts.length + 2 ≤ levels)
    (h : Reads (Nest.expression.parserWithin levels) ts [] (some e)) :
    ReadsOver Nest.parserWithin (2 * ts.length + 2) 0 ts e := by
  intro others rest hrest hothers
  have hothers : 2 * ts.length + 2 ≤ others := hothers
  have htracks := (Nest.parserWithin_selfTracks (K := K) hlevels hothers).tracks .expression
  have hread : Reads (Nest.expression.parserWithin others) ts [] (some e) := by
    refine htracks.reads ?_ h
    rw [List.append_nil]
    exact Nat.le_refl _
  exact (Nest.parserWithin_last others).expression.reads (fun _ => rfl) hrest hread

/-- The parser of expressions gives what the grammar reads with levels for all tokens. -/
theorem run_expression {located : List (Token K × Nat)} (hlocated : located.map (·.1) = ts ++ rest)
    (h : Reads (Nest.expression.parserWithin (nestingBudget located.length)) ts rest (some e)) :
    Production.expression.parser.run (.ofTokens located none) =
      (.ok (some e), (Reader.ofTokens located none).skip ts.length) := by
  have hremaining : (remaining : Parser K Nat).run (.ofTokens located none) =
    (.ok located.length, .ofTokens located none) := rfl
  rw [Production.parser, run_bind_ok hremaining]
  exact h _ rfl ((Reader.ahead_ofTokens _ _).trans hlocated)

/-- Where it consumes all tokens, the grammar reads them. -/
theorem reads_of_run_expression {located : List (Token K × Nat)} {after : Reader K}
    (h : Production.expression.parser.run (.ofTokens located none) = (.ok (some e), after))
    (hend : after.isEnd = true) :
    Reads (Nest.expression.parserWithin (nestingBudget located.length)) (located.map (·.1)) []
      (some e) := by
  have hremaining : (remaining : Parser K Nat).run (.ofTokens located none) =
    (.ok located.length, .ofTokens located none) := rfl
  rw [Production.parser, run_bind_ok hremaining] at h
  have hahead := Reader.ahead_ofTokens located none
  rcases (Nest.parserWithin_sameRuns (nestingBudget located.length) .expression).reads_or_fails
    (located.map (·.1)) with ⟨ts, rest, found, hsplit, hreads⟩ | hfails
  · have hrun := hreads _ rfl (hahead.trans hsplit)
    obtain ⟨hfound, hafter⟩ := Prod.mk.inj (h.symm.trans hrun)
    obtain rfl : some e = found := Except.ok.inj hfound
    have hstop : located.length ≤ ts.length := by
      have hposition : located.length ≤ 0 + ts.length := by
        rw [hafter] at hend
        exact of_decide_eq_true hend
      omega
    have hlength := congrArg List.length hsplit
    simp only [List.length_map, List.length_append] at hlength
    obtain rfl : rest = [] := List.eq_nil_of_length_eq_zero (by omega)
    rwa [hsplit, List.append_nil]
  · obtain ⟨cause, after', hrun⟩ := hfails _ rfl hahead
    cases h.symm.trans hrun

/-- **Parentheses are transparent, and closing tokens disturb nothing.** Let the parser of
expressions without a limit on nesting consume all tokens as a tree. From the tokens in parentheses
it reads the tree and consumes all of them. In front of a closing token, whatever stands behind, it
reads the tree and stops at that token. -/
theorem expression_closes {located : List (Token K × Nat)} {after : Reader K}
    (h : Production.expression.parser.run (.ofTokens located none) = (.ok (some e), after))
    (hend : after.isEnd = true) :
    (∀ wrapped : List (Token K × Nat), wrapped.map (·.1) =
        .symbol .openParenthesis :: (located.map (·.1) ++ [Token.symbol .closeParenthesis]) →
      Production.expression.parser.run (.ofTokens wrapped none) =
        (.ok (some e), (Reader.ofTokens wrapped none).skip wrapped.length)) ∧
      ∀ (longer : List (Token K × Nat)) (t : Token K) (rest : List (Token K)), t.Closes →
        longer.map (·.1) = located.map (·.1) ++ t :: rest →
          Production.expression.parser.run (.ofTokens longer none) =
            (.ok (some e), (Reader.ofTokens longer none).skip located.length) := by
  have hlength : (located.map (·.1)).length = located.length := List.length_map _
  have hreads : ReadsOver Nest.parserWithin (2 * located.length + 2) 0 (located.map (·.1)) e := by
    have hread := reads_of_run_expression h hend
    rw [← hlength] at hread ⊢
    exact expression_lasts (Nat.add_le_add_left (by decide) _) hread
  refine ⟨fun wrapped hwrapped => ?_, fun longer t rest ht hlonger => ?_⟩
  · have hoperand := hreads.wrapped
    have hwhole := hoperand.descend (p := 0) Nest.parserWithin_unrolls (by omega)
      (.parenthesis _ _) (Nat.le_refl _) (Nat.zero_le _)
    have hcount := congrArg List.length hwrapped
    simp only [List.length_map, List.length_append, List.length_cons, List.length_nil] at hcount
    have hread := hwhole (nestingBudget wrapped.length) [] rfl (by
      show 2 * located.length + 2 + 2 ≤ 2 * wrapped.length + 4
      omega)
    have hsame : wrapped.map (·.1) = wrappedTokens true (located.map (·.1)) := hwrapped
    rw [← hsame] at hread
    have hall := run_expression (List.append_nil _).symm hread
    rwa [List.length_map] at hall
  · have hcount := congrArg List.length hlonger
    simp only [List.length_map, List.length_append] at hcount
    rw [← hlength]
    refine run_expression hlonger (hreads (nestingBudget longer.length) _ ht.follows ?_)
    show 2 * located.length + 2 ≤ 2 * longer.length + 4
    omega

end

/-- The conditional `x ? (y) : z` in parentheses, and in front of a comma. -/
theorem expression_closes_conditional :
    let located : List (Token Binary64 × Nat) := [(.identifier "x", 0), (.symbol .question, 2),
      (.symbol .openParenthesis, 4), (.identifier "y", 5), (.symbol .closeParenthesis, 6),
      (.symbol .colon, 8), (.identifier "z", 10)]
    let tree : Expr Binary64 := .ifThenElse (.var "x") (.var "y") (.var "z")
    let wrapped :=
      (.symbol .openParenthesis, 0) :: (located ++ [(Token.symbol .closeParenthesis, 11)])
    let longer := located ++ [(Token.symbol .comma, 11)]
    Production.expression.parser.run (.ofTokens located none) =
        (.ok (some tree), (Reader.ofTokens located none).skip 7) ∧
      Production.expression.parser.run (.ofTokens wrapped none) =
        (.ok (some tree), (Reader.ofTokens wrapped none).skip 9) ∧
      Production.expression.parser.run (.ofTokens longer none) =
        (.ok (some tree), (Reader.ofTokens longer none).skip 7) := by
  intro located tree wrapped longer
  have hname (p : Nat) (hp : p ≤ atomPrecedence) (name : String) :
      ReadsAs p [.identifier name] (.var name : Expr Binary64) :=
    (ReadsAs.var name).descend (.name _ name rfl) (Nat.le_refl _) hp
  have hwrapped : ReadsAs 0 (wrappedTokens true [.identifier "y"]) (.var "y" : Expr Binary64) :=
    (hname 0 (by decide) "y").wrapped.descend (.parenthesis _ _) (Nat.le_refl _) (by decide)
  have htree : ReadsAs 0 (located.map (·.1)) tree :=
    ((hname 2 (by decide) "x").ifThenElse hwrapped (hname 0 (by decide) "z")).descend
      (.name _ "x" rfl) (by decide) (by decide)
  have hrun : Production.expression.parser.run (.ofTokens located none) =
      (.ok (some tree), (Reader.ofTokens located none).skip 7) :=
    run_expression (List.append_nil _).symm (htree (nestingBudget 7) [] rfl (by decide))
  obtain ⟨hparentheses, hcomma⟩ := expression_closes hrun (by decide)
  exact ⟨hrun, hparentheses wrapped rfl, hcomma longer (.symbol .comma) [] .comma rfl⟩

end Formula

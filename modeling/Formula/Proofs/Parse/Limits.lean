import Formula.Binary64.Scalar
import Formula.Proofs.Parse.Nesting

/-!
# The limit on nesting

`parseWithin_limit`: a stricter limit turns what is read into the error that names it, or changes
nothing. `parse_depth`: over `n` tokens no more than `2 * n + 3` levels of nesting are ever open.
What counts the recursion and the loops of the grammar down is a variant, then, and no budget: the
recursion is the same whatever stands below these levels, and every loop ends by itself before its
count does (`Parser.Settles`).
-/

namespace Formula

open Formula.Parser

variable {K : Type}

/-! ## Loops -/

namespace Parser

variable {α β : Type} {p : Parser K α} {f g : α → Parser K β} {r : Reader K}

/-- The count of a loop is never used up: any count that covers the tokens left gives the same
run. -/
def Settles (loop : Nat → Parser K α) : Prop :=
  ∀ (r : Reader K) (count : Nat), r.remaining ≤ count → (loop count).run r = (loop r.remaining).run r

/-- It is enough that one more count changes nothing. -/
theorem Settles.of_succ {loop : Nat → Parser K α}
    (h : ∀ count (r : Reader K), r.remaining ≤ count → (loop (count + 1)).run r = (loop count).run r) :
    Settles loop := by
  intro r count hr
  induction hr with
  | refl => rfl
  | step hr ih => exact (h _ r hr).trans ih

/-- Without a token left nothing is consumed. -/
theorem run_take?_end (find? : Token K → Option α) (hr : r.remaining = 0) :
    (take? find?).run r = (.ok none, r) := by
  have hpeek : r.peek? = none := by
    cases h : r.peek? with
    | none => rfl
    | some t => exact absurd hr (Nat.ne_of_gt (Reader.remaining_pos_of_peek? h))
  show (Except.ok (r.take? find?).1, (r.take? find?).2) = _
  rw [Reader.take?, hpeek]
  rfl

/-- Without a token left there is no symbol. -/
theorem run_symbol_end (s : Symbol) (hr : r.remaining = 0) :
    (symbol s : Parser K Bool).run r = (.ok false, r) :=
  run_bind_ok (run_take?_end _ hr)

/-- Sequences whose first parts run alike. -/
theorem run_bind_eq {q : Parser K α} (h : p.run r = q.run r) :
    (p >>= f).run r = (q >>= f).run r := by
  show (ExceptT.bindCont f (p.run r).1) (p.run r).2 = _
  rw [h]
  rfl

/-- Sequences that go on alike behind a steady parser. -/
theorem Steady.run_bind_congr (hp : p.Steady)
    (h : ∀ a s, s.remaining ≤ r.remaining → (f a).run s = (g a).run s) :
    (p >>= f).run r = (p >>= g).run r := by
  have hmoves := hp r
  rcases hrun : p.run r with ⟨e | a, s⟩ <;> rw [hrun] at hmoves
  · rw [run_bind_error hrun, run_bind_error hrun]
  · rw [run_bind_ok hrun, run_bind_ok hrun]
    exact h a s hmoves.remaining_le

/-- Sequences that go on alike behind a decisive parser. -/
theorem Decisive.run_bind_congr [Verdict α] (hp : p.Decisive)
    (hno : ∀ a, Verdict.found a = false → f a = g a)
    (hyes : ∀ a s, Verdict.found a → s.remaining < r.remaining → (f a).run s = (g a).run s) :
    (p >>= f).run r = (p >>= g).run r := by
  have hmoves := hp r
  rcases hrun : p.run r with ⟨e | a, s⟩ <;> rw [hrun] at hmoves
  · rw [run_bind_error hrun, run_bind_error hrun]
  · rw [run_bind_ok hrun, run_bind_ok hrun]
    cases ha : Verdict.found a with
    | false => rw [hno a ha]
    | true =>
      have hadvances : r.Advances s := by simpa [ha] using hmoves
      exact hyes a s ha hadvances.remaining_lt

/-- A list of items ends by itself. -/
theorem moreItems_settles {item : Parser K α} (hitem : item.Steady) : Settles (moreItems item) := by
  refine .of_succ fun count => ?_
  induction count with
  | zero =>
    intro r hr
    exact run_bind_ok (run_symbol_end .comma (Nat.le_zero.1 hr))
  | succ count ih =>
    intro r hr
    refine (Decisive.symbol .comma).run_bind_congr (fun | false, _ => rfl) fun
      | true, s, _, hs => hitem.run_bind_congr fun a s' hs' => ?_
    exact run_bind_eq (ih s' (by omega))

end Parser

/-! ## Loops of the grammar -/

namespace Grammar

/-- Factorial signs end by themselves. -/
theorem factorials_settles (e : Expr K) : Settles fun count => factorials count e := by
  refine .of_succ fun count => ?_
  induction count generalizing e with
  | zero =>
    intro r hr
    exact run_bind_ok (run_symbol_end .bang (Nat.le_zero.1 hr))
  | succ count ih =>
    intro r hr
    refine (Decisive.symbol .bang).run_bind_congr (fun | false, _ => rfl) fun
      | true, s, _, hs => ih (.unary .factorial e) s (by omega)

/-- A chain of operators ends by itself. -/
theorem chain_settles (precedence : Nat) {next : Parser K (Option (Expr K))}
    (hnext : next.Steady) (left : Expr K) :
    Settles fun count => chain precedence next count left := by
  refine .of_succ fun count => ?_
  induction count generalizing left with
  | zero =>
    intro r hr
    exact run_bind_ok (run_take?_end _ (Nat.le_zero.1 hr))
  | succ count ih =>
    intro r hr
    refine (Decisive.take? _).run_bind_congr (fun | none, _ => rfl) fun
      | some op, s, _, hs => hnext.require.run_bind_congr fun right s' hs' => ?_
    exact ih (.binary op left right) s' (by omega)

/-- The names of a parameter list end by themselves. -/
theorem moreNames_settles : Settles (moreNames : Nat → Parser K (Option (List String))) := by
  refine .of_succ fun count => ?_
  induction count with
  | zero =>
    intro r hr
    exact run_bind_ok (run_symbol_end .comma (Nat.le_zero.1 hr))
  | succ count ih =>
    intro r hr
    refine (Decisive.symbol .comma).run_bind_congr (fun | false, _ => rfl) fun
      | true, s, _, hs => variableName_decisive.run_bind_congr (fun | none, _ => rfl) fun
        | some name, s', _, hs' => run_bind_eq (ih s' (by omega))

/-- Every loop of the grammar over these nested constructs ends by itself. -/
structure LoopsSettle [Scalar K] (self : Nest → Parser K (Option (Expr K))) : Prop where
  operators : ∀ precedence tighter left,
    Settles fun count => chain precedence (ladder self tighter) count left
  signs : ∀ e : Expr K, Settles fun count => factorials count e
  items : ∀ construct,
    Settles (moreItems (require (.missingExpression construct) (self .expression)))
  rows : Settles (moreItems (require (.missingExpression "matrix") (elements self)))
  names : Settles (moreNames : Nat → Parser K (Option (List String)))

/-- Steps through tokens are all it takes: the loops end by themselves over decisive parsers of the
nested constructs. -/
theorem loopsSettle [Scalar K] {self : Nest → Parser K (Option (Expr K))}
    (hself : ∀ n, (self n).Decisive) : LoopsSettle self where
  operators precedence tighter := chain_settles precedence (ladder_decisive hself tighter).steady
  signs := factorials_settles
  items _ := moreItems_settles (hself .expression).steady.require
  rows := moreItems_settles (elements_decisive hself).steady.require
  names := moreNames_settles

end Grammar

/-! ## Whole texts -/

variable [Scalar K]

/-- A statement is read from all tokens with more levels of nesting than they can need. -/
theorem Nest.run_parser (tokens : List (Token K × Nat)) (maxDepth? : Option Nat) :
    (Nest.statement.parser : Parser K (Option (Expr K))).run (.ofTokens tokens maxDepth?) =
      (Nest.statement.parserWithin (nestingBudget tokens.length)).run
        (.ofTokens tokens maxDepth?) := by
  have hremaining : (remaining : Parser K Nat).run (.ofTokens tokens maxDepth?) =
    (.ok tokens.length, .ofTokens tokens maxDepth?) := rfl
  rw [Nest.parser, run_bind_ok hremaining]

/-- The whole grammar and one that goes on otherwise below the levels which the tokens can need, run
within two limits. -/
theorem Nest.parser_tracksAt {low high : Option Nat} (hlimits : Limits low high)
    (bottom : Nest → Parser K (Option (Expr K))) (tokens : List (Token K × Nat)) {levels : Nat}
    (hlevels : 2 * tokens.length + 3 ≤ levels) :
    TracksAt low high (2 * tokens.length + 3) (.ofTokens tokens none)
      (Nest.statement.parserWithin (nestingBudget tokens.length))
      (Nest.statement.unrolled bottom levels) := by
  have hbound : 2 * tokens.length + 3 ≤ nestingBudget tokens.length := Nat.le_succ _
  have hroom : TracksAt low high (0 + (2 * tokens.length + 3)) (.ofTokens tokens none)
      (Nest.statement.parserWithin (nestingBudget tokens.length))
      (Nest.statement.unrolled bottom levels) :=
    Nest.parserWithin_tracks hlimits _ hbound hlevels .statement (.ofTokens tokens none)
      (Nat.le_refl _)
  rwa [Nat.zero_add] at hroom

/-- The outcome for all tokens within a limit is that within a laxer one, or the limit is below the
levels which the tokens can need and it is reached. -/
theorem parseTokens_limits {low high : Option Nat} (hlimits : Limits low high)
    (tokens : List (Token K × Nat)) :
    (parseTokens tokens low = parseTokens tokens high ∧
        (low ≠ high → ∀ e, parseTokens tokens low = .error e → e.isNesting = false)) ∨
      ∃ m position, low = some m ∧ m < 2 * tokens.length + 3 ∧
        parseTokens tokens low = .error (.nestingTooDeep m position) := by
  have hbudget : 2 * tokens.length + 3 ≤ nestingBudget tokens.length := Nat.le_succ _
  have htracks := Nest.parser_tracksAt hlimits (fun _ => return none) tokens hbudget
  rw [Nest.unrolled_nothing] at htracks
  have hwithin (limit? : Option Nat) :
      (Reader.ofTokens tokens none).within limit? = .ofTokens tokens limit? := rfl
  simp only [parseTokens, Nest.run_parser]
  cases htracks with
  | limit position after _ hm hlt hrun =>
    rw [hwithin] at hrun
    exact .inr ⟨_, position, hm, hlt, by rw [hrun]⟩
  | same result after hsyntax hlow hhigh =>
    rw [hwithin] at hlow hhigh
    rw [hlow, hhigh]
    cases result with
    | error e =>
      refine .inl ⟨rfl, fun hne e' he => ?_⟩
      cases he
      exact hsyntax hne e rfl
    | ok found? =>
      -- What is left over decides, which a limit does not change, and it is no matter of nesting.
      refine .inl ⟨by cases found? <;> rfl, fun _ e he => ?_⟩
      cases found? <;> dsimp only at he <;> split at he <;> cases he <;> rfl

/-- **A limit only cuts off.** For every text, what is read within a limit on nesting is what is
read within a laxer one or without any, the tree or the error, or it is the error that the limit was
reached. -/
theorem parseWithin_limit {m : Nat} {maxDepth? : Option Nat} (h : maxDepth?.all (m ≤ ·) = true)
    (source : String) :
    (parseWithin (some m) source : Except ParseError (Expr K)) = parseWithin maxDepth? source ∨
      ∃ position, (parseWithin (some m) source : Except ParseError (Expr K)) =
        .error (.nestingTooDeep m position) := by
  simp only [parseWithin]
  split
  · exact .inl rfl
  · cases (tokenize source : Except ParseError (List (Token K × Nat))) with
    | error e => exact .inl rfl
    | ok tokens =>
      have hlimits : Limits (some m) maxDepth? := .inr ⟨m, rfl, h⟩
      rcases parseTokens_limits hlimits tokens with ⟨hsame, -⟩ | ⟨_, position, hm, -, hlow⟩
      · exact .inl hsame
      · cases hm
        exact .inr ⟨position, hlow⟩

/-- Four levels are too few for a name in parentheses, and seven are enough. -/
theorem parseWithin_limit_parentheses :
    (some 7).all (4 ≤ ·) = true ∧
      ((parseWithin (some 4) "(x)" : Except ParseError (Expr Binary64)) = parseWithin (some 7) "(x)" ∨
        ∃ position, (parseWithin (some 4) "(x)" : Except ParseError (Expr Binary64)) =
          .error (.nestingTooDeep 4 position)) :=
  ⟨rfl, parseWithin_limit rfl "(x)"⟩

/-- **Nesting is linear in the tokens.** Let a text have `n` tokens. The recursion of the grammar
never gets `2 * n + 3` levels deep, as its run is the same whatever stands there in its place, and
all its loops end by themselves. A limit of `2 * n + 3` levels or more is never reached. -/
theorem parse_depth {source : String} {tokens : List (Token K × Nat)}
    (h : tokenize source = .ok tokens) :
    (∀ bottom levels maxDepth?, 2 * tokens.length + 3 ≤ levels →
        (Nest.statement.parser : Parser K (Option (Expr K))).run (.ofTokens tokens maxDepth?) =
          (Nest.statement.unrolled bottom levels).run (.ofTokens tokens maxDepth?)) ∧
      (∀ levels, Grammar.LoopsSettle (Nest.parserWithin levels : Nest → Parser K _)) ∧
      ∀ m, 2 * tokens.length + 3 ≤ m →
        (parseWithin (some m) source : Except ParseError (Expr K)) = parseWithin none source ∧
          ∀ depth position, (parseWithin (some m) source : Except ParseError (Expr K)) ≠
            .error (.nestingTooDeep depth position) := by
  refine ⟨fun bottom levels maxDepth? hlevels => ?_,
    fun levels => Grammar.loopsSettle (Nest.parserWithin_decisive levels), fun m hm => ?_⟩
  · rw [Nest.run_parser]
    have hlimits : Limits maxDepth? maxDepth? := .inl rfl
    cases Nest.parser_tracksAt hlimits bottom tokens hlevels with
    | limit _ _ hne => exact absurd rfl hne
    | same result after _ hgrammar hunrolled => exact hgrammar.trans hunrolled.symm
  · simp only [parseWithin, h]
    split
    · exact ⟨rfl, nofun⟩
    · have hlimits : Limits (some m) none := .inr ⟨m, rfl, rfl⟩
      rcases parseTokens_limits hlimits tokens with ⟨hsame, hsyntax⟩ | ⟨_, _, hlow, hlt, -⟩
      · exact ⟨hsame, fun depth position herror => nomatch hsyntax nofun _ herror⟩
      · cases hlow
        omega

/-- The text `(` has a single token, so that five levels are enough for it. -/
theorem parse_depth_parenthesis :
    (tokenize "(" : Except ParseError (List (Token Binary64 × Nat))) =
        .ok [(.symbol .openParenthesis, 0)] ∧
      ∀ m, 5 ≤ m → (parseWithin (some m) "(" : Except ParseError (Expr Binary64)) =
        parseWithin none "(" := by
  have htokens : (tokenize "(" : Except ParseError (List (Token Binary64 × Nat))) =
      .ok [(.symbol .openParenthesis, 0)] := by rfl
  exact ⟨htokens, fun m hm => ((parse_depth htokens).2.2 m hm).1⟩

/-- Four levels are not enough for it. -/
example :
    (match (parseWithin (some 4) "(" : Except ParseError (Expr Binary64)) with
      | .error e => e == .nestingTooDeep 4 0
      | .ok _ => false) = true := by
  decide +kernel

end Formula

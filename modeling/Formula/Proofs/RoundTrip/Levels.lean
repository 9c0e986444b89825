import Formula.Proofs.RoundTrip.Refusals
import Mathlib.Data.List.Forall2

/-!
# Which construct reads a tree

Each binding strength belongs to one construct of the grammar, `Production.ofPrecedence`. `ReadsAs`
says that this construct reads tokens as a tree in front of everything that pulls less. A tree that
a tight construct reads is also read by the looser ones, which go on to the tighter one and find
nothing to do themselves: `ReadsAs.lower`.

Two sorts of constructs group to the left, the rungs of the ladder and the factorials. The parser
reads an operand and then goes round a loop, so an operand on the left is never read for itself.
`LeadsTo` states what is true of it instead: the construct goes on into its loop with that operand.

How many levels of nesting are needed depends on what stands below them. `ReadsOver` and `LeadsOver`
count them over any family of parsers that unrolls the grammar; two levels for each token are enough
for all of them, and `ReadsAs` and `LeadsTo` are about these.
-/

namespace Formula

open Formula.Grammar Formula.Parser

variable {K : Type}

/-! ## The construct of a binding strength -/

/-- The construct that reads the trees of a binding strength. -/
def Production.ofPrecedence : Nat → Production
  | 0 => .expression
  | 1 => .conditional
  | 14 => .power
  | 15 => .postfixed
  | 16 => .operand
  | p => .binary p

/-- How many levels of nesting a construct opens before its first token, at most. -/
def slack (p : Nat) : Nat := if p = 0 then 0 else if p ≤ prefixedPrecedence then 1 else 2

section Levels

variable [Scalar K]

/-- A family of parsers of the nested constructs, each one a level of nesting over the one before. -/
def Unrolls (S : Nat → Nest → Parser K (Option (Expr K))) : Prop :=
  ∀ n c, S (n + 1) c = nested (nest (S n) c)

variable (S : Nat → Nest → Parser K (Option (Expr K)))

/-- The construct of a binding strength, over the nested constructs with so many levels. -/
def parserOver (n p : Nat) : Parser K (Option (Expr K)) := (Production.ofPrecedence p).rule (S n)

/-- The loop of a construct that groups to the left, behind its first operand. -/
def loopOver (n : Nat) : Nat → Nat → Expr K → Parser K (Expr K)
  | 15 => factorials
  | p => chain p (parserOver S n (p + 1))

/-- The construct of a binding strength reads the tokens as the tree, in front of what pulls less,
with `k` levels of nesting. -/
def ReadsOver (k p : Nat) (ts : List (Token K)) (e : Expr K) : Prop :=
  ∀ n rest, follows (p - 1) rest = true → k ≤ n + slack p →
    Reads (parserOver S n p) ts rest (some e)

/-- The construct of a binding strength reads the tokens and goes on into its loop with the tree. -/
def LeadsOver (k p : Nat) (ts : List (Token K)) (e : Expr K) : Prop :=
  ∀ n rest, follows p rest = true → k ≤ n + slack p →
    ∃ count, rest.length ≤ count ∧
      GoesOn (parserOver S n p) ts rest (do return some (← loopOver S n p count e))

/-- The construct of a binding strength reads the tokens as the tree, with two levels of nesting for
each token. -/
def ReadsAs (p : Nat) (ts : List (Token K)) (e : Expr K) : Prop :=
  ReadsOver Nest.parserWithin (2 * ts.length) p ts e

/-- The construct of a binding strength leads into its loop, with two levels of nesting for each
token. -/
def LeadsTo (p : Nat) (ts : List (Token K)) (e : Expr K) : Prop :=
  LeadsOver Nest.parserWithin (2 * ts.length) p ts e

omit [Scalar K] in
/-- Whether the construct of a binding strength groups to the left. -/
def GroupsLeft (p : Nat) : Prop := p ∈ rungs ∨ p = postfixedPrecedence

instance (p : Nat) : Decidable (GroupsLeft p) := inferInstanceAs (Decidable (_ ∨ _))

omit [Scalar K] in
/-- The rungs of the ladder lie below the prefixed operators. -/
theorem lt_prefixed_of_mem_rungs {p : Nat} (hp : p ∈ rungs) : p < prefixedPrecedence := by
  simp only [rungs, List.mem_cons, List.not_mem_nil, or_false] at hp
  rw [prefixedPrecedence]
  omega

omit [Scalar K] in
/-- A construct that groups to the left stands on a tighter one. -/
theorem GroupsLeft.lt_atom {p : Nat} (hp : GroupsLeft p) : p < atomPrecedence := by
  rcases hp with hp | rfl
  · exact Nat.lt_trans (lt_prefixed_of_mem_rungs hp) (by decide)
  · decide

variable {S} {j k m n p q : Nat} {ts us vs rest : List (Token K)} {t : Token K} {a b c e : Expr K}

/-- The recursion of the grammar. -/
theorem Nest.parserWithin_unrolls : Unrolls (Nest.parserWithin (K := K)) := fun _ _ => rfl

/-- More levels do no harm. -/
theorem ReadsOver.mono (hjk : j ≤ k) (h : ReadsOver S j p ts e) : ReadsOver S k p ts e :=
  fun n rest hrest hn => h n rest hrest (Nat.le_trans hjk hn)

theorem LeadsOver.mono (hjk : j ≤ k) (h : LeadsOver S j p ts e) : LeadsOver S k p ts e :=
  fun n rest hrest hn => h n rest hrest (Nat.le_trans hjk hn)

/-! ## Grouping to the left -/

/-- A rung of the ladder stands on the construct of the next binding strength. -/
theorem parserOver_rung (hp : p ∈ rungs) :
    parserOver S n p = ladder (S n) (p :: rungs.filter (p + 1 ≤ ·)) ∧
      parserOver S n (p + 1) = ladder (S n) (rungs.filter (p + 1 ≤ ·)) ∧
      loopOver S n p = chain p (parserOver S n (p + 1)) := by
  simp only [rungs, List.mem_cons, List.not_mem_nil, or_false] at hp
  rcases hp with rfl | rfl | rfl | rfl | rfl | rfl | rfl | rfl | rfl | rfl | rfl
  all_goals exact ⟨rfl, rfl, rfl⟩

omit [Scalar K] in
/-- No step behind an operand. -/
theorem stepOf_refuses (h : rest.head?.bind stepOp? = none) : Reads (stepOf e) [] rest none := by
  cases e with
  | var name => exact Reads.look (.take?_none h) (.pure none)
  | _ => exact .pure none

/-- The loop ends in front of what pulls less. -/
theorem loopOver_stops (hp : GroupsLeft p) (hrest : follows (p - 1) rest = true) (count : Nat) :
    Reads (loopOver S n p count e) [] rest e := by
  rcases hp with hp | rfl
  · rw [(parserOver_rung hp).2.2]
    cases count with
    | zero => exact .pure e
    | succ count =>
      have hlow : 2 ≤ p := by
        simp only [rungs, List.mem_cons, List.not_mem_nil, or_false] at hp
        omega
      exact Reads.look (.take?_none (binaryOpAt?_eq_none (by omega) hrest)) (.pure e)
  · cases count with
    | zero => exact .pure e
    | succ count =>
      have hbang := not_isSymbol_of_follows (s := .bang) rfl (by decide) hrest
      exact Reads.look (.accept_false hbang) (.pure e)

/-- Tokens that lead into the loop are read in front of what ends it. -/
theorem LeadsOver.reads (hp : GroupsLeft p) (h : LeadsOver S k p ts e) : ReadsOver S k p ts e := by
  intro n rest hrest hn
  obtain ⟨count, -, hgoes⟩ := h n rest (follows_mono (Nat.sub_le p 1) hrest) hn
  exact hgoes.reads (Reads.look (loopOver_stops hp hrest count) (.pure _))

theorem LeadsTo.reads (hp : GroupsLeft p) (h : LeadsTo p ts e) : ReadsAs p ts e :=
  LeadsOver.reads hp h

omit [Scalar K] in
/-- The construct behind the first operand of a loop has as much nesting below it. -/
theorem slack_succ (hp : GroupsLeft p) : slack (p + 1) = slack p := by
  rcases hp with hp | rfl
  · simp only [rungs, List.mem_cons, List.not_mem_nil, or_false] at hp
    rcases hp with rfl | rfl | rfl | rfl | rfl | rfl | rfl | rfl | rfl | rfl | rfl
    all_goals rfl
  · rfl

/-- The first operand leads into the loop. -/
theorem ReadsOver.leads (hp : GroupsLeft p) (h : ReadsOver S k (p + 1) ts e) :
    LeadsOver S k p ts e := by
  intro n rest hrest hn
  have hfirst : Reads (parserOver S n (p + 1)) ts rest (some e) :=
    h n rest hrest (by rw [slack_succ hp]; exact hn)
  refine ⟨rest.length, Nat.le_refl _, ?_⟩
  rcases hp with hp | rfl
  · rw [(parserOver_rung hp).2.1] at hfirst
    rw [(parserOver_rung hp).1, (parserOver_rung hp).2.2, (parserOver_rung hp).2.1]
    exact GoesOn.look (Reads.goesOn hfirst) (Reads.goesOn .remaining)
  · have hstep := (Separates.of_follows hrest).step
    exact GoesOn.look (Reads.goesOn hfirst) <|
      GoesOn.look (Reads.goesOn (stepOf_refuses hstep)) (Reads.goesOn .remaining)

theorem ReadsAs.leads (hp : GroupsLeft p) (h : ReadsAs (p + 1) ts e) : LeadsTo p ts e :=
  ReadsOver.leads hp h

omit [Scalar K] in
/-- The token of an operator stands for it. -/
theorem binaryOp?_token (op : BinaryOp) : binaryOp? (op.token : Token K) = some op := by
  cases op <;> rfl

/-- One more operator of a rung, with its right operand. -/
theorem LeadsOver.binary {op : BinaryOp} (hop : op.precedence ∈ rungs) (ht : binaryOp? t = some op)
    (h : LeadsOver S k op.precedence ts a) (hb : ReadsOver S k (op.precedence + 1) us b) :
    LeadsOver S k op.precedence (ts ++ t :: us) (.binary op a b) := by
  intro n rest hrest hn
  have hpulls : follows op.precedence (t :: us ++ rest) = true := by
    simp [follows, strength?_of_binaryOp? ht]
  obtain ⟨count, hcount, hgoes⟩ := h n (t :: us ++ rest) hpulls hn
  rw [List.cons_append, List.length_cons, List.length_append] at hcount
  obtain ⟨count, rfl⟩ : ∃ k, count = k + 1 := ⟨count - 1, by omega⟩
  refine ⟨count, by omega, hgoes.trans (GoesOn.bind ?_)⟩
  rw [(parserOver_rung hop).2.2]
  have htake : binaryOpAt? op.precedence t = some op := by simp [binaryOpAt?, ht]
  have hright : Reads (parserOver S n (op.precedence + 1)) us rest (some b) :=
    hb n rest hrest (by rw [slack_succ (.inl hop)]; exact hn)
  have hoperator : GoesOn (chain op.precedence (parserOver S n (op.precedence + 1)) (count + 1) a)
      [t] (us ++ rest) _ := Reads.goesOn (.take? htake)
  exact hoperator.trans (Reads.goesOn (.require hright))

theorem LeadsTo.binary {op : BinaryOp} (hop : op.precedence ∈ rungs) (ht : binaryOp? t = some op)
    (h : LeadsTo op.precedence ts a) (hb : ReadsAs (op.precedence + 1) us b) :
    LeadsTo op.precedence (ts ++ t :: us) (.binary op a b) := by
  have hlength : (ts ++ t :: us).length = ts.length + (us.length + 1) := by simp
  exact LeadsOver.binary hop ht (LeadsOver.mono (by omega) h) (ReadsOver.mono (by omega) hb)

/-- One more factorial. -/
theorem LeadsOver.factorial (h : LeadsOver S k postfixedPrecedence ts a) :
    LeadsOver S k postfixedPrecedence (ts ++ [Token.symbol .bang]) (.unary .factorial a) := by
  intro n rest hrest hn
  obtain ⟨count, hcount, hgoes⟩ := h n (.symbol .bang :: rest) rfl hn
  obtain ⟨count, rfl⟩ : ∃ k, count = k + 1 := ⟨count - 1, by rw [List.length_cons] at hcount; omega⟩
  refine ⟨count, by rw [List.length_cons] at hcount; omega, hgoes.trans (GoesOn.bind ?_)⟩
  exact Reads.goesOn .symbol

theorem LeadsTo.factorial (h : LeadsTo postfixedPrecedence ts a) :
    LeadsTo postfixedPrecedence (ts ++ [Token.symbol .bang]) (.unary .factorial a) := by
  have hlength : (ts ++ [(.symbol .bang : Token K)]).length = ts.length + 1 := by simp
  exact LeadsOver.factorial (LeadsOver.mono (by omega) h)

/-! ## From a tight construct to looser ones -/

/-- In front of no prefixed operator stands a power. -/
theorem prefixed_reads_power {self : Nest → Parser K (Option (Expr K))} {found : Option (Expr K)}
    (hhead : (ts ++ rest).head?.bind prefixed? = none) (h : Reads (power self) ts rest found) :
    Reads (prefixed self) ts rest found :=
  Reads.inspect (power self) (fun r hr => by simp only [hr, hhead]) h

/-- A prefixed operator with its operand. -/
theorem prefixed_reads_operator {self : Nest → Parser K (Option (Expr K))} {apply : Expr K → Expr K}
    (ht : prefixed? t = some apply) (h : Reads (self .prefixed) ts rest (some e)) :
    Reads (prefixed self) (t :: ts) rest (some (apply e)) := by
  refine Reads.inspect (speculate do
    let _ ← take? prefixed?
    return (← self .prefixed).map apply) (fun r hr => ?_) ?_
  · have hpeek : r.peek?.bind prefixed? = some apply := by rw [hr]; exact ht
    simp only [hpeek]
  · exact Reads.speculate (Reads.step (.take? ht) (Reads.last h (.pure _)))

/-- The nested entry of prefixed operands reads a power. -/
theorem ReadsOver.prefixed (hS : Unrolls S) (hk : 2 ≤ k) (h : ReadsOver S k 14 ts e)
    (hts : Starts 14 ts) (hrest : follows prefixedPrecedence rest = true) (hn : k ≤ n + 1) :
    Reads (S n .prefixed) ts rest (some e) := by
  obtain ⟨n, rfl⟩ : ∃ j, n = j + 1 := ⟨n - 1, by omega⟩
  rw [hS]
  refine Reads.nested (prefixed_reads_power (hts.prefixed?_eq_none (by decide)) ?_)
  exact h n rest hrest hn

/-- What a construct reads, the next looser one reads too. -/
theorem ReadsOver.lower (hS : Unrolls S) (hk : 2 ≤ k) (h : ReadsOver S k (p + 1) ts e)
    (hts : Starts (p + 1) ts) (hp : p < atomPrecedence) : ReadsOver S k p ts e := by
  have hcases : GroupsLeft p ∨ p = 0 ∨ p = 1 ∨ p = 13 ∨ p = 14 := by
    simp only [GroupsLeft, rungs, postfixedPrecedence, List.mem_cons, List.not_mem_nil, or_false]
    have : p < 16 := hp
    omega
  rcases hcases with hp | rfl | rfl | rfl | rfl
  · exact (h.leads hp).reads hp
  · intro n rest hrest hn
    have hn : k ≤ n := hn
    obtain ⟨n, rfl⟩ : ∃ j, n = j + 1 := ⟨n - 1, by omega⟩
    show Reads (S (n + 1) .expression) ts rest (some e)
    rw [hS]
    refine Reads.nested (Reads.firstOf_none ?_ (Reads.firstOf_some ?_))
    · exact compoundAssignment_refuses hts (.of_follows hrest)
    · exact h n rest hrest hn
  · intro n rest hrest hn
    have hquestion := not_isSymbol_of_follows (s := .question) rfl (by decide) hrest
    have hcondition : Reads (condition (S n)) ts rest (some e) :=
      h n rest (follows_mono (by decide) hrest) hn
    refine Reads.last hcondition (Reads.look (.accept_false hquestion) ?_)
    exact .pure _
  · intro n rest hrest hn
    have hrest' := follows_mono (n := prefixedPrecedence) (by decide) hrest
    refine Reads.firstOf_none ?_ (Reads.firstOf_some (h.prefixed hS hk hts hrest' hn))
    exact numberTimes_refuses hts (.of_follows hrest)
  · intro n rest hrest hn
    have hcaret := not_isSymbol_of_follows (s := .caret) (k := 14) rfl (by decide) hrest
    have hbase : Reads (postfixed (S n)) ts rest (some e) :=
      h n rest (follows_mono (by decide) hrest) hn
    refine Reads.last hbase (Reads.look (.accept_false hcaret) ?_)
    exact .pure _

/-- What a construct reads, all looser ones read too. -/
theorem ReadsOver.descend (hS : Unrolls S) (hk : 2 ≤ k) (h : ReadsOver S k q ts e)
    (hts : Starts q ts) (hq : q ≤ atomPrecedence) (hpq : p ≤ q) : ReadsOver S k p ts e := by
  obtain ⟨d, rfl⟩ := Nat.exists_eq_add_of_le hpq
  induction d generalizing p with
  | zero => exact h
  | succ d ih =>
    have hup : p + (d + 1) = p + 1 + d := by omega
    rw [hup] at h hts hq
    have hnext : ReadsOver S k (p + 1) ts e := ih h hts hq (Nat.le_add_right _ _)
    exact hnext.lower hS hk (hts.mono (Nat.le_add_right _ _)) (by omega)

theorem ReadsAs.descend (h : ReadsAs q ts e) (hts : Starts q ts) (hq : q ≤ atomPrecedence)
    (hpq : p ≤ q) : ReadsAs p ts e := by
  have hpos := hts.length_pos
  exact ReadsOver.descend Nest.parserWithin_unrolls (by omega) h hts hq hpq

/-! ## Constructs at their own strength -/

/-- A prefixed operator with a tight operand. -/
theorem ReadsOver.unary (hS : Unrolls S) (hk : 2 ≤ k) {op : UnaryOp} (hop : op.isPostfixed = false)
    (h : ReadsOver S k 14 ts e) (hts : Starts 14 ts) :
    ReadsOver S (k + 1) prefixedPrecedence (op.token :: ts) (.unary op e) := by
  intro n rest hrest hn
  have hstarts : Starts prefixedPrecedence (op.token :: ts) := .prefixed op (Nat.le_refl _) hop hts
  have hn : k + 1 ≤ n + 1 := hn
  have happly : prefixed? (op.token : Token K) = some (.unary op) := by
    cases op <;> first | rfl | cases hop
  obtain ⟨n, rfl⟩ : ∃ j, n = j + 1 := ⟨n - 1, by omega⟩
  have hrest' := follows_mono (n := prefixedPrecedence) (by decide) hrest
  have hoperand : Reads (S n .prefixed) ts rest (some e) := h.prefixed hS hk hts hrest' (by omega)
  refine Reads.firstOf_none (numberTimes_refuses hstarts (.of_follows hrest))
    (Reads.firstOf_some ?_)
  rw [hS]
  exact Reads.nested (prefixed_reads_operator happly hoperand)

theorem ReadsAs.unary {op : UnaryOp} (hop : op.isPostfixed = false) (h : ReadsAs 14 ts e)
    (hts : Starts 14 ts) : ReadsAs prefixedPrecedence (op.token :: ts) (.unary op e) := by
  have hpos := hts.length_pos
  have hlength : (op.token :: ts).length = ts.length + 1 := List.length_cons
  exact ReadsOver.mono (by omega) (ReadsOver.unary Nest.parserWithin_unrolls (by omega) hop h hts)

/-- A power of a postfixed operand. -/
theorem ReadsOver.power (hS : Unrolls S) (hk : 2 ≤ k) (ha : ReadsOver S (k + 1) 15 ts a)
    (hb : ReadsOver S k 14 us b) (hus : Starts 14 us) :
    ReadsOver S (k + 1) 14 (ts ++ .symbol .caret :: us) (.binary .pow a b) := by
  intro n rest hrest hn
  have hn : k + 1 ≤ n + 2 := hn
  have hbase : Reads (postfixed (S n)) ts (.symbol .caret :: us ++ rest) (some a) :=
    ha n _ rfl hn
  have hexponent : Reads (S n .prefixed) us rest (some b) :=
    hb.prefixed hS hk hus hrest (Nat.le_of_succ_le_succ hn)
  refine Reads.bind hbase (Reads.step .symbol (Reads.last (.require hexponent) ?_))
  exact .pure _

theorem ReadsAs.power (ha : ReadsAs 15 ts a) (hb : ReadsAs 14 us b) (hus : Starts 14 us) :
    ReadsAs 14 (ts ++ .symbol .caret :: us) (.binary .pow a b) := by
  have hpos := hus.length_pos
  have hlength : (ts ++ .symbol .caret :: us).length = ts.length + (us.length + 1) := by simp
  have hpower := ReadsOver.power Nest.parserWithin_unrolls
    (show 2 ≤ 2 * ts.length + 2 * us.length by omega) (ReadsOver.mono (by omega) ha)
    (ReadsOver.mono (by omega) hb) hus
  exact ReadsOver.mono (by omega) hpower

/-- A conditional. -/
theorem ReadsAs.ifThenElse (hc : ReadsAs 2 ts c) (ha : ReadsAs 0 us a) (hb : ReadsAs 0 vs b) :
    ReadsAs conditionalPrecedence (ts ++ .symbol .question :: (us ++ .symbol .colon :: vs))
      (.ifThenElse c a b) := by
  intro n rest hrest hn
  have hlength : (ts ++ .symbol .question :: (us ++ .symbol .colon :: vs)).length =
      ts.length + (us.length + (vs.length + 1) + 1) := by simp
  have hn : 2 * (ts ++ .symbol .question :: (us ++ .symbol .colon :: vs)).length ≤ n + 1 := hn
  have hcondition : Reads (condition (Nest.parserWithin n)) ts
      (.symbol .question :: (us ++ .symbol .colon :: vs) ++ rest) (some c) :=
    hc n _ rfl (show 2 * ts.length ≤ n + 1 by omega)
  have hyes : Reads (Nest.expression.parserWithin n) us (.symbol .colon :: vs ++ rest) (some a) :=
    ha n _ rfl (show 2 * us.length ≤ n by omega)
  have hno : Reads (Nest.expression.parserWithin n) vs rest (some b) :=
    hb n _ hrest (show 2 * vs.length ≤ n by omega)
  refine Reads.bind hcondition (Reads.step .symbol (Reads.bind (.require hyes)
    (Reads.step .expect (Reads.last (.require hno) ?_))))
  exact .pure _

/-- A compound assignment. -/
theorem compoundAssignment_reads {op : AssignOp} {name : String} (h : ReadsAs 0 ts e)
    (hrest : follows 0 rest = true) (hn : 2 * ts.length ≤ n) :
    Reads (compoundAssignment (Nest.parserWithin n))
      (.identifier name :: .symbol (.assign op) :: ts) rest (some (.assign op name e)) := by
  have hvalue : Reads (Nest.expression.parserWithin n) ts rest (some e) := h n rest hrest hn
  have hhead : Reads assignmentHead [.identifier name, .symbol (.assign op)] (ts ++ rest)
      (some (op, name)) := by
    refine Reads.speculate (Reads.step (variableName_reads rfl) (Reads.last (.take? rfl) ?_))
    exact .pure _
  refine Reads.bind hhead (Reads.last (.require hvalue) ?_)
  exact .pure _

/-- A compound assignment is an expression. -/
theorem ReadsAs.assign {op : AssignOp} {name : String} (h : ReadsAs 0 ts e) :
    ReadsAs assignmentPrecedence (.identifier name :: .symbol (.assign op) :: ts)
      (.assign op name e) := by
  intro n rest hrest hn
  have hlength : (.identifier name :: .symbol (.assign op) :: ts).length = ts.length + 2 := rfl
  have hn : 2 * (.identifier name :: .symbol (.assign op) :: ts).length ≤ n := hn
  obtain ⟨k, rfl⟩ : ∃ k, n = k + 1 := ⟨n - 1, by omega⟩
  exact Reads.nested (Reads.firstOf_some (compoundAssignment_reads h hrest (by omega)))

/-- In front of no number and of no plus an operand is one of the further kinds. -/
theorem operand_behind_numbers {self : Nest → Parser K (Option (Expr K))}
    {found : Option (Expr K)} (hplus : (ts ++ rest).head?.any (Token.isSymbol .plus) = false)
    (hnumber : (ts ++ rest).head?.bind Token.number? = none)
    (h : Reads (firstOf [functionOrVariable self, truth, Grammar.text, parentheses self,
      matrix self, vector self]) ts rest found) : Reads (operand self) ts rest found :=
  .firstOf_none (complexNumber_refuses hplus hnumber) <| .firstOf_none (number_refuses hnumber) h

/-- A tree in parentheses. -/
theorem ReadsOver.wrapped (h : ReadsOver S k 0 ts e) :
    ReadsOver S (k + 2) atomPrecedence (wrappedTokens true ts) e := by
  intro n rest hrest hn
  have hn : k + 2 ≤ n + 2 := hn
  have hinner : Reads (S n .expression) ts (.symbol .closeParenthesis :: rest) (some e) :=
    h n _ rfl (Nat.le_of_add_le_add_right hn)
  refine operand_behind_numbers rfl rfl <| .firstOf_none (functionOrVariable_refuses rfl) <|
    .firstOf_none (truth_refuses rfl) <| .firstOf_none (text_refuses rfl) <| .firstOf_some ?_
  refine Reads.step .symbol (Reads.bind (.require hinner) (Reads.last .expect ?_))
  exact .pure _

theorem ReadsAs.wrapped (h : ReadsAs 0 ts e) :
    ReadsAs atomPrecedence (wrappedTokens true ts) e := by
  have hlength : (wrappedTokens true ts).length = ts.length + 2 := by simp [wrappedTokens]
  exact ReadsOver.mono (by omega) (ReadsOver.wrapped h)

/-! ## Literals and names -/

/-- A number. -/
theorem ReadsOver.number (x : K) : ReadsOver S k atomPrecedence [.number x] (.number x) := by
  intro n rest hrest _
  have hrest := Separates.of_follows hrest
  exact .firstOf_none (complexNumber_refuses_number hrest.angle) <|
    .firstOf_some (number_reads hrest.unit)

theorem ReadsAs.number (x : K) : ReadsAs atomPrecedence [.number x] (.number x) :=
  ReadsOver.number x

/-- An angle. -/
theorem ReadsAs.angle (x : Angle K) :
    ReadsAs atomPrecedence [.number x.value, x.unit.token] (.angle x) := by
  intro n rest hrest _
  have hangle : Token.isSymbol .angle (x.unit.token : Token K) = false := by
    cases x.unit <;> rfl
  exact .firstOf_none (complexNumber_refuses_number hangle) <|
    .firstOf_some (number_reads_unit x.unit)

/-- A complex number. -/
theorem ReadsAs.polar [Scalar.LawfulText K] (magnitude phase : K) :
    ReadsAs atomPrecedence (.number magnitude :: .symbol .angle :: (signedTokens phase ++
      [Token.symbol .degree])) (.polar magnitude phase) := by
  intro n rest _ _
  have hmagnitude {us : List (Token K)} :
      Reads polarMagnitude [.number magnitude, .symbol .angle] us (some magnitude) := by
    refine Reads.speculate (Reads.look (.accept_false rfl) (Reads.step (.take? rfl) ?_))
    exact Reads.last .symbol (.pure _)
  refine Reads.firstOf_some (Reads.bind hmagnitude ?_)
  cases hsign : Scalar.isNegative phase with
  | true =>
    rw [signedTokens, hsign, Scalar.unsigned, hsign]
    refine Reads.step (.take? rfl) (Reads.step (.require (.take? rfl)) (Reads.last .expect ?_))
    show Reads (pure (some (Expr.polar magnitude (-Scalar.abs phase)))) [] rest _
    rw [Scalar.LawfulText.neg_abs hsign]
    exact .pure _
  | false =>
    rw [signedTokens, hsign, Scalar.unsigned, hsign]
    refine Reads.look (.take?_none rfl) (Reads.step (.require (.take? rfl)) (Reads.last .expect ?_))
    exact .pure _

/-- A truth value. -/
theorem ReadsAs.bool (value : Bool) :
    ReadsAs atomPrecedence [(.keyword (.bool value) : Token K)] (.bool value) := by
  intro n rest _ _
  refine operand_behind_numbers rfl rfl <| .firstOf_none (functionOrVariable_refuses rfl) <|
    .firstOf_some ?_
  exact Reads.last (.take? rfl) (.pure _)

/-- A string. -/
theorem ReadsAs.string (value : String) :
    ReadsAs atomPrecedence [(.string value : Token K)] (.string value) := by
  intro n rest _ _
  refine operand_behind_numbers rfl rfl <| .firstOf_none (functionOrVariable_refuses rfl) <|
    .firstOf_none (truth_refuses rfl) <| .firstOf_some ?_
  exact Reads.last (.take? rfl) (.pure _)

/-- A variable. -/
theorem ReadsOver.var (name : String) :
    ReadsOver S k atomPrecedence [(.identifier name : Token K)] (.var name) := by
  intro n rest hrest _
  have hrest := Separates.of_follows hrest
  refine operand_behind_numbers rfl rfl <| .firstOf_some ?_
  have hnone : Reads (arguments (S n)) [] rest none :=
    Reads.look (.accept_false hrest.openParenthesis) (.pure none)
  exact Reads.last (.take? rfl) (Reads.look hnone (.pure _))

theorem ReadsAs.var (name : String) :
    ReadsAs atomPrecedence [(.identifier name : Token K)] (.var name) := ReadsOver.var name

/-- A step of a variable, behind which the construct of factorials does not look for one. -/
theorem ReadsAs.step (op : StepOp) (name : String) :
    ReadsAs postfixedPrecedence [(.identifier name : Token K), .symbol (.step op)]
      (.step op name) := by
  intro n rest _ _
  have hnone : Reads (arguments (Nest.parserWithin n)) [] (.symbol (.step op) :: rest)
      (none : Option (List (Expr K))) := Reads.look (.accept_false rfl) (.pure none)
  have hname : Reads (operand (Nest.parserWithin n)) [(.identifier name : Token K)]
      (.symbol (.step op) :: rest) (some (.var name)) := by
    refine operand_behind_numbers rfl rfl <| .firstOf_some ?_
    exact Reads.last (.take? rfl) (Reads.look hnone (.pure _))
  have hstep : Reads (stepOf (.var name : Expr K)) [.symbol (.step op)] rest
      (some (.step op name)) := Reads.last (.take? rfl) (.pure _)
  exact Reads.step hname (Reads.last hstep (.pure _))

end Levels

end Formula

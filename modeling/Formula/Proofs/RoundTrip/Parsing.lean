import Formula.Proofs.Parse.Grammatical
import Formula.Proofs.RoundTrip.Statements

/-!
# The tokens of a tree are read as the tree

`Expr.tokensAt` gives the tokens of a tree where a binding strength is asked for, with parentheses
around a tree that binds less. The formatter decides on parentheses operator by operator; the lemmas
on `Expr.tokens` show that it asks for the strength of the construct that reads the operand.

`Expr.Readable` says that an expression is read at every binding strength. One lemma per construct
makes it of its parts, and `Grammatical.readsIn` is the induction over all trees that the grammar
can build: each is read back from its tokens, unless one of its nodes is misread
(`Expr.isMisread`) or is a number with a minus sign.
-/

namespace Formula

open Formula.Grammar Formula.Parser

variable {K : Type} [Scalar K]

/-- The name of a built-in function stands for it. -/
theorem ofName?_name (f : Builtin) : Builtin.ofName? f.name = some f := by
  have h : ∀ f ∈ Builtin.all, Builtin.ofName? f.name = some f := by decide
  exact h f f.mem_all

/-! ## Operators -/

/-- The factorial is the only operator behind its operand. -/
theorem UnaryOp.eq_factorial {op : UnaryOp} (h : op.isPostfixed = true) : op = .factorial := by
  cases op <;> first | rfl | cases h

/-- The power is the only binary operator outside the ladder. -/
theorem BinaryOp.eq_pow {op : BinaryOp} (h : op.precedence ∉ rungs) : op = .pow := by
  cases op <;> first | rfl | exact absurd (by decide) h

/-- Operators bind more than an assignment. -/
theorem UnaryOp.precedence_pos (op : UnaryOp) : 1 ≤ op.precedence := by
  cases op <;> decide

theorem BinaryOp.precedence_pos (op : BinaryOp) : 1 ≤ op.precedence := by
  cases op <;> decide

namespace Expr

variable {a b c e : Expr K} {as : List (Expr K)} {p q : Nat}

/-! ## Tokens by binding strength -/

/-- The tokens of a tree where a binding strength is asked for. -/
def tokensAt (p : Nat) (e : Expr K) : List (Token K) := wrappedTokens (e.precedence < p) e.tokens

/-- A tree that binds strongly enough is not wrapped. -/
theorem tokensAt_of_le (h : p ≤ e.precedence) : e.tokensAt p = e.tokens := by
  rw [tokensAt, decide_eq_false (Nat.not_lt_of_le h)]
  rfl

/-- A tree that binds too little is wrapped. -/
theorem tokensAt_of_lt (h : e.precedence < p) : e.tokensAt p = wrappedTokens true e.tokens := by
  rw [tokensAt, decide_eq_true h]

/-- A prefixed operator takes no second one. -/
theorem tokens_prefixed {op : UnaryOp} (hop : op.isPostfixed = false) :
    (unary op a).tokens = op.token :: a.tokensAt 14 := by
  have hwrap : wrapsOperand op a = decide (a.precedence < 14) := by
    rw [wrapsOperand, hop]
    exact decide_eq_decide.2 Nat.lt_succ_iff.symm
  rw [tokens, hop, hwrap]
  rfl

theorem tokens_factorial :
    (unary .factorial a).tokens = a.tokensAt postfixedPrecedence ++ [Token.symbol .bang] := by
  rw [tokens]
  rfl

/-- On a rung of the ladder the left operand may be of the same rung. -/
theorem tokens_rung {op : BinaryOp} (hop : op.precedence ∈ rungs) : (binary op a b).tokens =
    a.tokensAt op.precedence ++ op.token :: b.tokensAt (op.precedence + 1) := by
  have hassoc : op.isRightAssociative = false := by
    cases op <;> first | rfl | exact absurd hop (by decide)
  have hleft : wrapsLeft op a = decide (a.precedence < op.precedence) := by
    rw [wrapsLeft, hassoc, Bool.and_false, Bool.or_false]
  have hright : wrapsRight op b = decide (b.precedence < op.precedence + 1) := by
    rw [wrapsRight, hassoc, Bool.eq_iff_iff]
    simp only [Bool.not_false, Bool.and_true, Bool.or_eq_true, decide_eq_true_eq, beq_iff_eq]
    omega
  rw [tokens, hleft, hright]
  rfl

/-- The right operand of a power may be a power. -/
theorem tokens_pow :
    (binary .pow a b).tokens = a.tokensAt 15 ++ .symbol .caret :: b.tokensAt 14 := by
  have hleft : wrapsLeft .pow a = decide (a.precedence < 15) := by
    show (decide (a.precedence < 14) || (a.precedence == 14 && true)) = decide (a.precedence < 15)
    rw [Bool.eq_iff_iff]
    simp only [Bool.and_true, Bool.or_eq_true, decide_eq_true_eq, beq_iff_eq]
    omega
  have hright : wrapsRight .pow b = decide (b.precedence < 14) := by
    show (decide (b.precedence < 14) || (b.precedence == 14 && false)) = decide (b.precedence < 14)
    rw [Bool.and_false, Bool.or_false]
  rw [tokens, hleft, hright]
  rfl

theorem tokens_ifThenElse : (ifThenElse c a b).tokens =
    c.tokensAt 2 ++ .symbol .question :: (a.tokens ++ .symbol .colon :: b.tokens) := by
  have hwrap : decide (c.precedence ≤ conditionalPrecedence) = decide (c.precedence < 2) :=
    decide_eq_decide.2 Nat.lt_succ_iff.symm
  rw [tokens, hwrap]
  rfl

/-- The tokens of a tree begin with an opening brace where its formula does. -/
theorem tokens_openBrace (e : Expr K) (rest : List (Token K)) :
    (e.tokens ++ rest).head?.any (Token.isSymbol .openBrace) = e.opensBrace := by
  have hwrapped (wrap : Bool) {a : Expr K} (us : List (Token K)) (ha : ∀ rest,
      (a.tokens ++ rest).head?.any (Token.isSymbol .openBrace) = a.opensBrace) :
      (wrappedTokens wrap a.tokens ++ us).head?.any (Token.isSymbol .openBrace) =
        (!wrap && a.opensBrace) := by
    cases wrap with
    | true => rfl
    | false => exact ha us
  induction e using Expr.induction generalizing rest with
  | number value =>
    rw [tokens, signedTokens]
    cases Scalar.isNegative value <;> rfl
  | unary op a ha =>
    cases hop : op.isPostfixed with
    | true =>
      simp only [tokens, opensBrace, hop, if_true, List.append_assoc, hwrapped _ _ ha,
        Bool.true_and]
    | false =>
      simp only [tokens, opensBrace, hop]
      cases op <;> rfl
  | binary op a b ha =>
    rw [tokens, opensBrace, List.append_assoc, hwrapped _ _ ha]
  | ifThenElse c a b hc =>
    rw [tokens, opensBrace, List.append_assoc, hwrapped _ _ hc]
  | define key value hkey =>
    rw [tokens, opensBrace, List.append_assoc, hkey]
  | _ => rfl

/-! ## Readable expressions -/

omit [Scalar K] in
/-- Binary operators pull. -/
theorem operates_of_binaryOp? {t : Token K} {op : BinaryOp} (ht : binaryOp? t = some op)
    (ts : List (Token K)) : operates (t :: ts) = true := by
  simp [operates, strength?_of_binaryOp? ht, op.precedence_pos]

/-- Where a binding strength is asked for, a tree begins as one of this strength. -/
theorem starts_tokensAt (h : Starts e.precedence e.tokens) : Starts p (e.tokensAt p) := by
  rcases Nat.lt_or_ge e.precedence p with hlt | hle
  · rw [tokensAt_of_lt hlt]
    exact .parenthesis _ _
  · rw [tokensAt_of_le hle]
    exact h.mono hle

/-- The levels of nesting where a binding strength is asked for, if parentheses cost so many. -/
def levelsFor (cost levels p : Nat) (e : Expr K) : Nat :=
  if e.precedence < p then levels + cost else levels

theorem levelsFor_of_le {cost k : Nat} (h : p ≤ e.precedence) : e.levelsFor cost k p = k :=
  if_neg (Nat.not_lt_of_le h)

theorem levelsFor_of_lt {cost k : Nat} (h : e.precedence < p) : e.levelsFor cost k p = k + cost :=
  if_pos h

theorem le_levelsFor (cost k p : Nat) (e : Expr K) : k ≤ e.levelsFor cost k p := by
  rw [levelsFor]
  split <;> omega

/-- The expression is read at every binding strength up to that of postfixed operators with so many
levels of nesting, and leads into every loop, but a step not into that of the factorials. -/
structure ReadableOver (S : Nat → Nest → Parser K (Option (Expr K))) (cost k : Nat) (e : Expr K) :
    Prop where
  starts : Starts e.precedence e.tokens
  readsOver : ∀ p ≤ postfixedPrecedence, ReadsOver S (e.levelsFor cost k p) p (e.tokensAt p) e
  leadsOver : ∀ p, GroupsLeft p → (p = postfixedPrecedence → e.isStep = false) →
    LeadsOver S (e.levelsFor cost k p) p (e.tokensAt p) e

namespace ReadableOver

variable {S : Nat → Nest → Parser K (Option (Expr K))} {cost i j k : Nat}

/-- What is enough for a binding strength is more than one level. -/
theorem two_le_levelsFor (hj : 2 ≤ j) (cost p : Nat) (e : Expr K) : 2 ≤ e.levelsFor cost j p :=
  Nat.le_trans hj (e.le_levelsFor cost j p)

/-- A tree that is read at its own strength is read at every one: looser constructs go on to its
own, and tighter ones ask for parentheses. -/
theorem of_own (hS : Unrolls S) (hcost : 2 ≤ cost) (hk : 2 ≤ k)
    (hle : e.precedence ≤ atomPrecedence) (hts : Starts e.precedence e.tokens)
    (hread : ReadsOver S k e.precedence e.tokens e)
    (hlead : GroupsLeft e.precedence → LeadsOver S k e.precedence e.tokens e) :
    ReadableOver S cost k e := by
  have hplain {p : Nat} (hp : p ≤ e.precedence) : ReadsOver S k p e.tokens e :=
    hread.descend hS hk hts hle hp
  have hwrapped {p : Nat} (hp : p ≤ atomPrecedence) :
      ReadsOver S (k + cost) p (wrappedTokens true e.tokens) e := by
    have hwrapped := (hplain (Nat.zero_le _)).wrapped.mono (Nat.add_le_add_left hcost k)
    exact hwrapped.descend hS (by omega) (.parenthesis _ _) (Nat.le_refl _) hp
  refine ⟨hts, fun p hp => ?_, fun p hp _ => ?_⟩
  · rcases Nat.lt_or_ge e.precedence p with hlt | hge
    · rw [tokensAt_of_lt hlt, levelsFor_of_lt hlt]
      exact hwrapped (Nat.le_succ_of_le hp)
    · rw [tokensAt_of_le hge, levelsFor_of_le hge]
      exact hplain hge
  · rcases Nat.lt_trichotomy e.precedence p with hlt | rfl | hgt
    · rw [tokensAt_of_lt hlt, levelsFor_of_lt hlt]
      exact (hwrapped hp.lt_atom).leads hp
    · rw [tokensAt_of_le (Nat.le_refl _), levelsFor_of_le (Nat.le_refl _)]
      exact hlead hp
    · rw [tokensAt_of_le (Nat.le_of_lt hgt), levelsFor_of_le (Nat.le_of_lt hgt)]
      exact (hplain hgt).leads hp

/-- A tree of a construct without a loop. -/
theorem of_reads (hS : Unrolls S) (hcost : 2 ≤ cost) (hk : 2 ≤ k) (p : Nat) (hp : e.precedence = p)
    (hle : p ≤ atomPrecedence) (hnot : ¬GroupsLeft p) (hts : Starts e.precedence e.tokens)
    (hread : ReadsOver S k p e.tokens e) : ReadableOver S cost k e := by
  subst hp
  exact of_own hS hcost hk hle hts hread fun hp => absurd hp hnot

/-- A tree of a construct with a loop. -/
theorem of_leads (hS : Unrolls S) (hcost : 2 ≤ cost) (hk : 2 ≤ k) (p : Nat) (hp : e.precedence = p)
    (hle : p ≤ atomPrecedence) (hgroups : GroupsLeft p) (hts : Starts e.precedence e.tokens)
    (hlead : LeadsOver S k p e.tokens e) : ReadableOver S cost k e := by
  subst hp
  exact of_own hS hcost hk hle hts (hlead.reads hgroups) fun _ => hlead

/-- A tree that always stands for itself. -/
theorem of_atom (hS : Unrolls S) (hcost : 2 ≤ cost) (hk : 2 ≤ k) (hp : e.precedence = atomPrecedence)
    (hts : Starts e.precedence e.tokens) (hread : ReadsOver S k atomPrecedence e.tokens e) :
    ReadableOver S cost k e :=
  of_reads hS hcost hk atomPrecedence hp (Nat.le_refl _) (by decide) hts hread

/-! ### Operators and calls -/

/-- A number without a minus sign. -/
theorem number (hS : Unrolls S) (hcost : 2 ≤ cost) (hk : 2 ≤ k) {x : K}
    (hsign : Scalar.isNegative x = false) : ReadableOver S cost k (number x) := by
  have htokens : (Expr.number x).tokens = [.number x] := by
    rw [tokens, signedTokens, Scalar.unsigned, hsign]
    rfl
  refine of_atom hS hcost hk (by rw [precedence, hsign]; rfl) ?_ ?_
  · rw [htokens]
    exact .number _ _ rfl
  · rw [htokens]
    exact .number x

theorem var (hS : Unrolls S) (hcost : 2 ≤ cost) (hk : 2 ≤ k) (name : String) :
    ReadableOver S cost k (var name) :=
  of_atom hS hcost hk rfl (.name _ _ rfl) (.var name)

theorem factorial (hS : Unrolls S) (hcost : 2 ≤ cost) (hj : 2 ≤ j) (ha : ReadableOver S cost j a)
    (hstep : a.isStep = false) (hk : a.levelsFor cost j postfixedPrecedence ≤ k) :
    ReadableOver S cost k (unary .factorial a) := by
  have hk' : 2 ≤ k := Nat.le_trans (two_le_levelsFor hj _ _ _) hk
  refine of_leads hS hcost hk' postfixedPrecedence rfl (by decide) (by decide) ?_ ?_
  · rw [tokens_factorial]
    exact (starts_tokensAt ha.starts).append rfl
  · rw [tokens_factorial]
    have hlead := ha.leadsOver postfixedPrecedence (by decide) fun _ => hstep
    exact (hlead.mono hk).factorial

theorem prefixed (hS : Unrolls S) (hcost : 2 ≤ cost) (hj : 2 ≤ j) {op : UnaryOp}
    (hop : op.isPostfixed = false) (ha : ReadableOver S cost j a)
    (hk : a.levelsFor cost j 14 + 1 ≤ k) : ReadableOver S cost k (unary op a) := by
  have hprecedence : (unary op a).precedence = prefixedPrecedence := by
    rw [precedence, UnaryOp.precedence, hop]
    rfl
  have hstarts : Starts 14 (a.tokensAt 14) := starts_tokensAt ha.starts
  have htwo : 2 ≤ a.levelsFor cost j 14 := two_le_levelsFor hj _ _ _
  refine of_reads hS hcost (by omega) prefixedPrecedence hprecedence (by decide) (by decide) ?_ ?_
  · rw [tokens_prefixed hop, hprecedence]
    exact .prefixed op (Nat.le_refl _) hop hstarts
  · rw [tokens_prefixed hop]
    exact ((ha.readsOver 14 (by decide)).unary hS htwo hop hstarts).mono hk

/-- An operator of the ladder. -/
theorem rung (hS : Unrolls S) (hcost : 2 ≤ cost) {op : BinaryOp} (hop : op.precedence ∈ rungs)
    (hi : 2 ≤ i) (ha : ReadableOver S cost i a) (hb : ReadableOver S cost j b)
    (hk : a.levelsFor cost i op.precedence ≤ k)
    (hk' : b.levelsFor cost j (op.precedence + 1) ≤ k) :
    ReadableOver S cost k (binary op a b) := by
  have hlow : op.precedence + 1 ≤ postfixedPrecedence :=
    Nat.le_trans (lt_prefixed_of_mem_rungs hop) (by decide)
  have hnot : op.precedence ≠ postfixedPrecedence := Nat.ne_of_lt hlow
  refine of_leads hS hcost (Nat.le_trans (two_le_levelsFor hi _ _ _) hk) op.precedence rfl
    (Nat.le_succ_of_le (Nat.le_of_succ_le hlow)) (.inl hop) ?_ ?_
  · rw [tokens_rung hop]
    exact (starts_tokensAt ha.starts).append (operates_of_binaryOp? (binaryOp?_token op) _)
  · rw [tokens_rung hop]
    have hleft := ha.leadsOver op.precedence (.inl hop) fun h => absurd h hnot
    have hright := hb.readsOver (op.precedence + 1) hlow
    exact (hleft.mono hk).binary hop (binaryOp?_token op) (hright.mono hk')

theorem power (hS : Unrolls S) (hcost : 2 ≤ cost) (hj : 2 ≤ j) (ha : ReadableOver S cost i a)
    (hb : ReadableOver S cost j b) (hk : a.levelsFor cost i 15 ≤ k)
    (hk' : b.levelsFor cost j 14 + 1 ≤ k) : ReadableOver S cost k (binary .pow a b) := by
  have hleft : Starts 15 (a.tokensAt 15) := starts_tokensAt ha.starts
  have htwo : 2 ≤ b.levelsFor cost j 14 := two_le_levelsFor hj _ _ _
  obtain ⟨l, rfl⟩ : ∃ l, k = l + 1 := ⟨k - 1, by omega⟩
  have hl : b.levelsFor cost j 14 ≤ l := Nat.le_of_succ_le_succ hk'
  refine of_reads hS hcost (by omega) 14 rfl (by decide) (by decide) ?_ ?_
  · rw [tokens_pow]
    exact (hleft.append rfl).mono (show 14 ≤ 15 by decide)
  · rw [tokens_pow]
    exact ((ha.readsOver 15 (by decide)).mono hk).power hS (Nat.le_trans htwo hl)
      ((hb.readsOver 14 (by decide)).mono hl) (starts_tokensAt hb.starts)

/-- A readable tree is an expression. -/
theorem expression (h : ReadableOver S cost k e) : ReadsOver S k 0 e.tokens e := by
  have hread := h.readsOver 0 (Nat.zero_le _)
  rwa [tokensAt_of_le (Nat.zero_le _), levelsFor_of_le (Nat.zero_le _)] at hread

/-- A call. -/
theorem call (hS : Unrolls S) (hcost : 2 ≤ cost) (hk : 2 ≤ k) {name : String}
    (hp : e.precedence = atomPrecedence)
    (htokens : e.tokens = .identifier name :: wrappedTokens true (listedTokens (tokenLists as)))
    (harity : ∀ f, Builtin.ofName? name = some f → f.arity.accepts as.length = true)
    (hcall : ∀ rest, Reads (makeCall name as) [] rest e)
    (hstarts : ∀ a ∈ as, Starts a.precedence a.tokens)
    (has : List.Forall₂ (ReadsOver S k 0) (tokenLists as) as) : ReadableOver S cost (k + 2) e := by
  refine of_atom hS hcost (Nat.le_add_right_of_le hk) hp ?_ ?_
  · have hitems : ∀ item ∈ tokenLists as, Starts 0 item := by
      rw [tokenLists_eq_map]
      intro item hitem
      obtain ⟨a, ha, rfl⟩ := List.mem_map.1 hitem
      exact (hstarts a ha).mono (Nat.zero_le _)
    rw [htokens, ← List.append_nil (wrappedTokens _ _)]
    refine .call _ _ hitems (fun f hf => ?_) rfl
    rw [tokenLists_eq_map, List.length_map]
    exact harity f hf
  · rw [htokens]
    exact .call hS hk has hcall

theorem builtin (hS : Unrolls S) (hcost : 2 ≤ cost) (hk : 2 ≤ k) {f : Builtin}
    (harity : f.arity.accepts as.length = true) (hstarts : ∀ a ∈ as, Starts a.precedence a.tokens)
    (has : List.Forall₂ (ReadsOver S k 0) (tokenLists as) as) :
    ReadableOver S cost (k + 2) (builtin f as) := by
  refine .call hS hcost hk rfl (by rw [tokens]) (fun g hg => ?_) (fun rest => ?_) hstarts has
  · rw [ofName?_name, Option.some.injEq] at hg
    rw [← hg]
    exact harity
  · have hbuilt : mkBuiltin f as = .ok (.builtin f as) := if_pos harity
    rw [makeCall, ofName?_name]
    show Reads (build (mkBuiltin f as)) [] rest _
    rw [hbuilt]
    exact .pure _

theorem userCall (hS : Unrolls S) (hcost : 2 ≤ cost) (hk : 2 ≤ k) {name : String}
    (hfree : Builtin.ofName? name = none) (hstarts : ∀ a ∈ as, Starts a.precedence a.tokens)
    (has : List.Forall₂ (ReadsOver S k 0) (tokenLists as) as) :
    ReadableOver S cost (k + 2) (Expr.call name as) := by
  refine .call hS hcost hk rfl (by rw [tokens]) (fun f hf => ?_) (fun rest => ?_) hstarts has
  · rw [hfree] at hf
    cases hf
  · rw [makeCall, hfree]
    exact .pure _

end ReadableOver

/-! ### Two levels for each token -/

/-- The expression is read with two levels of nesting for each token. -/
def Readable (e : Expr K) : Prop := ReadableOver Nest.parserWithin 4 (2 * e.tokens.length) e

/-- Parentheses are two tokens more. -/
theorem two_mul_length_tokensAt (p : Nat) (e : Expr K) :
    e.levelsFor 4 (2 * e.tokens.length) p = 2 * (e.tokensAt p).length := by
  rcases Nat.lt_or_ge e.precedence p with hlt | hle
  · rw [levelsFor_of_lt hlt, tokensAt_of_lt hlt]
    simp [wrappedTokens]
    omega
  · rw [levelsFor_of_le hle, tokensAt_of_le hle]

namespace Readable

theorem starts (h : Readable e) : Starts e.precedence e.tokens := ReadableOver.starts h

theorem two_le (hts : Starts e.precedence e.tokens) : 2 ≤ 2 * e.tokens.length := by
  have hpos := hts.length_pos
  omega

theorem reads (h : Readable e) (p : Nat) (hp : p ≤ postfixedPrecedence) :
    ReadsAs p (e.tokensAt p) e := by
  have hread := ReadableOver.readsOver h p hp
  rwa [two_mul_length_tokensAt] at hread

/-- The trees that are read so. -/
theorem of_tokens (hts : Starts e.precedence e.tokens)
    (hreads : ∀ p ≤ postfixedPrecedence, ReadsAs p (e.tokensAt p) e)
    (hleads : ∀ p, GroupsLeft p → (p = postfixedPrecedence → e.isStep = false) →
      LeadsTo p (e.tokensAt p) e) : Readable e := by
  refine ⟨hts, fun p hp => ?_, fun p hp hstep => ?_⟩
  · rw [two_mul_length_tokensAt]
    exact hreads p hp
  · rw [two_mul_length_tokensAt]
    exact hleads p hp hstep

/-- A readable tree is an expression. -/
theorem expression (h : Readable e) : ReadsAs 0 e.tokens e := ReadableOver.expression h

/-- A readable tree that binds more than an assignment is a condition. -/
theorem condition (h : Readable e) (he : conditionalPrecedence < e.precedence) :
    ReadsAs 2 e.tokens e := by
  have hread := h.reads 2 (by decide)
  rwa [tokensAt_of_le (show 2 ≤ e.precedence from he)] at hread

/-- A tree of a construct without a loop. -/
theorem of_reads (p : Nat) (hp : e.precedence = p) (hle : p ≤ atomPrecedence)
    (hnot : ¬GroupsLeft p) (hts : Starts e.precedence e.tokens)
    (hread : ReadsAs p e.tokens e) : Readable e :=
  ReadableOver.of_reads Nest.parserWithin_unrolls (by decide) (two_le hts) p hp hle hnot hts hread

/-- A tree that always stands for itself. -/
theorem of_atom (hp : e.precedence = atomPrecedence) (hts : Starts e.precedence e.tokens)
    (hread : ReadsAs atomPrecedence e.tokens e) : Readable e :=
  .of_reads atomPrecedence hp (Nat.le_refl _) (by decide) hts hread

/-! ### One construct at a time -/

/-- A number without a minus sign. -/
theorem number {x : K} (hsign : Scalar.isNegative x = false) : Readable (number x) := by
  have hlength : (Expr.number x).tokens.length = 1 := by
    rw [tokens, signedTokens, Scalar.unsigned, hsign]
    rfl
  exact ReadableOver.number Nest.parserWithin_unrolls (by decide) (by omega) hsign

theorem bool (value : Bool) : Readable (bool value : Expr K) :=
  .of_atom rfl (.bool _ _ _) (.bool value)

theorem string (value : String) : Readable (string value : Expr K) :=
  .of_atom rfl (.string _ _ _) (.string value)

theorem var (name : String) : Readable (var name : Expr K) :=
  ReadableOver.var Nest.parserWithin_unrolls (by decide) (Nat.le_refl 2) name

theorem angle (x : Angle K) : Readable (angle x) := .of_atom rfl (.angle _ _ _ rfl) (.angle x)

theorem polar [Scalar.LawfulText K] (magnitude phase : K) : Readable (polar magnitude phase) :=
  .of_atom rfl (.polar _ _ _) (.polar magnitude phase)

theorem factorial (ha : Readable a) (hstep : a.isStep = false) :
    Readable (unary .factorial a) := by
  refine ReadableOver.factorial Nest.parserWithin_unrolls (by decide) (two_le ha.starts) ha hstep ?_
  rw [two_mul_length_tokensAt, tokens_factorial, List.length_append]
  omega

theorem prefixed {op : UnaryOp} (hop : op.isPostfixed = false) (ha : Readable a) :
    Readable (unary op a) := by
  refine ReadableOver.prefixed Nest.parserWithin_unrolls (by decide) (two_le ha.starts) hop ha ?_
  rw [two_mul_length_tokensAt, tokens_prefixed hop, List.length_cons]
  omega

theorem binary {op : BinaryOp} (ha : Readable a) (hb : Readable b) : Readable (binary op a b) := by
  by_cases hop : op.precedence ∈ rungs
  · refine ReadableOver.rung Nest.parserWithin_unrolls (by decide) hop (two_le ha.starts) ha hb ?_ ?_
    all_goals
      rw [two_mul_length_tokensAt, tokens_rung hop, List.length_append, List.length_cons]
      omega
  · obtain rfl := BinaryOp.eq_pow hop
    refine ReadableOver.power Nest.parserWithin_unrolls (by decide) (two_le hb.starts) ha hb ?_ ?_
    all_goals
      rw [two_mul_length_tokensAt, tokens_pow, List.length_append, List.length_cons]
      omega

theorem ifThenElse (hc : Readable c) (ha : Readable a) (hb : Readable b) :
    Readable (ifThenElse c a b) := by
  have hstarts : Starts 2 (c.tokensAt 2) := starts_tokensAt hc.starts
  refine .of_reads conditionalPrecedence rfl (by decide) (by decide) ?_ ?_
  · rw [tokens_ifThenElse]
    exact (hstarts.append rfl).mono (show conditionalPrecedence ≤ 2 by decide)
  · rw [tokens_ifThenElse]
    exact (hc.reads 2 (by decide)).ifThenElse ha.expression hb.expression

theorem assign {op : AssignOp} {name : String} (ha : Readable a) : Readable (assign op name a) :=
  .of_reads assignmentPrecedence rfl (by decide) (by decide) (.assign _ _ _) ha.expression.assign

/-- A step stands for itself, but not in front of a factorial. -/
theorem step {op : StepOp} {name : String} : Readable (step op name : Expr K) := by
  have hstarts (p : Nat) : Starts p (Expr.step op name : Expr K).tokens := .step _ _ op rfl
  have hread {p : Nat} (hp : p ≤ postfixedPrecedence) :
      ReadsAs p (Expr.step op name : Expr K).tokens (.step op name) :=
    (ReadsAs.step op name).descend (hstarts _) (by decide) hp
  have htokens {p : Nat} (hp : p ≤ postfixedPrecedence) :
      (Expr.step op name : Expr K).tokensAt p = (Expr.step op name : Expr K).tokens :=
    tokensAt_of_le (Nat.le_succ_of_le hp)
  refine .of_tokens (hstarts _) (fun p hp => ?_) fun p hp hstep => ?_
  · rw [htokens hp]
    exact hread hp
  · have hlow : p + 1 ≤ postfixedPrecedence := by
      rcases hp with hp | rfl
      · exact Nat.le_trans (lt_prefixed_of_mem_rungs hp) (by decide)
      · cases hstep rfl
    rw [htokens (Nat.le_of_succ_le hlow)]
    exact (hread hlow).leads hp

/-! ### Lists -/

/-- Trees of a list are read one by one. -/
theorem list (h : ∀ a ∈ as, Readable a) : List.Forall₂ (ReadsAs 0) (tokenLists as) as := by
  rw [tokenLists_eq_map, List.forall₂_map_left_iff, List.forall₂_same]
  exact fun a ha => (h a ha).expression

/-- With levels for the whole list there are enough for each of its trees. -/
theorem arguments (h : ∀ a ∈ as, Readable a) :
    List.Forall₂ (ReadsOver Nest.parserWithin (2 * (listedTokens (tokenLists as)).length + 4) 0)
      (tokenLists as) as := by
  rw [tokenLists_eq_map, List.forall₂_map_left_iff, List.forall₂_same]
  intro a ha
  have hlength := length_le_listed (List.mem_map_of_mem (f := tokens) ha)
  exact ReadsOver.mono (by omega) (h a ha).expression

theorem builtin {f : Builtin} (harity : f.arity.accepts as.length = true)
    (has : ∀ a ∈ as, Readable a) : Readable (builtin f as) := by
  have hlength : 2 * (Expr.builtin f as).tokens.length =
      2 * (listedTokens (tokenLists as)).length + 4 + 2 := by
    simp [tokens, wrappedTokens]
    omega
  rw [Readable, hlength]
  exact .builtin Nest.parserWithin_unrolls (by decide) (Nat.le_add_left_of_le (by decide)) harity
    (fun a ha => (has a ha).starts) (arguments has)

theorem call {name : String} (hfree : Builtin.ofName? name = none)
    (has : ∀ a ∈ as, Readable a) : Readable (call name as) := by
  have hlength : 2 * (Expr.call name as).tokens.length =
      2 * (listedTokens (tokenLists as)).length + 4 + 2 := by
    simp [tokens, wrappedTokens]
    omega
  rw [Readable, hlength]
  exact .userCall Nest.parserWithin_unrolls (by decide) (Nat.le_add_left_of_le (by decide)) hfree
    (fun a ha => (has a ha).starts) (arguments has)

/-- A vector whose first element begins with no brace. -/
theorem vector (h : ∀ b ∈ a :: as, Readable b) (hbrace : a.opensBrace = false) :
    Readable (vector (a :: as)) := by
  refine .of_atom rfl (.brace _ _) ?_
  rw [tokens]
  refine .vector (list h) (List.cons_ne_nil _ _) fun us => ?_
  rw [tokenLists, listedTokens, List.append_assoc, tokens_openBrace, hbrace]

omit [Scalar K] in
/-- No row of a matrix is empty. -/
theorem not_empty_of_mkMatrix {rows : List (List (Expr K))}
    (h : mkMatrix rows = .ok (.matrix rows)) : ∀ row ∈ rows, row ≠ [] := by
  rintro row hrow rfl
  have hany : rows.any List.isEmpty = true := List.any_eq_true.2 ⟨[], hrow, rfl⟩
  unfold mkMatrix at h
  rw [if_pos hany] at h
  cases h

/-- A matrix with rows of one length. -/
theorem matrix {rows : List (List (Expr K))} (hbuild : mkMatrix rows = .ok (.matrix rows))
    (h : ∀ row ∈ rows, ∀ a ∈ row, Readable a) : Readable (matrix rows) := by
  refine .of_atom rfl (.brace _ _) ?_
  have hmap : rowTokenLists rows =
      (rows.map tokenLists).map fun row => bracedTokens (listedTokens row) := by
    rw [rowTokenLists_eq_map, List.map_map]
    rfl
  rw [tokens, hmap]
  refine .matrix ?_ (fun row hrow => ?_) hbuild
  · rw [List.forall₂_map_left_iff, List.forall₂_same]
    exact fun row hrow => list (h row hrow)
  · obtain ⟨row, hmem, rfl⟩ := List.mem_map.1 hrow
    rw [tokenLists_eq_map, ne_eq, List.map_eq_nil_iff]
    exact not_empty_of_mkMatrix hbuild row hmem

end Readable

/-! ## The induction over the tree -/

/-- A node whose tokens are read as the node: it is not misread, and it is no number with a minus
sign. -/
structure IsFaithful (e : Expr K) : Prop where
  unsigned : ∀ x, e = .number x → Scalar.isNegative x = false
  read : e.isMisread = false

/-- A tree that is read back in its place: as a statement, and as an expression if it is one. -/
structure ReadsIn (s : Bool) (e : Expr K) : Prop where
  statement : ReadsStatement e.tokens e
  expression : s = false → Readable e

/-- An expression that is no assignment is also a statement. -/
theorem Readable.readsIn (h : Readable e) (hp : 1 ≤ e.precedence) {s : Bool} : ReadsIn s e :=
  ⟨.expression h.expression (h.starts.mono hp), fun _ => h⟩

/-- A statement that is no expression. -/
theorem ReadsIn.of_statement (h : ReadsStatement e.tokens e) : ReadsIn true e := ⟨h, nofun⟩

/-- Conditions of statements that are not misread bind more than conditionals. -/
theorem ReadsIn.condition (h : ReadsIn false c)
    (hmisread : decide (c.precedence ≤ conditionalPrecedence) = false) : ReadsAs 2 c.tokens c :=
  (h.expression rfl).condition (Nat.lt_of_not_le (of_decide_eq_false hmisread))

end Expr

open Formula.Expr

variable {good : Token K → Prop} {s : Bool} {e : Expr K}

/-- **Every grammatical tree is read back from its tokens**, if all its nodes are. -/
theorem Grammatical.readsIn [Scalar.LawfulText K] (h : Grammatical good s e)
    (he : e.Everywhere IsFaithful) : ReadsIn s e := by
  induction h with
  | @number _ x =>
    have hsign := he.root.unsigned x rfl
    have hpos : 1 ≤ (Expr.number x).precedence := by rw [precedence, hsign]; exact Nat.succ_pos _
    exact (Readable.number hsign).readsIn hpos
  | angle => exact (Readable.angle _).readsIn (Nat.succ_pos _)
  | polar => exact (Readable.polar _ _).readsIn (Nat.succ_pos _)
  | bool => exact (Readable.bool _).readsIn (Nat.succ_pos _)
  | string => exact (Readable.string _).readsIn (Nat.succ_pos _)
  | var => exact (Readable.var _).readsIn (Nat.succ_pos _)
  | step => exact Readable.step.readsIn (Nat.succ_pos _)
  | @unary _ a op _ iha =>
    have ha := (iha (he.child a (.head _))).expression rfl
    cases hop : op.isPostfixed with
    | false => exact (Readable.prefixed hop ha).readsIn (UnaryOp.precedence_pos op)
    | true =>
      obtain rfl := UnaryOp.eq_factorial hop
      exact (Readable.factorial ha he.root.read).readsIn (Nat.succ_pos _)
  | @binary _ a b op _ _ iha ihb =>
    have ha := (iha (he.child a (.head _))).expression rfl
    have hb := (ihb (he.child b (.tail _ (.head _)))).expression rfl
    exact (Readable.binary ha hb).readsIn op.precedence_pos
  | builtin harity _ ih =>
    have has := fun a ha => (ih a ha (he.child a ha)).expression rfl
    exact (Readable.builtin harity has).readsIn (Nat.succ_pos _)
  | call _ hfree _ ih =>
    have has := fun a ha => (ih a ha (he.child a ha)).expression rfl
    exact (Readable.call hfree has).readsIn (Nat.succ_pos _)
  | vector _ ih =>
    have has := fun a ha => (ih a ha (he.child a ha)).expression rfl
    exact (Readable.vector has he.root.read).readsIn (Nat.succ_pos _)
  | matrix hbuild _ ih =>
    have hrows := fun row hrow a ha =>
      (ih row hrow a ha (he.child a (List.mem_flatten.2 ⟨row, hrow, ha⟩))).expression rfl
    exact (Readable.matrix hbuild hrows).readsIn (Nat.succ_pos _)
  | @ifThenElse _ c a b _ _ _ ihc iha ihb =>
    have hc := (ihc (he.child c (.head _))).expression rfl
    have ha := (iha (he.child a (.tail _ (.head _)))).expression rfl
    have hb := (ihb (he.child b (.tail _ (.tail _ (.head _))))).expression rfl
    exact (Readable.ifThenElse hc ha hb).readsIn (Nat.succ_pos _)
  | @assign _ name value op _ _ ih =>
    have hvalue := (ih (he.child value (.head _))).expression rfl
    exact ⟨.assign hvalue.expression, fun _ => .assign hvalue⟩
  | @ifThen c a _ _ ihc iha =>
    have hc := (ihc (he.child c (.head _))).condition he.root.read
    have ha := (iha (he.child a (.tail _ (.head _)))).expression rfl
    exact .of_statement (.ifThen hc ha.expression)
  | @whileLoop body c _ _ ihbody ihc =>
    have hbody := (ihbody (he.child body (.head _))).statement
    have hc := (ihc (he.child c (.tail _ (.head _)))).condition he.root.read
    exact .of_statement (.whileLoop hbody hc)
  | @forLoop body init c iteration _ _ _ _ ihbody ihinit ihc ihiteration =>
    have hbody := (ihbody (he.child body (.head _))).statement
    have hinit := (ihinit (he.child init (.tail _ (.head _)))).statement
    have hc := (ihc (he.child c (.tail _ (.tail _ (.head _))))).condition he.root.read
    have hlast := he.child iteration (.tail _ (.tail _ (.tail _ (.head _))))
    have hiteration := (ihiteration hlast).statement
    exact .of_statement (.forLoop hbody hinit hc hiteration)
  | @define key value hkey _ _ _ ihvalue =>
    have hvalue := (ihvalue (he.child value (.tail _ (.head _)))).expression rfl
    exact .of_statement (.define hkey hvalue.expression)
  | undefine hkey => exact .of_statement (.undefine hkey)

/-! ## Whole formulas -/

/-- Tokens that are read in the place of a statement are read as a formula. -/
theorem ReadsStatement.parseTokens {ts : List (Token K)} {located : List (Token K × Nat)}
    (h : ReadsStatement ts e) (hlocated : located.map (·.1) = ts) :
    Formula.parseTokens located none = .ok e := by
  have hahead : (Reader.ofTokens located none).ahead = ts ++ [] := by
    rw [Reader.ahead_ofTokens, hlocated, List.append_nil]
  have hbudget : nestingBudget (ts ++ []).length = 2 * ts.length + 3 + 1 := by
    rw [List.append_nil, nestingBudget]
  have hstatement : Reads Nest.statement.parser ts [] (some e) := by
    refine Reads.look .remaining ?_
    rw [hbudget]
    exact h _ (Nat.le_add_right _ _) [] rfl
  have hrun := hstatement _ rfl hahead
  have hend : ((Reader.ofTokens located none).skip ts.length).peek? = none := by
    rw [Reader.peek?_eq, Reader.ahead_skip_append hahead]
    rfl
  rw [Formula.parseTokens]
  simp only [hrun, hend]

end Formula

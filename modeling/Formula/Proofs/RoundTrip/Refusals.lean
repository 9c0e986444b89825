import Formula.Parse
import Formula.Proofs.Parse.Reads
import Formula.Proofs.RoundTrip.Tokens

/-!
# Which constructs refuse the tokens of a tree

The grammar tries its constructs one after the other, so a tree is read as what it is only if the
constructs tried before find nothing. Whether they do is decided by the first tokens of the tree.
`Starts` lists the ways in which the tokens of a tree begin, `Separates` says what stands behind
them, and there is one lemma for each construct that is tried in vain.
-/

namespace Formula

open Formula.Grammar Formula.Parser

variable {K : Type}

/-! ## What stands behind a tree -/

/-- How strongly a token behind a tree pulls on it: an operator by its binding strength, and what
closes or separates not at all. -/
def strength? : Token K → Option Nat
  | .symbol .closeParenthesis | .symbol .closeBrace | .symbol .comma | .symbol .colon => some 0
  | .symbol .question => some conditionalPrecedence
  | .symbol .bang => some postfixedPrecedence
  | t => (binaryOp? t).map (·.precedence)

/-- Whether the next token may stand behind a tree and pulls with at most this strength. -/
def follows (m : Nat) (rest : List (Token K)) : Bool :=
  rest.head?.all fun t => (strength? t).any (· ≤ m)

/-- Whether an operator comes next, if anything does. -/
def operates (ts : List (Token K)) : Bool := ts.head?.all fun t => (strength? t).any (1 ≤ ·)

/-- What may follow a tree does not go on with one of its names, numbers or statements. -/
structure Separates (rest : List (Token K)) : Prop where
  unit : rest.head?.bind unit? = none
  angle : rest.head?.any (Token.isSymbol .angle) = false
  openParenthesis : rest.head?.any (Token.isSymbol .openParenthesis) = false
  openBrace : rest.head?.any (Token.isSymbol .openBrace) = false
  identifier : rest.head?.bind Token.identifier? = none
  becomes : rest.head?.any (Token.isSymbol .becomes) = false
  assign : rest.head?.bind assignOp? = none
  step : rest.head?.bind stepOp? = none

variable {ts us rest : List (Token K)} {t : Token K} {m n p q : Nat}

/-- A token that may stand behind a tree separates. -/
theorem Separates.of_strength (h : (strength? t).isSome = true) : Separates (t :: rest) := by
  cases t with
  | number | identifier | string => simp [strength?, binaryOp?] at h
  | keyword k =>
    cases k with
    | and | or | xor | nand | nor | eq | implies | mod =>
      exact ⟨rfl, rfl, rfl, rfl, rfl, rfl, rfl, rfl⟩
    | _ => simp [strength?, binaryOp?] at h
  | symbol s =>
    cases s with
    | becomes | assign | step | openParenthesis | openBrace | degree | angle | tilde =>
      simp [strength?, binaryOp?] at h
    | _ => exact ⟨rfl, rfl, rfl, rfl, rfl, rfl, rfl, rfl⟩

theorem Separates.nil : Separates ([] : List (Token K)) := ⟨rfl, rfl, rfl, rfl, rfl, rfl, rfl, rfl⟩

/-- What may follow a tree separates. -/
theorem Separates.of_follows (h : follows m rest = true) : Separates rest := by
  cases rest with
  | nil => exact .nil
  | cons t rest =>
    refine .of_strength ?_
    cases ht : strength? t with
    | none => simp [follows, ht] at h
    | some s => rfl

/-- Operators separate. -/
theorem Separates.of_operates (h : operates ts = true) (hrest : Separates rest) :
    Separates (ts ++ rest) := by
  cases ts with
  | nil => exact hrest
  | cons t ts =>
    refine .of_strength ?_
    cases ht : strength? t with
    | none => simp [operates, ht] at h
    | some s => rfl

/-- What pulls little pulls no more than what pulls more. -/
theorem follows_mono (hmn : m ≤ n) (h : follows m rest = true) : follows n rest = true := by
  cases rest with
  | nil => rfl
  | cons t rest =>
    cases ht : strength? t with
    | none => simp [follows, ht] at h
    | some s =>
      have hs : s ≤ m := by simpa [follows, ht] using h
      simp [follows, ht, Nat.le_trans hs hmn]

/-- An operator that pulls too little does not follow. -/
theorem not_isSymbol_of_follows {s : Symbol} {k : Nat}
    (hs : strength? (.symbol s : Token K) = some k) (hk : m < k) (h : follows m rest = true) :
    rest.head?.any (Token.isSymbol s) = false := by
  cases rest with
  | nil => rfl
  | cons t rest =>
    rw [List.head?_cons, Option.any_some, Bool.eq_false_iff]
    intro ht
    cases t with
    | symbol s' =>
      obtain rfl : s' = s := by simpa [Token.isSymbol] using ht
      simp [follows, hs] at h
      omega
    | _ => cases ht

/-- An operator of two operands pulls by its binding strength. -/
theorem strength?_of_binaryOp? {op : BinaryOp} (h : binaryOp? t = some op) :
    strength? t = some op.precedence := by
  unfold strength?
  split
  · cases h
  · cases h
  · cases h
  · cases h
  · cases h
  · cases h
  · rw [h, Option.map_some]

/-- Behind a tight tree stands no operator of a loose rung. -/
theorem binaryOpAt?_eq_none (hmq : m < q) (h : follows m rest = true) :
    rest.head?.bind (binaryOpAt? q) = none := by
  cases rest with
  | nil => rfl
  | cons t rest =>
    rw [List.head?_cons, Option.bind_some, binaryOpAt?]
    cases hop : binaryOp? t with
    | none => rfl
    | some op =>
      have hle : op.precedence ≤ m := by
        simpa [follows, strength?_of_binaryOp? hop] using h
      simp
      omega

/-! ## How a tree begins -/

/-- How the tokens of a tree of a binding strength begin. -/
inductive Starts : Nat → List (Token K) → Prop
  | parenthesis (p : Nat) (ts : List (Token K)) : Starts p (.symbol .openParenthesis :: ts)
  | prefixed {p : Nat} {ts : List (Token K)} (op : UnaryOp) : p ≤ prefixedPrecedence →
    op.isPostfixed = false → Starts (prefixedPrecedence + 1) ts → Starts p (op.token :: ts)
  | number {ts : List (Token K)} (p : Nat) (a : K) : operates ts = true → Starts p (.number a :: ts)
  | polar (p : Nat) (a : K) (ts : List (Token K)) : Starts p (.number a :: .symbol .angle :: ts)
  | angle {ts : List (Token K)} (p : Nat) (a : K) (unit : AngleUnit) : operates ts = true →
    Starts p (.number a :: unit.token :: ts)
  | bool (p : Nat) (value : Bool) (ts : List (Token K)) : Starts p (.keyword (.bool value) :: ts)
  | string (p : Nat) (value : String) (ts : List (Token K)) : Starts p (.string value :: ts)
  | brace (p : Nat) (ts : List (Token K)) : Starts p (.symbol .openBrace :: ts)
  | name {ts : List (Token K)} (p : Nat) (name : String) : operates ts = true →
    Starts p (.identifier name :: ts)
  | call {ts : List (Token K)} {items : List (List (Token K))} (p : Nat) (name : String) :
    (∀ item ∈ items, Starts 0 item) →
    (∀ f, Builtin.ofName? name = some f → f.arity.accepts items.length = true) →
    operates ts = true →
    Starts p (.identifier name :: (wrappedTokens true (listedTokens items) ++ ts))
  | step {ts : List (Token K)} (p : Nat) (name : String) (op : StepOp) : operates ts = true →
    Starts p (.identifier name :: .symbol (.step op) :: ts)
  | assign (name : String) (op : AssignOp) (ts : List (Token K)) :
    Starts 0 (.identifier name :: .symbol (.assign op) :: ts)

namespace Starts

/-- A tight beginning is a looser one. -/
theorem mono (hpq : p ≤ q) (h : Starts q ts) : Starts p ts := by
  cases h with
  | parenthesis => exact .parenthesis _ _
  | prefixed op hq hop hts => exact .prefixed op (Nat.le_trans hpq hq) hop hts
  | number _ _ hts => exact .number _ _ hts
  | polar => exact .polar _ _ _
  | angle _ _ unit hts => exact .angle _ _ unit hts
  | bool => exact .bool _ _ _
  | string => exact .string _ _ _
  | brace => exact .brace _ _
  | name _ _ hts => exact .name _ _ hts
  | step _ _ op hts => exact .step _ _ op hts
  | call _ _ hitems harity hts => exact .call _ _ hitems harity hts
  | assign =>
    obtain rfl : p = 0 := by omega
    exact .assign _ _ _

/-- A tree begins alike with operators behind it. -/
theorem append (h : Starts p ts) (hus : operates us = true) : Starts p (ts ++ us) := by
  have hoperates {vs : List (Token K)} (hvs : operates vs = true) : operates (vs ++ us) = true := by
    cases vs with
    | nil => exact hus
    | cons => exact hvs
  induction h with
  | parenthesis => exact .parenthesis _ _
  | prefixed op hq hop _ ih => exact .prefixed op hq hop ih
  | number _ _ hts => exact .number _ _ (hoperates hts)
  | polar => exact .polar _ _ _
  | angle _ _ unit hts => exact .angle _ _ unit (hoperates hts)
  | bool => exact .bool _ _ _
  | string => exact .string _ _ _
  | brace => exact .brace _ _
  | name _ _ hts => exact .name _ _ (hoperates hts)
  | step _ _ op hts => exact .step _ _ op (hoperates hts)
  | call _ _ hitems harity hts _ =>
    rw [List.cons_append, List.append_assoc]
    exact .call _ _ hitems harity (hoperates hts)
  | assign => exact .assign _ _ _

/-- A tree has tokens. -/
theorem length_pos (h : Starts p ts) : 0 < ts.length := by
  cases h <;> exact Nat.succ_pos _

/-- No prefixed operator begins a tight tree. -/
theorem prefixed?_eq_none (hp : prefixedPrecedence < p) (h : Starts p ts) :
    (ts ++ rest).head?.bind prefixed? = none := by
  cases h with
  | prefixed _ hp' => omega
  | _ => rfl

/-- No keyword but a truth value begins a tree. -/
theorem not_isKeyword {word : Keyword} (hword : ∀ value, word ≠ .bool value) (h : Starts p ts) :
    (ts ++ rest).head?.any (Token.isKeyword word) = false := by
  cases h with
  | prefixed op => cases op <;> rfl
  | bool _ value => exact beq_false_of_ne fun heq => hword value heq.symm
  | _ => rfl

/-- A tree does not begin with a closing parenthesis. -/
theorem not_isSymbol_closeParenthesis (h : Starts p ts) (rest : List (Token K)) :
    (ts ++ rest).head?.any (Token.isSymbol .closeParenthesis) = false := by
  cases h with
  | prefixed op => cases op <;> rfl
  | _ => rfl

end Starts

/-! ## Refusals by the first token -/

namespace Grammar

section FirstToken

variable {self : Nest → Parser K (Option (Expr K))}

/-- Without a number in front there is no number. -/
theorem number_refuses (h : rest.head?.bind Token.number? = none) :
    Reads (number : Parser K (Option (Expr K))) [] rest none := by
  refine Reads.look (.take?_none h) ?_
  exact .pure none

/-- Without an identifier in front there is no name of a variable. -/
theorem variableName_refuses (h : rest.head?.bind Token.identifier? = none) :
    Reads (variableName : Parser K (Option String)) [] rest none := by
  refine Reads.speculate_none [] (Reads.look (.take?_none h) ?_)
  exact .pure none

/-- The name of a call is not the name of a variable. -/
theorem variableName_refuses_call {name : String} :
    Reads (variableName : Parser K (Option String)) []
      (.identifier name :: .symbol .openParenthesis :: rest) none := by
  refine Reads.speculate_none [.identifier name] (Reads.last (.take? rfl) ?_)
  exact Reads.inspect (pure none) (fun r hr => if_pos (by rw [hr]; rfl)) (.pure none)

/-- A name that no parenthesis follows. -/
theorem variableName_reads {name : String}
    (h : rest.head?.any (Token.isSymbol .openParenthesis) = false) :
    Reads (variableName : Parser K (Option String)) [.identifier name] rest (some name) := by
  refine Reads.speculate (Reads.last (.take? rfl) ?_)
  exact Reads.inspect (pure (some name)) (fun r hr => if_neg (by rw [hr]; simp [h])) (.pure _)

/-- Without an identifier in front there is no call and no variable. -/
theorem functionOrVariable_refuses (h : rest.head?.bind Token.identifier? = none) :
    Reads (functionOrVariable self) [] rest none := by
  refine Reads.look (.take?_none h) ?_
  exact .pure none

/-- Without an opening parenthesis there is nothing in parentheses. -/
theorem parentheses_refuses (h : rest.head?.any (Token.isSymbol .openParenthesis) = false) :
    Reads (parentheses self) [] rest none := by
  refine Reads.look (.accept_false h) ?_
  exact .pure none

/-- Without an opening brace there are no elements. -/
theorem elements_refuses (h : rest.head?.any (Token.isSymbol .openBrace) = false) :
    Reads (elements self) [] rest none := by
  refine Reads.look (.accept_false h) ?_
  exact .pure none

/-- Without an opening brace there is no vector. -/
theorem vector_refuses (h : rest.head?.any (Token.isSymbol .openBrace) = false) :
    Reads (vector self) [] rest none :=
  Reads.look (elements_refuses h) (.pure none)

/-- Without an opening brace there is no matrix. -/
theorem matrix_refuses (h : rest.head?.any (Token.isSymbol .openBrace) = false) :
    Reads (matrix self) [] rest none := by
  have hrow : Reads (firstRow self) [] rest none :=
    Reads.speculate_none [] (Reads.look (.accept_false h) (.pure none))
  exact Reads.look hrow (.pure none)

/-- A number in front is no complex number without the sign of an angle behind it. -/
theorem complexNumber_refuses_number [Scalar K] {a : K}
    (h : rest.head?.any (Token.isSymbol .angle) = false) :
    Reads (complexNumber : Parser K (Option (Expr K))) [] (.number a :: rest) none := by
  have hmagnitude : Reads polarMagnitude [] (.number a :: rest) none := by
    refine Reads.speculate_none [.number a] ?_
    refine Reads.look (.accept_false rfl) (Reads.last (.take? rfl) ?_)
    exact Reads.look (.accept_false h) (.pure none)
  exact Reads.look hmagnitude (.pure none)

/-- Without a number and without a plus in front there is no complex number. -/
theorem complexNumber_refuses [Scalar K] (hplus : rest.head?.any (Token.isSymbol .plus) = false)
    (h : rest.head?.bind Token.number? = none) :
    Reads (complexNumber : Parser K (Option (Expr K))) [] rest none := by
  have hmagnitude : Reads polarMagnitude [] rest none := by
    refine Reads.speculate_none [] (Reads.look (.accept_false hplus) ?_)
    exact Reads.look (.take?_none h) (.pure none)
  exact Reads.look hmagnitude (.pure none)

/-- Without a truth value in front there is none. -/
theorem truth_refuses (h : rest.head?.bind bool? = none) :
    Reads (truth : Parser K (Option (Expr K))) [] rest none :=
  Reads.look (.take?_none h) (.pure none)

/-- Without a string in front there is none. -/
theorem text_refuses (h : rest.head?.bind Token.string? = none) :
    Reads (Grammar.text : Parser K (Option (Expr K))) [] rest none :=
  Reads.look (.take?_none h) (.pure none)

/-- Without the keyword in front a statement does not open. -/
theorem opening_refuses {word : Keyword} {construct : String}
    (h : rest.head?.any (Token.isKeyword word) = false) :
    Reads (opening word construct : Parser K Bool) [] rest false := by
  refine Reads.look (.accept_false h) ?_
  exact .pure false

/-- Nothing of what is multiplied with a number in front of it. -/
theorem factor_refuses [Scalar K] (hidentifier : rest.head?.bind Token.identifier? = none)
    (hparenthesis : rest.head?.any (Token.isSymbol .openParenthesis) = false)
    (hbrace : rest.head?.any (Token.isSymbol .openBrace) = false) :
    Reads (firstOf [namedFactor self, parentheses self, matrix self, vector self]) [] rest
      none := by
  have hnamed : Reads (namedFactor self) [] rest none :=
    Reads.look (functionOrVariable_refuses hidentifier) (.pure none)
  exact .firstOf_none hnamed <| .firstOf_none (parentheses_refuses hparenthesis) <|
    .firstOf_none (matrix_refuses hbrace) <| .firstOf_none (vector_refuses hbrace) <| .pure none

/-- A number that no unit follows. -/
theorem number_reads {a : K} (h : rest.head?.bind unit? = none) :
    Reads (number : Parser K (Option (Expr K))) [.number a] rest (some (.number a)) := by
  refine Reads.last (.take? rfl) (Reads.look (.take?_none h) ?_)
  exact .pure _

/-- A number with a unit. -/
theorem number_reads_unit {a : K} (unit : AngleUnit) :
    Reads (number : Parser K (Option (Expr K))) [.number a, unit.token] rest
      (some (.angle ⟨a, unit⟩)) := by
  have hunit : unit? (unit.token : Token K) = some unit := by cases unit <;> rfl
  refine Reads.step (.take? rfl) (Reads.last (.take? hunit) ?_)
  exact .pure _

end FirstToken

/-! ## Refusals of trees -/

section Trees

variable {self : Nest → Parser K (Option (Expr K))} {α : Type}

/-- A parser of a number and more refuses a tree if it refuses what follows a number. -/
theorem number_then_refuses {f : Option (Expr K) → Parser K (Option α)}
    (hnone : ∀ ws, Reads (f none) [] ws none)
    (hsome : ∀ factor ws, ws.head?.bind Token.identifier? = none →
      ws.head?.any (Token.isSymbol .openParenthesis) = false →
      ws.head?.any (Token.isSymbol .openBrace) = false → Reads (f (some factor)) [] ws none)
    (h : Starts p ts) (hrest : Separates rest) :
    ∃ vs ws, vs ++ ws = ts ++ rest ∧ Reads (number >>= f) vs ws none := by
  have hno (hhead : (ts ++ rest).head?.bind Token.number? = none) :
      ∃ vs ws, vs ++ ws = ts ++ rest ∧ Reads (number >>= f) vs ws none :=
    ⟨[], _, rfl, Reads.look (number_refuses hhead) (hnone _)⟩
  cases h with
  | number _ a hts =>
    have hws := Separates.of_operates hts hrest
    exact ⟨[_], _, rfl, Reads.last (number_reads hws.unit)
      (hsome _ _ hws.identifier hws.openParenthesis hws.openBrace)⟩
  | polar _ a ts => exact ⟨[_], _, rfl, Reads.last (number_reads rfl) (hsome _ _ rfl rfl rfl)⟩
  | angle _ a unit hts =>
    have hws := Separates.of_operates hts hrest
    exact ⟨[_, _], _, rfl, Reads.last (number_reads_unit unit)
      (hsome _ _ hws.identifier hws.openParenthesis hws.openBrace)⟩
  | prefixed op => exact hno (by cases op <;> rfl)
  | _ => exact hno rfl

/-- The same behind a sign. -/
theorem signed_number_then_refuses {f : Bool → Option (Expr K) → Parser K (Option α)}
    (hnone : ∀ negative ws, Reads (f negative none) [] ws none)
    (hsome : ∀ negative factor ws, ws.head?.bind Token.identifier? = none →
      ws.head?.any (Token.isSymbol .openParenthesis) = false →
      ws.head?.any (Token.isSymbol .openBrace) = false →
      Reads (f negative (some factor)) [] ws none)
    (h : Starts p ts) (hrest : Separates rest) :
    Reads (speculate do f (← symbol .minus) (← number)) [] (ts ++ rest) none := by
  have hbehind {q : Nat} {us : List (Token K)} (negative : Bool) (hus : Starts q us) :=
    number_then_refuses (hnone negative) (hsome negative) hus hrest
  have hunsigned (hhead : (ts ++ rest).head?.any (Token.isSymbol .minus) = false) :
      Reads (speculate do f (← symbol .minus) (← number)) [] (ts ++ rest) none := by
    obtain ⟨vs, ws, heq, hreads⟩ := hbehind false h
    rw [← heq] at hhead ⊢
    exact Reads.speculate_none vs (Reads.look (.accept_false hhead) hreads)
  cases h with
  | prefixed op hp hop hts =>
    cases op with
    | minus =>
      obtain ⟨vs, ws, heq, hreads⟩ := hbehind true hts
      rw [List.cons_append, ← heq]
      exact Reads.speculate_none (.symbol .minus :: vs) (Reads.step .symbol hreads)
    | not => exact hunsigned rfl
    | factorial => cases hop
  | _ => exact hunsigned rfl

/-- No tree is an implicit product. -/
theorem numberTimes_refuses [Scalar K] (h : Starts p ts) (hrest : Separates rest) :
    Reads (numberTimes self) [] (ts ++ rest) none := by
  refine signed_number_then_refuses (fun _ _ => ?_) (fun _ _ _ h₁ h₂ h₃ => ?_) h hrest
  · exact .pure none
  · exact Reads.look (factor_refuses h₁ h₂ h₃) (.pure none)

/-- Without a name in front there is no compound assignment. -/
theorem compoundAssignment_refuses_nameless [Scalar K]
    (h : rest.head?.bind Token.identifier? = none) :
    Reads (compoundAssignment self) [] rest none := by
  have hhead : Reads (assignmentHead : Parser K (Option (AssignOp × String))) [] rest none :=
    Reads.speculate_none [] (Reads.look (variableName_refuses h) (.pure none))
  exact Reads.look hhead (.pure none)

/-- Behind a name that no assignment follows there is none. -/
theorem compoundAssignment_refuses_name [Scalar K] {name : String}
    (hopen : rest.head?.any (Token.isSymbol .openParenthesis) = false)
    (hassign : rest.head?.bind assignOp? = none) :
    Reads (compoundAssignment self) [] (.identifier name :: rest) none := by
  have hhead : Reads (assignmentHead : Parser K (Option (AssignOp × String))) []
      ([Token.identifier name] ++ rest) none := by
    refine Reads.speculate_none [.identifier name] (Reads.last (variableName_reads hopen) ?_)
    exact Reads.look (.take?_none hassign) (.pure none)
  exact Reads.look hhead (.pure none)

/-- Nothing is assigned to a call. -/
theorem compoundAssignment_refuses_call [Scalar K] {name : String} :
    Reads (compoundAssignment self) []
      (.identifier name :: .symbol .openParenthesis :: rest) none := by
  have hhead : Reads (assignmentHead : Parser K (Option (AssignOp × String))) []
      (.identifier name :: .symbol .openParenthesis :: rest) none :=
    Reads.speculate_none [] (Reads.look variableName_refuses_call (.pure none))
  exact Reads.look hhead (.pure none)

/-- A tree that is no compound assignment is not read as one. -/
theorem compoundAssignment_refuses [Scalar K] (h : Starts (p + 1) ts) (hrest : Separates rest) :
    Reads (compoundAssignment self) [] (ts ++ rest) none := by
  cases h with
  | name _ name hts =>
    have hws := Separates.of_operates hts hrest
    exact compoundAssignment_refuses_name hws.openParenthesis hws.assign
  | step _ name op => exact compoundAssignment_refuses_name rfl rfl
  | call _ name => exact compoundAssignment_refuses_call
  | prefixed op => exact compoundAssignment_refuses_nameless (by cases op <;> rfl)
  | _ => exact compoundAssignment_refuses_nameless rfl

/-! ### Calls in front of definitions

A call begins like the declaration of a function, and is read as one as long as its arguments are
names. -/

/-- The ways in which an argument is read as a parameter: it is a name, or no name, or a name that
neither a comma nor a parenthesis follows. -/
theorem Starts.parameter (h : Starts 0 ts) : (∃ name, ts = [.identifier name]) ∨
    (∀ rest, Reads (variableName : Parser K (Option String)) [] (ts ++ rest) none) ∨
    ∃ name t us, ts = .identifier name :: t :: us ∧ t.isSymbol .openParenthesis = false ∧
      t.isSymbol .comma = false ∧ t.isSymbol .closeParenthesis = false := by
  cases h with
  | @name ts _ name hts =>
    cases ts with
    | nil => exact .inl ⟨name, rfl⟩
    | cons t us =>
      refine .inr (.inr ⟨name, t, us, rfl, ?_⟩)
      cases t with
      | symbol s =>
        cases s <;> first | exact ⟨rfl, rfl, rfl⟩ | simp [operates, strength?, binaryOp?] at hts
      | _ => exact ⟨rfl, rfl, rfl⟩
  | assign name op us => exact .inr (.inr ⟨name, _, us, rfl, rfl, rfl, rfl⟩)
  | step _ name op => exact .inr (.inr ⟨name, _, _, rfl, rfl, rfl, rfl⟩)
  | call _ name => exact .inr (.inl fun _ => variableName_refuses_call)
  | prefixed op => exact .inr (.inl fun _ => variableName_refuses (by cases op <;> rfl))
  | _ => exact .inr (.inl fun _ => variableName_refuses rfl)

/-- In front of a closing parenthesis the parser either reads all tokens and gives that many names,
or it gives nothing or stops in front of something else. -/
def Lists (p : Parser K (Option (List String))) (us tail : List (Token K)) (count : Nat) : Prop :=
  (∃ names, names.length = count ∧ Reads p us (.symbol .closeParenthesis :: tail) (some names)) ∨
    ∃ vs ws found, vs ++ ws = us ++ .symbol .closeParenthesis :: tail ∧ Reads p vs ws found ∧
      (found.isSome = true → ws.head?.any (Token.isSymbol .closeParenthesis) = false)

/-- What is read before the names. -/
theorem Lists.behind {p : Parser K α} {f : α → Parser K (Option (List String))} {a : α}
    {us tail : List (Token K)} {count : Nat} (vs : List (Token K))
    (hp : ∀ {ws}, ws = us ++ .symbol .closeParenthesis :: tail → Reads p vs ws a)
    (h : Lists (f a) us tail count) : Lists (p >>= f) (vs ++ us) tail count := by
  rcases h with ⟨names, hlength, hreads⟩ | ⟨vs', ws, found, heq, hreads, hstop⟩
  · exact .inl ⟨names, hlength, Reads.bind (hp rfl) hreads⟩
  · refine .inr ⟨vs ++ vs', ws, found, ?_, Reads.bind (hp heq) hreads, hstop⟩
    rw [List.append_assoc, List.append_assoc, heq]

/-- One name more. -/
theorem Lists.cons {p : Parser K (Option (List String))}
    {f : Option (List String) → Parser K (Option (List String))} {name : String}
    {us tail : List (Token K)} {count : Nat} (h : Lists p us tail count)
    (hf : ∀ ws found, Reads (f found) [] ws (found.map (name :: ·))) :
    Lists (p >>= f) us tail (count + 1) := by
  rcases h with ⟨names, hlength, hreads⟩ | ⟨vs, ws, found, heq, hreads, hstop⟩
  · exact .inl ⟨name :: names, by rw [List.length_cons, hlength], Reads.last hreads (hf _ _)⟩
  · refine .inr ⟨vs, ws, found.map (name :: ·), heq, Reads.last hreads (hf _ _), ?_⟩
    rwa [Option.isSome_map]

/-- Names behind which something else follows. -/
theorem Lists.stop {p : Parser K (Option (List String))} {us tail : List (Token K)} {count : Nat}
    {found : Option (List String)} (hp : Reads p [] (us ++ .symbol .closeParenthesis :: tail) found)
    (hstop : (us ++ .symbol .closeParenthesis :: tail).head?.any
      (Token.isSymbol .closeParenthesis) = false) : Lists p us tail count :=
  .inr ⟨[], _, found, rfl, hp, fun _ => hstop⟩

/-- An argument in front of others, as a parameter. -/
theorem Lists.parameter {f : Option String → Parser K (Option (List String))}
    {item us tail : List (Token K)} {count : Nat} {found : Option (List String)}
    (hitem : Starts 0 item) (hnone : ∀ ws, Reads (f none) [] ws found)
    (hstop : ∀ name ws, ws.head?.any (Token.isSymbol .comma) = false →
      Reads (f (some name)) [] ws (some [name]))
    (hus : (us ++ .symbol .closeParenthesis :: tail).head?.any
      (Token.isSymbol .openParenthesis) = false)
    (hmore : ∀ name, Lists (f (some name)) us tail count) :
    Lists (variableName >>= f) (item ++ us) tail count := by
  rcases Starts.parameter hitem with ⟨name, rfl⟩ | hrefuses |
    ⟨name, t, vs, rfl, hopen, hcomma, hclose⟩
  · refine Lists.behind [_] (fun hws => variableName_reads ?_) (hmore name)
    rw [hws, hus]
  · have hfirst := hitem.not_isSymbol_closeParenthesis (us ++ .symbol .closeParenthesis :: tail)
    rw [← List.append_assoc] at hfirst
    have hreads : Reads (variableName >>= f) [] (item ++ us ++ .symbol .closeParenthesis :: tail)
        found := by
      refine Reads.look ?_ (hnone _)
      rw [List.nil_append, List.append_assoc]
      exact hrefuses _
    exact Lists.stop hreads hfirst
  · rw [List.cons_append]
    refine Lists.behind [_] (fun hws => variableName_reads (hws ▸ hopen)) ?_
    exact Lists.stop (hstop name _ hcomma) hclose

/-- Without a comma there are no more names. -/
theorem moreNames_stops (h : rest.head?.any (Token.isSymbol .comma) = false) (count : Nat) :
    Reads (moreNames count : Parser K (Option (List String))) [] rest (some []) := by
  cases count with
  | zero => exact .pure _
  | succ count =>
    refine Reads.look (.accept_false h) ?_
    exact .pure _

/-- What stands behind an argument is no opening parenthesis. -/
theorem not_openParenthesis_more {items : List (List (Token K))} {tail : List (Token K)} :
    (items.flatMap (.symbol .comma :: ·) ++ .symbol .closeParenthesis :: tail).head?.any
      (Token.isSymbol .openParenthesis) = false := by
  cases items <;> rfl

/-- The arguments behind the first one, as parameters. -/
theorem moreNames_lists {items : List (List (Token K))} (tail : List (Token K))
    (h : ∀ item ∈ items, Starts 0 item) (count : Nat) :
    Lists (moreNames count) (items.flatMap (.symbol .comma :: ·)) tail items.length := by
  induction items generalizing count with
  | nil => exact .inl ⟨[], rfl, moreNames_stops rfl count⟩
  | cons item items ih =>
    cases count with
    | zero => exact .stop (.pure (some [])) rfl
    | succ count =>
      have hmore := ih (fun item hitem => h item (.tail _ hitem)) count
      rw [List.flatMap_cons]
      refine Lists.behind [_] (fun _ => .symbol) ?_
      refine Lists.parameter (h item (.head _)) (fun _ => .pure none) (fun name ws hws => ?_)
        not_openParenthesis_more fun name => ?_
      · exact Reads.look (moreNames_stops hws count) (.pure _)
      · exact hmore.cons fun _ found => by cases found <;> exact .pure _

/-- The arguments of a call, as parameters. -/
theorem parameterNames_lists {items : List (List (Token K))} (tail : List (Token K))
    (h : ∀ item ∈ items, Starts 0 item) :
    Lists parameterNames (listedTokens items) tail items.length := by
  cases items with
  | nil => exact .inl ⟨[], rfl, Reads.look (variableName_refuses rfl) (.pure _)⟩
  | cons item items =>
    have hmore := moreNames_lists tail fun item hitem => h item (.tail _ hitem)
    refine Lists.parameter (h item (.head _)) (fun _ => .pure (some [])) (fun name ws hws => ?_)
      not_openParenthesis_more fun name => ?_
    · exact Reads.look .remaining (Reads.look (moreNames_stops hws _) (.pure _))
    · have hremaining {ws vs : List (Token K)} (hws : ws = vs) :
          Reads remaining [] ws vs.length := hws ▸ .remaining
      exact Lists.behind [] hremaining ((hmore _).cons fun _ _ => .pure _)

/-- The name and the arguments of a call are read as the head of a declaration, with as many
parameters, or no declaration is found. -/
theorem declarationHead_call {name : String} {items : List (List (Token K))}
    (h : ∀ item ∈ items, Starts 0 item) (rest : List (Token K)) :
    Reads (declarationHead : Parser K (Option (String × List String))) []
        (.identifier name :: (wrappedTokens true (listedTokens items) ++ rest)) none ∨
      ∃ names, names.length = items.length ∧ Reads declarationHead
        (.identifier name :: wrappedTokens true (listedTokens items)) rest
          (some (name, names)) := by
  rcases parameterNames_lists rest h with ⟨names, hlength, hreads⟩ |
    ⟨vs, ws, found, heq, hreads, hstop⟩
  · refine .inr ⟨names, hlength, Reads.speculate ?_⟩
    refine Reads.step (.take? rfl) (Reads.step .symbol (Reads.bind hreads (Reads.last .symbol ?_)))
    exact .pure _
  · have htokens : (.identifier name :: (wrappedTokens true (listedTokens items) ++ rest)) =
        (.identifier name :: .symbol .openParenthesis :: vs) ++ ws := by
      simp [wrappedTokens, heq]
    rw [htokens]
    refine .inl (Reads.speculate_none _ ?_)
    refine Reads.step (.take? rfl) (Reads.step .symbol (Reads.last hreads ?_))
    cases found with
    | none => exact .pure none
    | some names => exact Reads.look (.accept_false (hstop rfl)) (.pure none)

/-- A call with an accepted number of arguments can be made. -/
theorem makeCall_reads {name : String} (as : List (Expr K)) (rest : List (Token K))
    (h : ∀ f, Builtin.ofName? name = some f → f.arity.accepts as.length = true) :
    ∃ e, Reads (makeCall name as) [] rest e := by
  unfold makeCall
  split
  · next f hf =>
    have hbuild : Expr.mkBuiltin f as = .ok (.builtin f as) := if_pos (h f hf)
    rw [hbuild]
    exact ⟨_, .pure _⟩
  · exact ⟨_, .pure _⟩

/-- Without a name in front there is no key of a definition. -/
theorem key_refuses (h : rest.head?.bind Token.identifier? = none) :
    Reads (key : Parser K (Option (Expr K))) [] rest none := by
  have hhead : Reads (declarationHead : Parser K (Option (String × List String))) [] rest none :=
    Reads.speculate_none [] (Reads.look (.take?_none h) (.pure none))
  exact Reads.look hhead (Reads.look (variableName_refuses h) (.pure none))

/-- A name that no parenthesis follows is a key. -/
theorem key_reads_name {name : String}
    (h : rest.head?.any (Token.isSymbol .openParenthesis) = false) :
    Reads (key : Parser K (Option (Expr K))) [.identifier name] rest (some (.var name)) := by
  have hhead : Reads (declarationHead : Parser K (Option (String × List String))) []
      ([Token.identifier name] ++ rest) none := by
    refine Reads.speculate_none [.identifier name] (Reads.last (.take? rfl) ?_)
    exact Reads.look (.accept_false h) (.pure none)
  exact Reads.look hhead (Reads.last (variableName_reads h) (.pure _))

/-- The key of a definition, where there is no definition: none is found, or it is not followed by
the sign of one. -/
theorem key_reads_unbound (h : Starts (p + 1) ts) (hrest : Separates rest) :
    ∃ vs ws found, vs ++ ws = ts ++ rest ∧ Reads (key : Parser K (Option (Expr K))) vs ws found ∧
      (found.isSome = true → ws.head?.any (Token.isSymbol .becomes) = false) := by
  have hno (hhead : (ts ++ rest).head?.bind Token.identifier? = none) :
      ∃ vs ws found, vs ++ ws = ts ++ rest ∧ Reads (key : Parser K (Option (Expr K))) vs ws found ∧
        (found.isSome = true → ws.head?.any (Token.isSymbol .becomes) = false) :=
    ⟨[], _, none, rfl, key_refuses hhead, nofun⟩
  cases h with
  | name _ name hus =>
    have hws := Separates.of_operates hus hrest
    exact ⟨[.identifier name], _, _, rfl, key_reads_name hws.openParenthesis, fun _ => hws.becomes⟩
  | step _ name op => exact ⟨[.identifier name], _, _, rfl, key_reads_name rfl, fun _ => rfl⟩
  | @call us items _ name hitems harity hus =>
    have hws := Separates.of_operates hus hrest
    rw [List.cons_append, List.append_assoc]
    rcases declarationHead_call hitems (us ++ rest) with hnone | ⟨names, hlength, hreads⟩
    · refine ⟨[], _, none, rfl, Reads.look hnone ?_, nofun⟩
      exact Reads.look variableName_refuses_call (.pure none)
    · have haccepts : ∀ f, Builtin.ofName? name = some f →
          f.arity.accepts (names.map (Expr.var (K := K))).length = true := by
        intro f hf
        rw [List.length_map, hlength]
        exact harity f hf
      obtain ⟨e, he⟩ := makeCall_reads _ (us ++ rest) haccepts
      refine ⟨_, _, some e, rfl, Reads.last hreads (Reads.last he ?_), fun _ => hws.becomes⟩
      exact .pure _
  | prefixed op => exact hno (by cases op <;> rfl)
  | _ => exact hno rfl

/-- Without a name in front there is no definition. -/
theorem definition_refuses_nameless [Scalar K] (h : rest.head?.bind Token.identifier? = none) :
    Reads (definition self) [] rest none := by
  have hkey : Reads (definitionKey : Parser K (Option (Expr K))) [] rest none :=
    Reads.speculate_none [] (Reads.look (key_refuses h) (.pure none))
  exact Reads.look hkey (.pure none)

/-- A tree that is no definition is not read as one. -/
theorem definition_refuses [Scalar K] (h : Starts (p + 1) ts) (hrest : Separates rest) :
    Reads (definition self) [] (ts ++ rest) none := by
  obtain ⟨vs, ws, found, heq, hkey, hbecomes⟩ := key_reads_unbound h hrest
  have hhead : Reads (definitionKey : Parser K (Option (Expr K))) [] (ts ++ rest) none := by
    rw [← heq]
    refine Reads.speculate_none vs (Reads.last hkey ?_)
    cases found with
    | none => exact .pure none
    | some k => exact Reads.look (.accept_false (hbecomes rfl)) (.pure none)
  exact Reads.look hhead (.pure none)

end Trees

end Grammar

end Formula

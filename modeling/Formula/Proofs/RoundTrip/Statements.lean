import Formula.Proofs.RoundTrip.Brackets

/-!
# Statements

The constructs that stand only in the place of a statement: definitions and what opens with a
keyword. `ReadsStatement` says of tokens what `ReadsAs` says of those of an expression. A part of a
statement stands in front of a comma or a parenthesis, which pull on nothing, so parts are items in
the sense of `ReadsItem`: conditions, expressions, and in loops statements again.
-/

namespace Formula

open Formula.Grammar Formula.Parser

variable {K : Type} {n : Nat} {ts us vs ws rest : List (Token K)} {a b c e k v : Expr K}

/-! ## Keys -/

section Keys

variable {name : String} {names : List String}

/-- The names behind the first in a parameter list. -/
theorem moreNames_reads {count : Nat} (hcount : names.length ≤ count) :
    Reads (moreNames count) ((names.map ([.identifier ·])).flatMap (.symbol .comma :: ·))
      (.symbol .closeParenthesis :: rest) (some names) := by
  induction names generalizing count with
  | nil => exact moreNames_stops rfl count
  | cons name names ih =>
    obtain ⟨count, rfl⟩ : ∃ k, count = k + 1 := by
      rw [List.length_cons] at hcount
      exact ⟨count - 1, by omega⟩
    have hmore := ih (Nat.le_of_succ_le_succ hcount)
    exact Reads.step .symbol (Reads.step (variableName_reads not_openParenthesis_more)
      (Reads.last hmore (.pure _)))

/-- The names of a parameter list. -/
theorem parameterNames_reads : Reads parameterNames (listedTokens (names.map ([.identifier ·])))
    (.symbol .closeParenthesis :: rest) (some names) := by
  cases names with
  | nil => exact Reads.look (variableName_refuses rfl) (.pure _)
  | cons name names =>
    refine Reads.step (variableName_reads not_openParenthesis_more)
      (Reads.look .remaining (Reads.last (moreNames_reads ?_) (.pure _)))
    have hcount := length_le_more (names.map fun name => [(.identifier name : Token K)])
    rw [List.length_map] at hcount
    show names.length ≤ (_ ++ .symbol .closeParenthesis :: rest : List (Token K)).length
    rw [List.length_append]
    exact Nat.le_trans hcount (Nat.le_add_right _ _)

/-- The declaration of a function is a key. -/
theorem key_reads_declaration (hfree : Builtin.ofName? name = none) :
    Reads (key : Parser K (Option (Expr K)))
      (.identifier name :: wrappedTokens true (listedTokens (names.map ([.identifier ·])))) rest
      (some (.call name (names.map .var))) := by
  have hhead : Reads declarationHead
      (.identifier name :: wrappedTokens true (listedTokens (names.map ([.identifier ·])))) rest
      (some (name, names)) :=
    Reads.speculate (Reads.step (.take? rfl) (Reads.step .symbol
      (Reads.bind parameterNames_reads (Reads.last .symbol (.pure _)))))
  refine Reads.last hhead (Reads.last ?_ (.pure _))
  rw [makeCall, hfree]
  exact .pure _

/-- Trees that are all variables are the variables of some names. -/
theorem eq_map_var : ∀ {as : List (Expr K)} {names : List String},
    Expr.parameters? as = some names → as = names.map .var
  | [], names, h => by
    obtain rfl : [] = names := Option.some.inj h
    rfl
  | a :: as, names, h => by
    rw [Expr.parameters?, List.mapM_cons] at h
    obtain ⟨name, hname, h⟩ := Option.bind_eq_some_iff.1 h
    obtain ⟨more, hmore, h⟩ := Option.bind_eq_some_iff.1 h
    obtain rfl : name :: more = names := Option.some.inj h
    cases a with
    | var x =>
      obtain rfl : x = name := Option.some.inj hname
      rw [eq_map_var hmore, List.map_cons]
    | _ => cases hname

/-- What a definition can bind is a variable or the declaration of a function. -/
theorem checkKey_cases (h : Expr.checkKey k = .ok ()) : (∃ name, k = .var name) ∨
    ∃ name names, k = .call name (List.map .var names) ∧ Builtin.ofName? name = none := by
  unfold Expr.checkKey at h
  split at h
  · exact .inl ⟨_, rfl⟩
  · next name as =>
    split at h
    · cases h
    · next hfree =>
      split at h
      · cases h
      · next hnames =>
        cases hparameters : Expr.parameters? as with
        | none => exact absurd (by rw [hparameters]; rfl) hnames
        | some names =>
          rw [eq_map_var hparameters]
          exact .inr ⟨name, names, rfl, by simpa using hfree⟩
  · cases h
  · cases h

variable [Scalar K]

theorem tokenLists_map_var (names : List String) :
    Expr.tokenLists (names.map (Expr.var (K := K))) = names.map ([.identifier ·]) := by
  induction names with
  | nil => rfl
  | cons name names ih => exact congrArg ([.identifier name] :: ·) ih

/-- The tokens of a key are read as the key. -/
theorem key_reads (h : Expr.checkKey k = .ok ())
    (hopen : rest.head?.any (Token.isSymbol .openParenthesis) = false) :
    Reads key k.tokens rest (some k) := by
  rcases checkKey_cases h with ⟨name, rfl⟩ | ⟨name, names, rfl, hfree⟩
  · exact key_reads_name hopen
  · rw [Expr.tokens, tokenLists_map_var]
    exact key_reads_declaration hfree

end Keys

/-! ## Statements -/

section Statements

variable [Scalar K]

/-- The tokens are read as the tree in the place of a statement, with two levels of nesting for each
token and one for the statement. -/
def ReadsStatement (ts : List (Token K)) (e : Expr K) : Prop :=
  ∀ n, 2 * ts.length ≤ n → ReadsItem (Nest.statement.parserWithin (n + 1)) ts (some e)

/-! ### Parts -/

/-- A condition as a part of a statement. -/
theorem ReadsAs.condition (h : ReadsAs 2 ts e) (hn : 2 * ts.length ≤ n) :
    ReadsItem (condition (Nest.parserWithin n)) ts (some e) := fun rest hrest =>
  h n rest (follows_mono (Nat.zero_le _) hrest) (Nat.le_succ_of_le hn)

/-- An expression as a part of a statement. -/
theorem ReadsAs.part (h : ReadsAs 0 ts e) (hn : 2 * ts.length ≤ n) :
    ReadsItem (Nest.expression.parserWithin n) ts (some e) := fun rest hrest => h n rest hrest hn

/-- A statement as a part of a loop. -/
theorem ReadsStatement.part (h : ReadsStatement ts e) (hn : 2 * ts.length + 1 ≤ n) :
    ReadsItem (Nest.statement.parserWithin n) ts (some e) := by
  obtain ⟨k, rfl⟩ : ∃ k, n = k + 1 := ⟨n - 1, by omega⟩
  exact h k (Nat.le_of_succ_le_succ hn)

/-! ### Statements that begin with a name -/

/-- An expression that is no assignment. -/
theorem ReadsOver.statement {S : Nat → Nest → Parser K (Option (Expr K))} {k : Nat}
    (hS : Unrolls S) (h : ReadsOver S k 0 ts e) (hts : Starts 1 ts) (hn : k ≤ n) :
    ReadsItem (S (n + 1) .statement) ts (some e) := by
  intro rest hrest
  have hseparates := Separates.of_follows hrest
  have hopening {word : Keyword} {construct : String} (hword : ∀ value, word ≠ .bool value) :
      Reads (opening word construct) [] (ts ++ rest) false :=
    opening_refuses (hts.not_isKeyword hword)
  rw [hS]
  exact Reads.nested <| .firstOf_none (compoundAssignment_refuses hts hseparates) <|
    .firstOf_none (definition_refuses hts hseparates) <|
    .firstOf_none (Reads.look (hopening nofun) (.pure none)) <|
    .firstOf_none (Reads.look (hopening nofun) (.pure none)) <|
    .firstOf_none (Reads.look (hopening nofun) (.pure none)) <|
    .firstOf_none (Reads.look (hopening nofun) (.pure none)) <|
    .firstOf_none (Reads.look (hopening nofun) (.pure none)) <|
    .firstOf_some (h n rest hrest hn)

theorem ReadsStatement.expression (h : ReadsAs 0 ts e) (hts : Starts 1 ts) :
    ReadsStatement ts e := fun _ hn => ReadsOver.statement Nest.parserWithin_unrolls h hts hn

/-- A compound assignment. -/
theorem ReadsStatement.assign {op : AssignOp} {name : String} (h : ReadsAs 0 ts e) :
    ReadsStatement (.identifier name :: .symbol (.assign op) :: ts) (.assign op name e) := by
  intro n hn rest hrest
  rw [List.length_cons, List.length_cons] at hn
  exact Reads.nested (.firstOf_some (compoundAssignment_reads h hrest (by omega)))

/-- `key := value`. -/
theorem ReadsStatement.define (hkey : Expr.checkKey k = .ok ()) (hv : ReadsAs 0 ts v) :
    ReadsStatement (k.tokens ++ .symbol .becomes :: ts) (.define k v) := by
  intro n hn rest hrest
  rw [List.length_append, List.length_cons] at hn
  have hassignment : Reads (compoundAssignment (Nest.parserWithin n)) []
      ((k.tokens ++ .symbol .becomes :: ts) ++ rest) none := by
    rcases checkKey_cases hkey with ⟨name, rfl⟩ | ⟨name, names, rfl, -⟩
    · exact compoundAssignment_refuses_name rfl rfl
    · exact compoundAssignment_refuses_call
  have hhead : Reads definitionKey (k.tokens ++ [Token.symbol .becomes]) (ts ++ rest) (some k) :=
    Reads.speculate (Reads.bind (key_reads hkey rfl) (Reads.last .symbol (.pure _)))
  have hvalue := hv.part (n := n) (by omega) rest hrest
  have hbuild : Expr.mkDefine k v = .ok (.define k v) := by rw [Expr.mkDefine, hkey]
  have hdefinition : Reads (definition (Nest.parserWithin n))
      ((k.tokens ++ [Token.symbol .becomes]) ++ ts) rest (some (.define k v)) := by
    refine Reads.bind hhead (Reads.last (.require hvalue) ?_)
    rw [hbuild]
    exact Reads.look (.pure _) (.pure _)
  rw [List.append_assoc] at hdefinition
  exact Reads.nested (.firstOf_none hassignment (.firstOf_some hdefinition))

/-! ### Statements that open with a keyword -/

omit [Scalar K] in
/-- The keyword of a statement with its opening parenthesis. -/
theorem opening_reads {word : Keyword} {construct : String} :
    Reads (opening word construct : Parser K Bool) [.keyword word, .symbol .openParenthesis] rest
      true := by
  have hword : Token.isKeyword word (.keyword word : Token K) = true := by simp [Token.isKeyword]
  exact Reads.step (.accept hword) (Reads.last .expect (.pure _))

/-- In front of no name a statement opens with a keyword or is an expression. -/
theorem statement_behind_names {self : Nest → Parser K (Option (Expr K))} {found : Option (Expr K)}
    (hhead : (ts ++ rest).head?.bind Token.identifier? = none)
    (h : Reads (firstOf [define self, undefine, ifStatement self, forStatement self,
      whileStatement self, self .expression]) ts rest found) :
    Reads (nest self .statement) ts rest found :=
  .firstOf_none (compoundAssignment_refuses_nameless hhead) <|
    .firstOf_none (definition_refuses_nameless hhead) h

/-- `undef(key)`. -/
theorem ReadsStatement.undefine (hkey : Expr.checkKey k = .ok ()) :
    ReadsStatement (.keyword .undefine :: wrappedTokens true k.tokens) (.undefine k) := by
  intro n _ rest _
  have hbuild : Expr.mkUndefine k = .ok (.undefine k) := by rw [Expr.mkUndefine, hkey]
  have hundefine : Reads Grammar.undefine ([Token.keyword .undefine, .symbol .openParenthesis] ++
      (k.tokens ++ [Token.symbol .closeParenthesis])) rest (some (.undefine k)) := by
    refine Reads.bind opening_reads (Reads.bind (.require (key_reads hkey rfl))
      (Reads.last .expect ?_))
    rw [hbuild]
    exact Reads.look (.pure _) (.pure _)
  exact Reads.nested <| statement_behind_names rfl <|
    .firstOf_none (Reads.look (opening_refuses rfl) (.pure none)) <| .firstOf_some hundefine

omit [Scalar K] in
/-- A construct of two parts, from its keyword to its closing parenthesis. -/
theorem openedTokens_pair {word : Keyword} :
    .keyword word :: wrappedTokens true (listedTokens [ts, us]) =
      [Token.keyword word, .symbol .openParenthesis] ++
        (ts ++ Token.symbol .comma :: (us ++ [Token.symbol .closeParenthesis])) := by
  simp [wrappedTokens, listedTokens]

/-- `if(condition, yes)`. -/
theorem ReadsStatement.ifThen (hc : ReadsAs 2 ts c) (ha : ReadsAs 0 us a) :
    ReadsStatement (.keyword .ifThen :: wrappedTokens true (listedTokens [ts, us]))
      (.ifThen c a) := by
  rw [openedTokens_pair]
  intro n hn rest _
  simp only [List.length_append, List.length_cons, List.length_nil] at hn
  have hif : Reads (ifStatement (Nest.parserWithin n)) ([Token.keyword .ifThen,
      .symbol .openParenthesis] ++ (ts ++ Token.symbol .comma ::
        (us ++ [Token.symbol .closeParenthesis]))) rest (some (.ifThen c a)) := by
    refine Reads.bind opening_reads ?_
    refine Reads.bind (.require (hc.condition (by omega) _ rfl)) (Reads.step .expect ?_)
    refine Reads.bind (.require (ha.part (by omega) _ rfl)) ?_
    exact Reads.look (.accept_false rfl) (Reads.last .expect (.pure _))
  exact Reads.nested <| statement_behind_names rfl <|
    .firstOf_none (Reads.look (opening_refuses rfl) (.pure none)) <|
    .firstOf_none (Reads.look (opening_refuses rfl) (.pure none)) <| .firstOf_some hif

/-- `while(body, condition)`. -/
theorem ReadsStatement.whileLoop (hbody : ReadsStatement ts a) (hc : ReadsAs 2 us c) :
    ReadsStatement (.keyword .whileLoop :: wrappedTokens true (listedTokens [ts, us]))
      (.whileLoop a c) := by
  rw [openedTokens_pair]
  intro n hn rest _
  simp only [List.length_append, List.length_cons, List.length_nil] at hn
  have hwhile : Reads (whileStatement (Nest.parserWithin n)) ([Token.keyword .whileLoop,
      .symbol .openParenthesis] ++ (ts ++ Token.symbol .comma ::
        (us ++ [Token.symbol .closeParenthesis]))) rest (some (.whileLoop a c)) := by
    refine Reads.bind opening_reads ?_
    refine Reads.bind (.require (hbody.part (by omega) _ rfl)) (Reads.step .expect ?_)
    refine Reads.bind (.require (hc.condition (by omega) _ rfl)) ?_
    exact Reads.last .expect (.pure _)
  exact Reads.nested <| statement_behind_names rfl <|
    .firstOf_none (Reads.look (opening_refuses rfl) (.pure none)) <|
    .firstOf_none (Reads.look (opening_refuses rfl) (.pure none)) <|
    .firstOf_none (Reads.look (opening_refuses rfl) (.pure none)) <|
    .firstOf_none (Reads.look (opening_refuses rfl) (.pure none)) <| .firstOf_some hwhile

/-- `for(body, init, condition, iteration)`. -/
theorem ReadsStatement.forLoop (hbody : ReadsStatement ts a) (hinit : ReadsStatement us b)
    (hc : ReadsAs 2 vs c) (hiteration : ReadsStatement ws e) :
    ReadsStatement (.keyword .forLoop :: wrappedTokens true (listedTokens [ts, us, vs, ws]))
      (.forLoop a b c e) := by
  have htokens : .keyword .forLoop :: wrappedTokens true (listedTokens [ts, us, vs, ws]) =
      [Token.keyword .forLoop, .symbol .openParenthesis] ++ (ts ++ Token.symbol .comma ::
        (us ++ Token.symbol .comma :: (vs ++ Token.symbol .comma ::
          (ws ++ [Token.symbol .closeParenthesis])))) := by
    simp [wrappedTokens, listedTokens]
  rw [htokens]
  intro n hn rest _
  simp only [List.length_append, List.length_cons, List.length_nil] at hn
  have hfor : Reads (forStatement (Nest.parserWithin n)) ([Token.keyword .forLoop,
      .symbol .openParenthesis] ++ (ts ++ Token.symbol .comma :: (us ++ Token.symbol .comma ::
        (vs ++ Token.symbol .comma :: (ws ++ [Token.symbol .closeParenthesis])))))
      rest (some (.forLoop a b c e)) := by
    refine Reads.bind opening_reads ?_
    refine Reads.bind (.require (hbody.part (by omega) _ rfl)) (Reads.step .expect ?_)
    refine Reads.bind (.require (hinit.part (by omega) _ rfl)) (Reads.step .expect ?_)
    refine Reads.bind (.require (hc.condition (by omega) _ rfl)) (Reads.step .expect ?_)
    refine Reads.bind (.require (hiteration.part (by omega) _ rfl)) ?_
    exact Reads.last .expect (.pure _)
  exact Reads.nested <| statement_behind_names rfl <|
    .firstOf_none (Reads.look (opening_refuses rfl) (.pure none)) <|
    .firstOf_none (Reads.look (opening_refuses rfl) (.pure none)) <|
    .firstOf_none (Reads.look (opening_refuses rfl) (.pure none)) <| .firstOf_some hfor

end Statements

end Formula

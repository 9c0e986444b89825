import Formula.Parse
import Formula.Proofs.Parse.Movement

/-!
# Backtracking leaves no trace

A construct's parser that finds nothing hands back the reader it was given, one that finds a tree
has consumed a token and closed every checkpoint it made, and one that fails has left every level
of nesting it entered. `Production.parser_traceless` says so for the whole grammar, in any state
of the reader and however many levels of nesting the recursion may still open. The constructs are
taken apart one by one with the rules of `Formula.Proofs.Parse.Movement`.
-/

namespace Formula

/-! ## The grammar -/

namespace Grammar

open Formula.Parser

variable {K : Type}

/-! ### Literals and names -/

/-- A number; a unit behind it belongs to it. -/
theorem number_decisive : (number : Parser K (Option (Expr K))).Decisive := by
  refine .bind_option (.take? _) (.pure rfl) fun _ => ?_
  refine .bind (Decisive.take? _).steady fun unit? => ?_
  cases unit? <;> exact .pure rfl

/-- A truth value. -/
theorem truth_decisive : (truth : Parser K (Option (Expr K))).Decisive := .map (.take? _)

/-- A string. -/
theorem text_decisive : (text : Parser K (Option (Expr K))).Decisive := .map (.take? _)

/-- A name is given back if a parenthesis follows it. -/
theorem variableName_decisive : (variableName : Parser K (Option String)).Decisive := by
  refine .speculate (.bind_option (.take? _) (.pure rfl) fun _ => Steady.get.bind fun r => ?_)
  split <;> exact .pure _

/-- The node of a call is built, or is an error. -/
theorem makeCall_steady (name : String) (arguments : List (Expr K)) :
    (makeCall name arguments).Steady := by
  unfold makeCall
  split
  · exact .build _
  · exact .pure _

/-- The names behind the first in a parameter list. -/
theorem moreNames_steady : ∀ count, (moreNames count : Parser K (Option (List String))).Steady
  | 0 => .pure _
  | count + 1 => .bind_bool (Decisive.symbol _).steady (.pure _) <|
      .bind_option variableName_decisive.steady (.pure _) fun _ =>
        .bind_option (moreNames_steady count) (.pure _) fun _ => .pure _

/-- The names in a parameter list. -/
theorem parameterNames_steady : (parameterNames : Parser K (Option (List String))).Steady :=
  .bind_option variableName_decisive.steady (.pure _) fun _ =>
    Steady.remaining.bind fun _ => (moreNames_steady _).bind fun _ => .pure _

/-- The head of a declaration is given back if it breaks off. -/
theorem declarationHead_decisive :
    (declarationHead : Parser K (Option (String × List String))).Decisive :=
  .speculate <| .bind_option (.take? _) (.pure rfl) fun _ =>
    .bind_bool (Decisive.symbol _).steady (.pure _) <|
      .bind_option parameterNames_steady (.pure _) fun _ =>
        .bind_bool (Decisive.symbol _).steady (.pure _) (.pure _)

/-- What a definition can bind. -/
theorem key_decisive : (key : Parser K (Option (Expr K))).Decisive :=
  .bind_option declarationHead_decisive (.map variableName_decisive) fun _ =>
    .bind (makeCall_steady _ _) fun _ => .pure rfl

/-- The factorial signs behind an operand. -/
theorem factorials_steady : ∀ count (e : Expr K), (factorials count e).Steady
  | 0, e => .pure e
  | count + 1, e =>
    .bind_bool (Decisive.symbol _).steady (.pure e) (factorials_steady count (.unary .factorial e))

/-- The step behind a variable. -/
theorem stepOf_decisive (e : Expr K) : (stepOf e).Decisive := by
  unfold stepOf
  split
  · exact .map (.take? _)
  · exact .pure rfl

/-- The operators of one precedence behind a left operand. -/
theorem chain_steady (precedence : Nat) {next : Parser K (Option (Expr K))} (hnext : next.Steady) :
    ∀ count (left : Expr K), (chain precedence next count left).Steady
  | 0, left => .pure left
  | count + 1, left => .bind_option (Decisive.take? _).steady (.pure left) fun _ =>
      .bind hnext.require fun _ => chain_steady precedence hnext count _

/-- Behind the keyword of a statement its parenthesis opens, or is missed. -/
theorem opening_decisive (word : Keyword) (construct : String) :
    (opening word construct : Parser K Bool).Decisive :=
  .bind_bool (.keyword word) (.pure rfl) <| .bind (.expect _ _) fun _ => .pure rfl

/-- `undef(key)`. -/
theorem undefine_decisive : (undefine : Parser K (Option (Expr K))).Decisive :=
  .bind_bool (opening_decisive _ _) (.pure rfl) <| .bind key_decisive.steady.require fun _ =>
    .bind (.expect _ _) fun _ => .bind (.build _) fun _ => .pure rfl

variable [Scalar K]

omit [Scalar K] in
/-- A magnitude is given back if no angle sign follows. -/
theorem polarMagnitude_decisive : (polarMagnitude : Parser K (Option K)).Decisive := by
  refine .speculate <| .bind (Decisive.symbol _).steady fun _ =>
    .bind_option (.take? _) (.pure rfl) fun _ => ?_
  exact .bind_bool (Decisive.symbol _).steady (.pure _) (.pure _)

/-- A complex number: behind the angle sign anything missing is an error. -/
theorem complexNumber_decisive : (complexNumber : Parser K (Option (Expr K))).Decisive := by
  refine .bind_option polarMagnitude_decisive (.pure rfl) fun _ => ?_
  refine .bind (Decisive.take? _).steady fun _ => .bind (Decisive.take? _).steady.require ?_
  exact fun _ => .bind (.expect _ _) fun _ => .pure rfl

/-! ### Operands -/

variable {self : Nest → Parser K (Option (Expr K))} (hself : ∀ n, (self n).Decisive)

include hself

omit [Scalar K]

/-- Expressions with commas between them. -/
theorem expressions_steady (construct : String) : (expressions self construct).Steady :=
  .bind_option (hself _).steady (.pure _) fun _ => Steady.remaining.bind fun _ =>
    (Steady.moreItems (hself _).steady.require _).bind fun _ => .pure _

/-- The arguments of a call. -/
theorem arguments_decisive : (arguments self).Decisive :=
  .bind_bool (.symbol _) (.pure rfl) <| .bind (expressions_steady hself _) fun _ =>
    .bind (.expect _ _) fun _ => .pure rfl

/-- A call or a variable. -/
theorem functionOrVariable_decisive : (functionOrVariable self).Decisive := by
  refine .bind_option (.take? _) (.pure rfl) fun _ =>
    .bind (arguments_decisive hself).steady fun arguments? => ?_
  cases arguments? with
  | none => exact .pure rfl
  | some _ => exact .bind (makeCall_steady _ _) fun _ => .pure rfl

/-- An expression in parentheses. -/
theorem parentheses_decisive : (parentheses self).Decisive :=
  .bind_bool (.symbol _) (.pure rfl) <| .bind (hself _).steady.require fun _ =>
    .bind (.expect _ _) fun _ => .pure rfl

/-- The elements of a vector. -/
theorem elements_decisive : (elements self).Decisive :=
  have item {error : Nat → ParseError} : (require error (self .expression)).Steady :=
    (hself _).steady.require
  .bind_bool (.symbol _) (.pure rfl) <| .bind item fun _ => .bind .remaining fun _ =>
    .bind (.moreItems item _) fun _ => .bind (.expect _ _) fun _ => .pure rfl

/-- A vector. -/
theorem vector_decisive : (vector self).Decisive := .map (elements_decisive hself)

/-- A first row: the brace in front is given back if no vector follows it. -/
theorem firstRow_decisive : (firstRow self).Decisive :=
  .speculate <| .bind_bool (.symbol _) (.pure rfl) (elements_decisive hself).steady

/-- A matrix. -/
theorem matrix_decisive : (matrix self).Decisive := by
  refine .bind_option (firstRow_decisive hself) (.pure rfl) fun _ => ?_
  exact .bind .remaining fun _ => .bind (.moreItems (elements_decisive hself).steady.require _)
    fun _ => .bind (.expect _ _) fun _ => .bind (.build _) fun _ => .pure rfl

variable [Scalar K]

/-- The alternatives of an operand. -/
theorem operands_decisive : ∀ p ∈ [complexNumber, number, functionOrVariable self, truth, text,
    parentheses self, matrix self, vector self], p.Decisive := by
  simp only [List.forall_mem_cons, List.not_mem_nil, false_imp_iff, implies_true, and_true]
  exact ⟨complexNumber_decisive, number_decisive, functionOrVariable_decisive hself,
    truth_decisive, text_decisive, parentheses_decisive hself, matrix_decisive hself,
    vector_decisive hself⟩

/-- What operators apply to. -/
theorem operand_decisive : (operand self).Decisive := .firstOf (operands_decisive hself)

/-! ### Operators -/

/-- An operand with postfixed operators. -/
theorem postfixed_decisive : (postfixed self).Decisive := by
  refine .bind_option (operand_decisive hself) (.pure rfl) fun e =>
    .bind (stepOf_decisive e).steady fun step? => ?_
  cases step? with
  | some _ => exact .pure rfl
  | none => exact .bind .remaining fun _ => .bind (factorials_steady _ e) fun _ => .pure rfl

/-- An operand and perhaps an exponent. -/
theorem power_decisive : (power self).Decisive := by
  refine .bind_option (postfixed_decisive hself) (.pure rfl) fun _ =>
    .bind (Decisive.symbol _).steady fun caret => ?_
  cases caret with
  | false => exact .pure rfl
  | true => exact .bind (hself _).steady.require fun _ => .pure rfl

/-- A prefixed operator is given back if no operand follows it. -/
theorem prefixed_decisive : (prefixed self).Decisive := by
  refine .get_bind fun r => ?_
  split
  · exact power_decisive hself
  · exact .speculate (.bind (Decisive.take? _).steady fun _ => (Decisive.map (hself _)).hesitant)

/-- The name behind a number in an implicit product. -/
theorem namedFactor_decisive : (namedFactor self).Decisive := by
  refine .bind_option (functionOrVariable_decisive hself) (.pure rfl) fun _ =>
    .bind (Decisive.symbol _).steady fun caret => ?_
  cases caret with
  | false => exact .pure rfl
  | true => exact .bind (power_decisive hself).steady.require fun _ => .pure rfl

/-- The alternatives of the right factor of an implicit product. -/
theorem factors_decisive : ∀ p ∈ [namedFactor self, parentheses self, matrix self, vector self],
    p.Decisive := by
  simp only [List.forall_mem_cons, List.not_mem_nil, false_imp_iff, implies_true, and_true]
  exact ⟨namedFactor_decisive hself, parentheses_decisive hself, matrix_decisive hself,
    vector_decisive hself⟩

/-- A number is given back if no factor follows it. -/
theorem numberTimes_decisive : (numberTimes self).Decisive :=
  .speculate <| .bind (Decisive.symbol _).steady fun _ =>
    .bind_option number_decisive (.pure rfl) fun _ =>
      .bind_option (Decisive.firstOf (factors_decisive hself)).steady (.pure _) fun _ => .pure _

/-- The alternatives of a factor. -/
theorem products_decisive : ∀ p ∈ [numberTimes self, self .prefixed], p.Decisive := by
  simp only [List.forall_mem_cons, List.not_mem_nil, false_imp_iff, implies_true, and_true]
  exact ⟨numberTimes_decisive hself, hself _⟩

/-- An implicit product or a prefixed operand. -/
theorem implicitProduct_decisive : (implicitProduct self).Decisive :=
  .firstOf (products_decisive hself)

/-- Operators of the given precedences. -/
theorem ladder_decisive : ∀ precedences, (ladder self precedences).Decisive
  | [] => implicitProduct_decisive hself
  | _ :: tighter => .bind_option (ladder_decisive tighter) (.pure rfl) fun _ =>
      .bind .remaining fun _ => .bind (chain_steady _ (ladder_decisive tighter).steady _ _)
        fun _ => .pure rfl

/-- A condition with its branches. -/
theorem conditional_decisive : (conditional self).Decisive := by
  refine .bind_option (ladder_decisive hself _) (.pure rfl) fun _ =>
    .bind (Decisive.symbol _).steady fun question => ?_
  cases question with
  | false => exact .pure rfl
  | true =>
    exact .bind (hself _).steady.require fun _ => .bind (.expect _ _) fun _ =>
      .bind (hself _).steady.require fun _ => .pure rfl

/-! ### Statements -/

omit hself [Scalar K] in
/-- The variable of an assignment is given back if no operator follows it. -/
theorem assignmentHead_decisive :
    (assignmentHead : Parser K (Option (AssignOp × String))).Decisive :=
  .speculate <| .bind_option variableName_decisive (.pure rfl) fun _ =>
    .bind (Decisive.take? _).steady fun _ => .pure _

omit [Scalar K] in
/-- A compound assignment. -/
theorem compoundAssignment_decisive : (compoundAssignment self).Decisive :=
  .bind_option assignmentHead_decisive (.pure rfl) fun _ =>
    .bind (hself _).steady.require fun _ => .pure rfl

omit hself [Scalar K] in
/-- The key of a definition is given back if the sign does not follow it. -/
theorem definitionKey_decisive : (definitionKey : Parser K (Option (Expr K))).Decisive :=
  .speculate <| .bind_option key_decisive (.pure rfl) fun _ =>
    .bind_bool (Decisive.symbol _).steady (.pure _) (.pure _)

omit [Scalar K] in
/-- A definition. -/
theorem definition_decisive : (definition self).Decisive :=
  .bind_option definitionKey_decisive (.pure rfl) fun _ =>
    .bind (hself _).steady.require fun _ => .bind (.build _) fun _ => .pure rfl

omit [Scalar K] in
/-- `def(key, value)`. -/
theorem define_decisive : (define self).Decisive :=
  .bind_bool (opening_decisive _ _) (.pure rfl) <| .bind key_decisive.steady.require fun _ =>
    .bind (.expect _ _) fun _ => .bind (hself _).steady.require fun _ =>
      .bind (.expect _ _) fun _ => .bind (.build _) fun _ => .pure rfl

/-- `if(condition, yes)` and `if(condition, yes, no)`. -/
theorem ifStatement_decisive : (ifStatement self).Decisive := by
  refine .bind_bool (opening_decisive _ _) (.pure rfl) <|
    .bind (ladder_decisive hself _).steady.require fun _ => .bind (.expect _ _) fun _ =>
      .bind (hself _).steady.require fun _ => .bind (Decisive.symbol _).steady fun comma => ?_
  cases comma with
  | false => exact .bind (.expect _ _) fun _ => .pure rfl
  | true => exact .bind (hself _).steady.require fun _ => .bind (.expect _ _) fun _ => .pure rfl

/-- `for(body, init, condition, iteration)`. -/
theorem forStatement_decisive : (forStatement self).Decisive :=
  .bind_bool (opening_decisive _ _) (.pure rfl) <| .bind (hself _).steady.require fun _ =>
    .bind (.expect _ _) fun _ => .bind (hself _).steady.require fun _ =>
      .bind (.expect _ _) fun _ => .bind (ladder_decisive hself _).steady.require fun _ =>
        .bind (.expect _ _) fun _ => .bind (hself _).steady.require fun _ =>
          .bind (.expect _ _) fun _ => .pure rfl

/-- `while(body, condition)`. -/
theorem whileStatement_decisive : (whileStatement self).Decisive :=
  .bind_bool (opening_decisive _ _) (.pure rfl) <| .bind (hself _).steady.require fun _ =>
    .bind (.expect _ _) fun _ => .bind (ladder_decisive hself _).steady.require fun _ =>
      .bind (.expect _ _) fun _ => .pure rfl

/-- The alternatives of a statement. -/
theorem statements_decisive : ∀ p ∈ [compoundAssignment self, definition self, define self,
    undefine, ifStatement self, forStatement self, whileStatement self, self .expression],
    p.Decisive := by
  simp only [List.forall_mem_cons, List.not_mem_nil, false_imp_iff, implies_true, and_true]
  exact ⟨compoundAssignment_decisive hself, definition_decisive hself, define_decisive hself,
    undefine_decisive, ifStatement_decisive hself, forStatement_decisive hself,
    whileStatement_decisive hself, hself _⟩

/-- The alternatives of an expression. -/
theorem expressions_decisive : ∀ p ∈ [compoundAssignment self, conditional self], p.Decisive := by
  simp only [List.forall_mem_cons, List.not_mem_nil, false_imp_iff, implies_true, and_true]
  exact ⟨compoundAssignment_decisive hself, conditional_decisive hself⟩

/-- The body of a nested construct. -/
theorem nest_decisive (n : Nest) : (nest self n).Decisive := by
  cases n with
  | statement => exact .firstOf (statements_decisive hself)
  | expression => exact .firstOf (expressions_decisive hself)
  | prefixed => exact prefixed_decisive hself

end Grammar

/-! ## The whole grammar -/

open Formula.Parser Verdict

variable {K : Type} [Scalar K]

/-- The recursion of the grammar keeps every nested construct decisive. -/
theorem Nest.parserWithin_decisive :
    ∀ levels (n : Nest), (n.parserWithin levels : Parser K (Option (Expr K))).Decisive
  | 0, _ => .pure rfl
  | levels + 1, n => .nested (Grammar.nest_decisive (parserWithin_decisive levels) n)

/-- Every construct over decisive parsers of the nested ones is decisive. -/
theorem Production.rule_decisive {self : Nest → Parser K (Option (Expr K))}
    (hself : ∀ n, (self n).Decisive) (p : Production) : (p.rule self).Decisive := by
  cases p with
  | statement | expression | prefixed => exact hself _
  | compoundAssignment => exact Grammar.compoundAssignment_decisive hself
  | definition => exact Grammar.definition_decisive hself
  | define => exact Grammar.define_decisive hself
  | undefine => exact Grammar.undefine_decisive
  | ifStatement => exact Grammar.ifStatement_decisive hself
  | forStatement => exact Grammar.forStatement_decisive hself
  | whileStatement => exact Grammar.whileStatement_decisive hself
  | conditional => exact Grammar.conditional_decisive hself
  | binary => exact Grammar.ladder_decisive hself _
  | implicitProduct => exact Grammar.implicitProduct_decisive hself
  | power => exact Grammar.power_decisive hself
  | postfixed => exact Grammar.postfixed_decisive hself
  | operand => exact Grammar.operand_decisive hself
  | number => exact Grammar.number_decisive
  | complexNumber => exact Grammar.complexNumber_decisive
  | functionOrVariable => exact Grammar.functionOrVariable_decisive hself
  | parentheses => exact Grammar.parentheses_decisive hself
  | vector => exact Grammar.vector_decisive hself
  | matrix => exact Grammar.matrix_decisive hself

/-- What a run of a parser from `r` on leaves behind: nothing found leaves no trace, a tree found
has consumed tokens that are there and closed every checkpoint and level of nesting that was opened
for it, and an error has closed every level of nesting. -/
def Reader.Traceless {α : Type} (r : Reader K) :
    Except ParseError (Option α) × Reader K → Prop
  | (.ok none, after) =>
    after.position = r.position ∧ after.checkpoints = r.checkpoints ∧ after.depth = r.depth
  | (.ok (some _), after) =>
    r.position < after.position ∧ after.position ≤ r.tokens.size ∧
      after.checkpoints = r.checkpoints ∧ after.depth = r.depth
  | (.error _, after) => after.depth = r.depth

omit [Scalar K] in
/-- The run of a decisive parser is traceless. -/
theorem Parser.Decisive.traceless {α : Type} {p : Parser K (Option α)} (hp : p.Decisive)
    (r : Reader K) : r.Traceless (p.run r) := by
  have h := hp r
  rcases hr : p.run r with ⟨e | _ | a, s⟩ <;> rw [hr] at h
  · exact h
  · obtain rfl : s = r := h
    exact ⟨rfl, rfl, rfl⟩
  · obtain ⟨n, hn, h0, rfl⟩ : r.Advances s := h
    rw [Reader.remaining] at hn
    exact ⟨by simp [h0], by simp only [Reader.skip_position]; omega, rfl, rfl⟩

/-- The parser of a construct opens as many levels as the tokens that are left can need. -/
theorem Production.parser_run (p : Production) (r : Reader K) :
    (p.parser : Parser K (Option (Expr K))).run r =
      (p.rule (Nest.parserWithin (nestingBudget r.remaining))).run r := by
  have hremaining : (remaining : Parser K Nat).run r = (.ok r.remaining, r) := rfl
  rw [Production.parser, run_bind_ok hremaining]

/-- **Backtracking leaves no trace.** Every construct of the grammar, from any state of the reader,
leaves the reader as `Reader.Traceless` says, for the parser of the construct and for any number of
levels its recursion may open. -/
theorem Production.parser_traceless (p : Production) (r : Reader K) :
    r.Traceless ((p.parser : Parser K (Option (Expr K))).run r) ∧
      ∀ levels, r.Traceless ((p.rule (Nest.parserWithin levels)).run r) := by
  have hrule (levels : Nat) : r.Traceless ((p.rule (Nest.parserWithin levels)).run r) :=
    (p.rule_decisive (Nest.parserWithin_decisive levels)).traceless r
  refine ⟨?_, hrule⟩
  rw [p.parser_run]
  exact hrule _

end Formula

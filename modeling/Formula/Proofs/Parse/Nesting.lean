import Formula.Proofs.Parse.Backtracking
import Formula.Proofs.Parse.Tracking

/-!
# How deep a formula nests

The grammar opens at most three levels of nesting in front of one token, a statement, an expression
and a prefixed operand, and every further level stands behind a token that makes room for two
(`Nest.height`). `Nest.parserWithin_tracks` compares the grammar with one whose recursion is cut off
somewhere else, within another limit: below `2 * tokens + 3` levels neither cut is ever reached, and
a stricter limit turns a result into the error `nestingTooDeep` or leaves it as it is.
-/

namespace Formula

open Formula.Parser Formula.Grammar

/-- The levels of nesting that a construct opens in front of its first token, its own included. -/
def Nest.height : Nest → Nat
  | .statement => 3
  | .expression => 2
  | .prefixed => 1

namespace Grammar

variable {K : Type} {low high : Option Nat} {bound : Nat}

/-! ## Constructs without nested ones -/

theorem number_limitless : (number : Parser K (Option (Expr K))).Limitless := by
  refine .bind_option (.take? _) (.pure none) fun _ => .bind (.take? _) fun unit? => ?_
  cases unit? <;> exact .pure _

theorem truth_limitless : (truth : Parser K (Option (Expr K))).Limitless := .map (.take? _)

theorem text_limitless : (text : Parser K (Option (Expr K))).Limitless := .map (.take? _)

theorem variableName_limitless : (variableName : Parser K (Option String)).Limitless := by
  refine .speculate (.bind_option (.take? _) (.pure none) fun name low high levels r => .inspect ?_)
  have hpeek (limit? : Option Nat) : (r.within limit?).peek? = r.peek? := rfl
  simp only [hpeek]
  split <;> exact .pure _

theorem makeCall_limitless (name : String) (arguments : List (Expr K)) :
    (makeCall name arguments).Limitless := by
  unfold makeCall
  split
  · exact .build _
  · exact .pure _

theorem moreNames_limitless : ∀ count, (moreNames count : Parser K (Option (List String))).Limitless
  | 0 => .pure _
  | count + 1 => .bind_bool (.symbol _) (.pure _) <|
      .bind_option variableName_limitless (.pure _) fun _ =>
        .bind_option (moreNames_limitless count) (.pure _) fun _ => .pure _

theorem parameterNames_limitless :
    (parameterNames : Parser K (Option (List String))).Limitless :=
  .bind_option variableName_limitless (.pure _) fun _ =>
    .bind .remaining fun _ => .map (moreNames_limitless _)

theorem declarationHead_limitless :
    (declarationHead : Parser K (Option (String × List String))).Limitless :=
  .speculate <| .bind_option (.take? _) (.pure _) fun _ => .bind_bool (.symbol _) (.pure _) <|
    .bind_option parameterNames_limitless (.pure _) fun _ =>
      .bind_bool (.symbol _) (.pure _) (.pure _)

theorem key_limitless : (key : Parser K (Option (Expr K))).Limitless :=
  .bind_option declarationHead_limitless (.map variableName_limitless) fun _ =>
    .bind (makeCall_limitless _ _) fun _ => .pure _

theorem factorials_limitless : ∀ count (e : Expr K), (factorials count e).Limitless
  | 0, e => .pure e
  | count + 1, e =>
    .bind_bool (.symbol _) (.pure e) (factorials_limitless count (.unary .factorial e))

theorem stepOf_limitless (e : Expr K) : (stepOf e).Limitless := by
  unfold stepOf
  split
  · exact .map (.take? _)
  · exact .pure _

theorem opening_limitless (word : Keyword) (construct : String) :
    (opening word construct : Parser K Bool).Limitless :=
  .bind_bool (.accept _) (.pure _) (.bind (.expect _ _) fun _ => .pure _)

theorem undefine_limitless : (undefine : Parser K (Option (Expr K))).Limitless :=
  .bind_bool (opening_limitless _ _) (.pure _) <| .bind key_limitless.require fun _ =>
    .bind (.expect _ _) fun _ => .bind (.build _) fun _ => .pure _

theorem assignmentHead_limitless :
    (assignmentHead : Parser K (Option (AssignOp × String))).Limitless :=
  .speculate <| .bind_option variableName_limitless (.pure _) fun _ => .map (.take? _)

theorem definitionKey_limitless : (definitionKey : Parser K (Option (Expr K))).Limitless :=
  .speculate <| .bind_option key_limitless (.pure _) fun _ =>
    .bind_bool (.symbol _) (.pure _) (.pure _)

theorem polarMagnitude_limitless : (polarMagnitude : Parser K (Option K)).Limitless :=
  .speculate <| .bind (.symbol _) fun _ => .bind_option (.take? _) (.pure _) fun _ =>
    .bind_bool (.symbol _) (.pure _) (.pure _)

theorem complexNumber_limitless [Scalar K] :
    (complexNumber : Parser K (Option (Expr K))).Limitless :=
  .bind_option polarMagnitude_limitless (.pure _) fun _ => .bind (.take? _) fun _ =>
    .bind (.require (.take? _)) fun _ => .bind (.expect _ _) fun _ => .pure _

/-! ## Constructs over nested ones -/

/-- The nested constructs of two grammars agree where there is room for their height. -/
structure SelfTracks (low high : Option Nat) (bound : Nat)
    (nested others : Nest → Parser K (Option (Expr K))) : Prop where
  decisive : ∀ n, (nested n).Decisive
  tracks : ∀ n, Tracks low high bound n.height (nested n) (others n)

variable {self other : Nest → Parser K (Option (Expr K))}
  (hself : SelfTracks low high bound self other)

include hself

/-! ### Operands -/

/-- A required expression. -/
theorem item_tracks (error : Nat → ParseError) [Syntactic error] : Tracks low high bound 2
    (require error (self .expression)) (require error (other .expression)) :=
  .require (hself.decisive _).steady (hself.tracks .expression)

theorem expressions_tracks (construct : String) :
    Tracks low high bound 2 (expressions self construct) (expressions other construct) := by
  refine .bind_option (hself.decisive _) (hself.tracks .expression) (.pure _) fun _ => ?_
  refine .bind .remaining Limitless.remaining.tracks fun _ => ?_
  have hsteady {error : Nat → ParseError} : (require error (self .expression)).Steady :=
    (hself.decisive _).steady.require
  have hitem := (item_tracks hself (.missingExpression construct)).mono (by decide : 2 ≤ 6)
  exact .bind (.moreItems hsteady _) (.moreItems hsteady hitem _) fun _ => .pure _

theorem arguments_tracks : Tracks low high bound 0 (arguments self) (arguments other) :=
  .bind_bool (.symbol _) (Limitless.symbol _).tracks (.pure _) <|
    .bind (expressions_steady hself.decisive _) (expressions_tracks hself _) fun _ =>
      .bind (.expect _ _) (Limitless.expect _ _).tracks fun _ => .pure _

theorem functionOrVariable_tracks :
    Tracks low high bound 0 (functionOrVariable self) (functionOrVariable other) := by
  refine .bind_option (.take? _) (Limitless.take? _).tracks (.pure _) fun _ => ?_
  refine .bind (arguments_decisive hself.decisive).steady
    ((arguments_tracks hself).mono (Nat.zero_le _)) fun arguments? => ?_
  cases arguments? with
  | none => exact .pure _
  | some found =>
    exact .bind (makeCall_steady _ _) (makeCall_limitless _ _).tracks fun _ => .pure _

theorem parentheses_tracks : Tracks low high bound 0 (parentheses self) (parentheses other) :=
  .bind_bool (.symbol _) (Limitless.symbol _).tracks (.pure _) <|
    .bind (hself.decisive _).steady.require (item_tracks hself _) fun _ =>
      .bind (.expect _ _) (Limitless.expect _ _).tracks fun _ => .pure _

theorem elements_tracks : Tracks low high bound 0 (elements self) (elements other) := by
  refine .bind_bool (.symbol _) (Limitless.symbol _).tracks (.pure _) ?_
  have hsteady {error : Nat → ParseError} : (require error (self .expression)).Steady :=
    (hself.decisive _).steady.require
  have hitem := item_tracks hself (.missingExpression "vector")
  refine .bind hsteady hitem fun _ => .bind .remaining Limitless.remaining.tracks fun _ => ?_
  have hmore := Tracks.moreItems hsteady (hitem.mono (by decide : 2 ≤ 2 + 2))
  exact .bind (.moreItems hsteady _) (hmore _) fun _ =>
    .bind (.expect _ _) (Limitless.expect _ _).tracks fun _ => .pure _

theorem vector_tracks : Tracks low high bound 0 (vector self) (vector other) :=
  .map (elements_decisive hself.decisive).steady (elements_tracks hself)

theorem firstRow_tracks : Tracks low high bound 0 (firstRow self) (firstRow other) :=
  .speculate <| .bind_bool (.symbol _) (Limitless.symbol _).tracks (.pure _) <|
    (elements_tracks hself).mono (Nat.zero_le _)

theorem matrix_tracks : Tracks low high bound 0 (matrix self) (matrix other) := by
  refine .bind_option (firstRow_decisive hself.decisive) (firstRow_tracks hself) (.pure _)
    fun _ => .bind .remaining Limitless.remaining.tracks fun _ => ?_
  have hsteady {error : Nat → ParseError} : (require error (elements self)).Steady :=
    (elements_decisive hself.decisive).steady.require
  have hrow : Tracks low high bound 4 (require (.missingExpression "matrix") (elements self))
      (require (.missingExpression "matrix") (elements other)) :=
    .require (elements_decisive hself.decisive).steady
      ((elements_tracks hself).mono (Nat.zero_le _))
  exact .bind (.moreItems hsteady _) (.moreItems hsteady hrow _) fun _ =>
    .bind (.expect _ _) (Limitless.expect _ _).tracks fun _ =>
      .bind (.build _) (Limitless.build _).tracks fun _ => .pure _

variable [Scalar K]

theorem operand_tracks : Tracks low high bound 0 (operand self) (operand other) :=
  .firstOf_cons complexNumber_decisive.steady complexNumber_limitless.tracks <|
    .firstOf_cons number_decisive.steady number_limitless.tracks <|
    .firstOf_cons (functionOrVariable_decisive hself.decisive).steady
      (functionOrVariable_tracks hself) <|
    .firstOf_cons truth_decisive.steady truth_limitless.tracks <|
    .firstOf_cons text_decisive.steady text_limitless.tracks <|
    .firstOf_cons (parentheses_decisive hself.decisive).steady (parentheses_tracks hself) <|
    .firstOf_cons (matrix_decisive hself.decisive).steady (matrix_tracks hself) <|
    .firstOf_cons (vector_decisive hself.decisive).steady (vector_tracks hself) .firstOf_nil

/-! ### Operators -/

theorem postfixed_tracks : Tracks low high bound 0 (postfixed self) (postfixed other) := by
  refine .bind_option (operand_decisive hself.decisive) (operand_tracks hself) (.pure _)
    fun e => ?_
  refine .bind (stepOf_decisive e).steady (stepOf_limitless e).tracks fun step? => ?_
  cases step? with
  | some step => exact .pure _
  | none =>
    exact .bind .remaining Limitless.remaining.tracks fun _ =>
      .bind (factorials_steady _ e) (factorials_limitless _ e).tracks fun _ => .pure _

/-- An operand with an exponent of any sort behind it. -/
theorem power_tracks : Tracks low high bound 0 (power self) (power other) := by
  refine .bind_option (postfixed_decisive hself.decisive) (postfixed_tracks hself) (.pure _)
    fun _ => .bind (Decisive.symbol _).steady (Limitless.symbol _).tracks fun caret => ?_
  have hexponent := (hself.tracks .prefixed).mono (by decide : 1 ≤ 2)
  cases caret with
  | false => exact .pure _
  | true =>
    exact .bind (hself.decisive _).steady.require
      (.require (hself.decisive _).steady hexponent) fun _ => .pure _

/-- A prefixed operator is there to be consumed where the parser looks behind it. -/
theorem prefixed_tracks : Tracks low high bound 0 (prefixed self) (prefixed other) := by
  intro r hr
  refine .inspect ?_
  have hpeek (limit? : Option Nat) : (r.within limit?).peek? = r.peek? := rfl
  simp only [hpeek]
  cases happly : r.peek?.bind prefixed? with
  | none => exact power_tracks hself r hr
  | some apply =>
    refine .speculate (.bind_take? (a := apply) happly fun s hlt hdepth => ?_)
    have hmark : r.mark.2.remaining = r.remaining := rfl
    have hoperand := hself.tracks .prefixed s (by simp only [Nest.height]; omega)
    have hsame : s.depth = r.depth := hdepth
    exact hsame ▸ hoperand.bind fun _ _ _ => .pure _

theorem namedFactor_tracks : Tracks low high bound 0 (namedFactor self) (namedFactor other) := by
  refine .bind_option (functionOrVariable_decisive hself.decisive) (functionOrVariable_tracks hself)
    (.pure _) fun _ => ?_
  refine .bind (Decisive.symbol _).steady (Limitless.symbol _).tracks fun caret => ?_
  have hexponent := (power_tracks hself).mono (Nat.zero_le 2)
  cases caret with
  | false => exact .pure _
  | true =>
    exact .bind (power_decisive hself.decisive).steady.require
      (.require (power_decisive hself.decisive).steady hexponent) fun _ => .pure _

theorem numberTimes_tracks : Tracks low high bound 0 (numberTimes self) (numberTimes other) := by
  refine .speculate <| .bind (Decisive.symbol _).steady (Limitless.symbol _).tracks fun _ => ?_
  have hfactor : Tracks low high bound 0
      (firstOf [namedFactor self, parentheses self, matrix self, vector self])
      (firstOf [namedFactor other, parentheses other, matrix other, vector other]) :=
    .firstOf_cons (namedFactor_decisive hself.decisive).steady (namedFactor_tracks hself) <|
      .firstOf_cons (parentheses_decisive hself.decisive).steady (parentheses_tracks hself) <|
      .firstOf_cons (matrix_decisive hself.decisive).steady (matrix_tracks hself) <|
      .firstOf_cons (vector_decisive hself.decisive).steady (vector_tracks hself) .firstOf_nil
  have hdecisive :
      (firstOf [namedFactor self, parentheses self, matrix self, vector self]).Decisive :=
    .firstOf <| by
      simp only [List.forall_mem_cons, List.not_mem_nil, false_imp_iff, implies_true, and_true]
      exact ⟨namedFactor_decisive hself.decisive, parentheses_decisive hself.decisive,
        matrix_decisive hself.decisive, vector_decisive hself.decisive⟩
  refine .bind_option number_decisive number_limitless.tracks (.pure _) fun _ => ?_
  exact .bind hdecisive.steady (hfactor.mono (Nat.zero_le _)) fun
    | none => .pure _
    | some _ => .pure _

theorem implicitProduct_tracks :
    Tracks low high bound 1 (implicitProduct self) (implicitProduct other) :=
  .firstOf_cons (numberTimes_decisive hself.decisive).steady
    ((numberTimes_tracks hself).mono (Nat.zero_le _)) <|
    .firstOf_cons (hself.decisive _).steady (hself.tracks .prefixed) .firstOf_nil

omit hself [Scalar K] in
theorem chain_tracks (precedence : Nat) {next next' : Parser K (Option (Expr K))}
    (hsteady : next.Steady) (hnext : Tracks low high bound 1 next next') : ∀ count (left : Expr K),
      Tracks low high bound 1 (chain precedence next count left) (chain precedence next' count left)
  | 0, left => .pure left
  | count + 1, left => by
    refine .bind_option (.take? _) (Limitless.take? _).tracks (.pure left) fun op => ?_
    have hright := hnext.mono (by decide : 1 ≤ 3)
    refine .bind hsteady.require (.require hsteady hright) fun right => ?_
    exact (chain_tracks precedence hsteady hnext count _).mono (by decide)

theorem ladder_tracks : ∀ precedences,
    Tracks low high bound 1 (ladder self precedences) (ladder other precedences)
  | [] => implicitProduct_tracks hself
  | precedence :: tighter => by
    have hsteady := (ladder_decisive hself.decisive tighter).steady
    refine .bind hsteady (ladder_tracks tighter) fun | none => .pure _ | some left => ?_
    refine .bind .remaining Limitless.remaining.tracks fun _ => ?_
    exact .bind (chain_steady precedence hsteady _ left)
      (chain_tracks precedence hsteady (ladder_tracks tighter) _ left) fun _ => .pure _

theorem conditional_tracks : Tracks low high bound 1 (conditional self) (conditional other) := by
  refine .bind_option (ladder_decisive hself.decisive _) (ladder_tracks hself _) (.pure _)
    fun _ => .bind (Decisive.symbol _).steady (Limitless.symbol _).tracks fun question => ?_
  have hbranch (error : Nat → ParseError) [Syntactic error] :=
    (item_tracks hself error).mono (by decide : 2 ≤ 3)
  cases question with
  | false => exact .pure _
  | true =>
    exact .bind (hself.decisive _).steady.require (hbranch _) fun _ =>
      .bind (.expect _ _) (Limitless.expect _ _).tracks fun _ =>
        .bind (hself.decisive _).steady.require (hbranch _) fun _ => .pure _

/-! ### Statements -/

omit [Scalar K] in
theorem compoundAssignment_tracks :
    Tracks low high bound 0 (compoundAssignment self) (compoundAssignment other) :=
  .bind_option assignmentHead_decisive assignmentHead_limitless.tracks (.pure _) fun _ =>
    .bind (hself.decisive _).steady.require (item_tracks hself _) fun _ => .pure _

omit [Scalar K] in
theorem definition_tracks : Tracks low high bound 0 (definition self) (definition other) :=
  .bind_option definitionKey_decisive definitionKey_limitless.tracks (.pure _) fun _ =>
    .bind (hself.decisive _).steady.require (item_tracks hself _) fun _ =>
      .bind (.build _) (Limitless.build _).tracks fun _ => .pure _

omit [Scalar K] in
theorem define_tracks : Tracks low high bound 0 (define self) (define other) :=
  .bind_bool (opening_decisive _ _) (opening_limitless _ _).tracks (.pure _) <|
    .bind key_decisive.steady.require key_limitless.require.tracks fun _ =>
      .bind (.expect _ _) (Limitless.expect _ _).tracks fun _ =>
        .bind (hself.decisive _).steady.require (item_tracks hself _) fun _ =>
          .bind (.expect _ _) (Limitless.expect _ _).tracks fun _ =>
            .bind (.build _) (Limitless.build _).tracks fun _ => .pure _

/-- A condition that has to be there. -/
theorem condition_tracks (error : Nat → ParseError) [Syntactic error] :
    Tracks low high bound 2 (require error (condition self)) (require error (condition other)) :=
  .require (ladder_decisive hself.decisive _).steady ((ladder_tracks hself _).mono (by decide))

theorem ifStatement_tracks : Tracks low high bound 0 (ifStatement self) (ifStatement other) := by
  refine .bind_bool (opening_decisive _ _) (opening_limitless _ _).tracks (.pure _) <|
    .bind (ladder_decisive hself.decisive _).steady.require (condition_tracks hself _) fun _ =>
      .bind (.expect _ _) (Limitless.expect _ _).tracks fun _ =>
        .bind (hself.decisive _).steady.require (item_tracks hself _) fun _ =>
          .bind (Decisive.symbol _).steady (Limitless.symbol _).tracks fun comma => ?_
  cases comma with
  | false => exact .bind (.expect _ _) (Limitless.expect _ _).tracks fun _ => .pure _
  | true =>
    exact .bind (hself.decisive _).steady.require (item_tracks hself _) fun _ =>
      .bind (.expect _ _) (Limitless.expect _ _).tracks fun _ => .pure _

omit [Scalar K] in
/-- A statement as a part of a loop, behind the keyword of the loop. -/
theorem part_tracks (error : Nat → ParseError) [Syntactic error] : Tracks low high bound 4
    (require error (self .statement)) (require error (other .statement)) :=
  .require (hself.decisive _).steady ((hself.tracks .statement).mono (by decide))

theorem forStatement_tracks : Tracks low high bound 2 (forStatement self) (forStatement other) := by
  have hcondition {error : Nat → ParseError} [Syntactic error] :=
    (condition_tracks hself error).mono (by decide : 2 ≤ 4)
  exact .bind_bool (opening_decisive _ _) (opening_limitless _ _).tracks (.pure _) <|
    .bind (hself.decisive _).steady.require (part_tracks hself _) fun _ =>
      .bind (.expect _ _) (Limitless.expect _ _).tracks fun _ =>
        .bind (hself.decisive _).steady.require (part_tracks hself _) fun _ =>
          .bind (.expect _ _) (Limitless.expect _ _).tracks fun _ =>
            .bind (ladder_decisive hself.decisive _).steady.require hcondition fun _ =>
              .bind (.expect _ _) (Limitless.expect _ _).tracks fun _ =>
                .bind (hself.decisive _).steady.require (part_tracks hself _) fun _ =>
                  .bind (.expect _ _) (Limitless.expect _ _).tracks fun _ => .pure _

theorem whileStatement_tracks :
    Tracks low high bound 2 (whileStatement self) (whileStatement other) := by
  have hcondition {error : Nat → ParseError} [Syntactic error] :=
    (condition_tracks hself error).mono (by decide : 2 ≤ 4)
  exact .bind_bool (opening_decisive _ _) (opening_limitless _ _).tracks (.pure _) <|
    .bind (hself.decisive _).steady.require (part_tracks hself _) fun _ =>
      .bind (.expect _ _) (Limitless.expect _ _).tracks fun _ =>
        .bind (ladder_decisive hself.decisive _).steady.require hcondition fun _ =>
          .bind (.expect _ _) (Limitless.expect _ _).tracks fun _ => .pure _

/-- Inside a nested construct there is room for one level less than its height. -/
theorem nest_tracks (n : Nest) :
    Tracks low high bound (n.height - 1) (nest self n) (nest other n) := by
  cases n with
  | statement =>
    exact .firstOf_cons (compoundAssignment_decisive hself.decisive).steady
      ((compoundAssignment_tracks hself).mono (Nat.zero_le _)) <|
      .firstOf_cons (definition_decisive hself.decisive).steady
        ((definition_tracks hself).mono (Nat.zero_le _)) <|
      .firstOf_cons (define_decisive hself.decisive).steady
        ((define_tracks hself).mono (Nat.zero_le _)) <|
      .firstOf_cons undefine_decisive.steady undefine_limitless.tracks <|
      .firstOf_cons (ifStatement_decisive hself.decisive).steady
        ((ifStatement_tracks hself).mono (Nat.zero_le _)) <|
      .firstOf_cons (forStatement_decisive hself.decisive).steady (forStatement_tracks hself) <|
      .firstOf_cons (whileStatement_decisive hself.decisive).steady (whileStatement_tracks hself) <|
      .firstOf_cons (hself.decisive _).steady (hself.tracks .expression) .firstOf_nil
  | expression =>
    exact .firstOf_cons (compoundAssignment_decisive hself.decisive).steady
      ((compoundAssignment_tracks hself).mono (Nat.zero_le _)) <|
      .firstOf_cons (conditional_decisive hself.decisive).steady (conditional_tracks hself)
        .firstOf_nil
  | prefixed => exact prefixed_tracks hself

end Grammar

/-! ## The whole grammar -/

variable {K : Type} [Scalar K]

/-- The parser of a nested construct with `levels` levels below it, and something else below
these. -/
def Nest.unrolled (bottom : Nest → Parser K (Option (Expr K))) :
    (levels : Nat) → Nest → Parser K (Option (Expr K))
  | 0, n => bottom n
  | levels + 1, n => nested (nest (unrolled bottom levels) n)

variable {low high : Option Nat} {bottom : Nest → Parser K (Option (Expr K))}

/-- The parser of a nested construct ends its recursion with nothing found. -/
theorem Nest.unrolled_nothing (levels : Nat) :
    unrolled (fun _ => return none) levels = (parserWithin levels : Nest → Parser K _) := by
  induction levels with
  | zero => rfl
  | succ levels ih =>
    funext n
    rw [unrolled, parserWithin, ih]

/-- On readers with room below the bound the recursion ends before it is cut off, whatever stands at
the cut, and a stricter limit changes nothing but to be reached. -/
theorem Nest.parserWithin_tracks (hlimits : Limits low high) (bound : Nat) :
    ∀ {levels levels' : Nat}, bound ≤ levels → bound ≤ levels' → ∀ n : Nest,
      Tracks low high bound n.height (n.parserWithin levels : Parser K (Option (Expr K)))
        (n.unrolled bottom levels') := by
  induction bound with
  | zero =>
    intro levels levels' _ _ n r hr
    cases n <;> simp [height] at hr
  | succ bound ih =>
    intro levels levels' hlevels hlevels' n
    obtain ⟨levels, rfl⟩ := Nat.exists_eq_succ_of_ne_zero (Nat.ne_zero_of_lt hlevels)
    obtain ⟨levels', rfl⟩ := Nat.exists_eq_succ_of_ne_zero (Nat.ne_zero_of_lt hlevels')
    have hself : SelfTracks low high bound (Nest.parserWithin levels : Nest → Parser K _)
        (Nest.unrolled bottom levels') :=
      ⟨Nest.parserWithin_decisive levels,
        ih (Nat.le_of_succ_le_succ hlevels) (Nat.le_of_succ_le_succ hlevels')⟩
    have hnested := (nest_tracks hself n).nested hlimits
    have hheight : n.height - 1 + 1 = n.height := by cases n <;> rfl
    rwa [hheight] at hnested

end Formula

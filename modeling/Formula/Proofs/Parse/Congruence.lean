import Formula.Parse
import Mathlib.Data.List.Forall2

/-!
# Relations that the grammar keeps

`Congruence R` says that a relation between parsers is kept by every way to build one, but for
levels of nesting, which are no part of the constructs themselves. Such a relation holds between two
grammars construct by construct, if it holds between their nested constructs (`nest_related`). A
comparison of two runs of the grammar comes down to its building blocks in this way, and to what the
levels of nesting do. The constructs themselves fail with `Syntactic` errors only, at the next token.
-/

namespace Formula

open Formula.Parser

variable {K : Type}

/-! ## Errors of the syntax -/

namespace ParseError

/-- Whether the error is that of a limit on nesting. -/
def isNesting : ParseError → Bool
  | nestingTooDeep _ _ => true
  | _ => false

/-- The token that the error names. -/
def token? : ParseError → Option String
  | unexpectedToken token _ | trailingTokens token _ => some token
  | _ => none

end ParseError

/-- A sort of error that is about the syntax of a construct: it has the position it is raised at,
names no token, and is not about a limit on nesting. -/
class Syntactic (error : Nat → ParseError) : Prop where
  isNesting : ∀ position, (error position).isNesting = false
  position? : ∀ position, (error position).position? = some position
  token? : ∀ position, (error position).token? = none

section Syntactic

variable (construct : String)

instance : Syntactic (.missingOpenParenthesis construct) :=
  ⟨fun _ => rfl, fun _ => rfl, fun _ => rfl⟩
instance : Syntactic (.missingCloseParenthesis construct) :=
  ⟨fun _ => rfl, fun _ => rfl, fun _ => rfl⟩
instance : Syntactic (.missingComma construct) := ⟨fun _ => rfl, fun _ => rfl, fun _ => rfl⟩
instance : Syntactic (.missingCloseBrace construct) := ⟨fun _ => rfl, fun _ => rfl, fun _ => rfl⟩
instance : Syntactic (.missingSecondOperand construct) := ⟨fun _ => rfl, fun _ => rfl, fun _ => rfl⟩
instance : Syntactic (.missingExpression construct) := ⟨fun _ => rfl, fun _ => rfl, fun _ => rfl⟩
instance : Syntactic .missingColon := ⟨fun _ => rfl, fun _ => rfl, fun _ => rfl⟩
instance : Syntactic .missingDegreeSymbol := ⟨fun _ => rfl, fun _ => rfl, fun _ => rfl⟩
instance : Syntactic .missingPhase := ⟨fun _ => rfl, fun _ => rfl, fun _ => rfl⟩
instance (cause : BuildError) : Syntactic (.invalidExpression cause) :=
  ⟨fun _ => rfl, fun _ => rfl, fun _ => rfl⟩

end Syntactic

/-! ## What a relation has to keep -/

namespace Parser

/-- The relation is kept by sequences, checkpoints and everything that reads a token at most. -/
structure Congruence (R : ∀ {α : Type}, Parser K α → Parser K α → Prop) : Prop where
  pure : ∀ {α : Type} (a : α), R (pure a) (pure a)
  failHere : ∀ {α : Type} (error : Nat → ParseError) [Syntactic error],
    R (failHere error : Parser K α) (failHere error)
  take? : ∀ {α : Type} (find? : Token K → Option α), R (take? find?) (take? find?)
  remaining : R remaining remaining
  look : ∀ {α : Type} {f g : Reader K → Parser K α},
    (∀ r s, r.peek? = s.peek? → R (f r) (g s)) → R (get >>= f) (get >>= g)
  bind : ∀ {α β : Type} {p q : Parser K α} {f g : α → Parser K β},
    R p q → (∀ a, R (f a) (g a)) → R (p >>= f) (q >>= g)
  speculate : ∀ {α : Type} {p q : Parser K (Option α)}, R p q → R (speculate p) (speculate q)

namespace Congruence

variable {R : ∀ {α : Type}, Parser K α → Parser K α → Prop} (h : Congruence R) {α β : Type}

include h

/-- Sequences behind an optional result. -/
theorem bind_option {p q : Parser K (Option α)} {f g : Option α → Parser K β} (hp : R p q)
    (hnone : R (f none) (g none)) (hsome : ∀ a, R (f (some a)) (g (some a))) :
    R (p >>= f) (q >>= g) := h.bind hp fun | none => hnone | some a => hsome a

/-- Sequences behind a test. -/
theorem bind_bool {p q : Parser K Bool} {f g : Bool → Parser K β} (hp : R p q)
    (hfalse : R (f false) (g false)) (htrue : R (f true) (g true)) : R (p >>= f) (q >>= g) :=
  h.bind hp fun | false => hfalse | true => htrue

theorem map {p q : Parser K (Option α)} (hp : R p q) (g : α → β) :
    R (do return (← p).map g) (do return (← q).map g) := h.bind hp fun _ => h.pure _

theorem accept (test : Token K → Bool) : R (accept test) (accept test) :=
  h.bind (h.take? _) fun _ => h.pure _

theorem symbol (s : Symbol) : R (symbol s : Parser K Bool) (symbol s) := h.accept _

theorem expect (s : Symbol) (error : Nat → ParseError) [Syntactic error] :
    R (expect s error : Parser K Unit) (expect s error) :=
  h.bind_bool (h.symbol s) (h.failHere error) (h.pure ())

theorem require {error : Nat → ParseError} [Syntactic error] {p q : Parser K (Option α)}
    (hp : R p q) : R (require error p) (require error q) := h.bind_option hp (h.failHere error) fun _ => h.pure _

theorem firstOf {ps qs : List (Parser K (Option α))}
    (hps : List.Forall₂ (fun p q => R p q) ps qs) : R (firstOf ps) (firstOf qs) := by
  induction hps with
  | nil => exact h.pure none
  | cons hp _ ih => exact h.bind_option hp ih fun a => h.pure (some a)

theorem moreItems {item item' : Parser K α} (hitem : R item item') : ∀ count,
    R (moreItems item count) (moreItems item' count)
  | 0 => h.pure []
  | count + 1 => h.bind_bool (h.symbol _) (h.pure []) <| h.bind hitem fun _ =>
      h.bind (moreItems hitem count) fun _ => h.pure _

theorem build : ∀ e : Except BuildError α, R (build e : Parser K α) (build e)
  | .ok a => h.pure a
  | .error _ => h.failHere _

end Congruence

end Parser

namespace Grammar

variable {R : ∀ {α : Type}, Parser K α → Parser K α → Prop} (h : Congruence R)

section Flat

/-! ## Constructs without nested ones -/

include h

theorem number_related : R (number : Parser K (Option (Expr K))) number := by
  refine h.bind_option (h.take? _) (h.pure none) fun _ => h.bind (h.take? _) fun unit? => ?_
  cases unit? <;> exact h.pure _

theorem truth_related : R (truth : Parser K (Option (Expr K))) truth := h.map (h.take? _) _

theorem text_related : R (text : Parser K (Option (Expr K))) text := h.map (h.take? _) _

theorem polarMagnitude_related : R (polarMagnitude : Parser K (Option K)) polarMagnitude :=
  h.speculate <| h.bind (h.symbol _) fun _ => h.bind_option (h.take? _) (h.pure _) fun _ =>
    h.bind_bool (h.symbol _) (h.pure _) (h.pure _)

theorem complexNumber_related [Scalar K] :
    R (complexNumber : Parser K (Option (Expr K))) complexNumber :=
  h.bind_option (polarMagnitude_related h) (h.pure _) fun _ => h.bind (h.take? _) fun _ =>
    h.bind (h.require (h.take? _)) fun _ => h.bind (h.expect _ _) fun _ => h.pure _

theorem variableName_related : R (variableName : Parser K (Option String)) variableName := by
  refine h.speculate (h.bind_option (h.take? _) (h.pure none) fun name =>
    h.look fun r s hpeek => ?_)
  rw [hpeek]
  split <;> exact h.pure _

theorem makeCall_related (name : String) (arguments : List (Expr K)) :
    R (makeCall name arguments) (makeCall name arguments) := by
  unfold makeCall
  split
  · exact h.build _
  · exact h.pure _

theorem moreNames_related : ∀ count,
    R (moreNames count : Parser K (Option (List String))) (moreNames count)
  | 0 => h.pure _
  | count + 1 => h.bind_bool (h.symbol _) (h.pure _) <|
      h.bind_option (variableName_related h) (h.pure _) fun _ =>
        h.bind_option (moreNames_related count) (h.pure _) fun _ => h.pure _

theorem parameterNames_related :
    R (parameterNames : Parser K (Option (List String))) parameterNames :=
  h.bind_option (variableName_related h) (h.pure _) fun _ => h.bind h.remaining fun _ =>
    h.map (moreNames_related h _) _

theorem declarationHead_related :
    R (declarationHead : Parser K (Option (String × List String))) declarationHead :=
  h.speculate <| h.bind_option (h.take? _) (h.pure _) fun _ =>
    h.bind_bool (h.symbol _) (h.pure _) <| h.bind_option (parameterNames_related h) (h.pure _)
      fun _ => h.bind_bool (h.symbol _) (h.pure _) (h.pure _)

theorem key_related : R (key : Parser K (Option (Expr K))) key :=
  h.bind_option (declarationHead_related h) (h.map (variableName_related h) _) fun _ =>
    h.bind (makeCall_related h _ _) fun _ => h.pure _

theorem factorials_related : ∀ count (e : Expr K), R (factorials count e) (factorials count e)
  | 0, e => h.pure e
  | count + 1, e =>
    h.bind_bool (h.symbol _) (h.pure e) (factorials_related count (.unary .factorial e))

theorem stepOf_related (e : Expr K) : R (stepOf e) (stepOf e) := by
  unfold stepOf
  split
  · exact h.map (h.take? _) _
  · exact h.pure _

theorem assignmentHead_related :
    R (assignmentHead : Parser K (Option (AssignOp × String))) assignmentHead :=
  h.speculate <| h.bind_option (variableName_related h) (h.pure _) fun _ => h.map (h.take? _) _

theorem definitionKey_related : R (definitionKey : Parser K (Option (Expr K))) definitionKey :=
  h.speculate <| h.bind_option (key_related h) (h.pure _) fun _ =>
    h.bind_bool (h.symbol _) (h.pure _) (h.pure _)

theorem opening_related (word : Keyword) (construct : String) :
    R (opening word construct : Parser K Bool) (opening word construct) :=
  h.bind_bool (h.accept _) (h.pure _) <| h.bind (h.expect _ _) fun _ => h.pure _

theorem undefine_related : R (undefine : Parser K (Option (Expr K))) undefine :=
  h.bind_bool (opening_related h _ _) (h.pure _) <| h.bind (h.require (key_related h)) fun _ =>
    h.bind (h.expect _ _) fun _ => h.bind (h.build _) fun _ => h.pure _

end Flat

/-! ## Constructs over nested ones -/

variable {self other : Nest → Parser K (Option (Expr K))} (hself : ∀ n, R (self n) (other n))

include h hself

/-! ### Operands -/

theorem expressions_related (construct : String) :
    R (expressions self construct) (expressions other construct) :=
  h.bind_option (hself _) (h.pure _) fun _ => h.bind h.remaining fun _ =>
    h.bind (h.moreItems (h.require (hself _)) _) fun _ => h.pure _

theorem arguments_related : R (arguments self) (arguments other) :=
  h.bind_bool (h.symbol _) (h.pure _) <| h.bind (expressions_related h hself _) fun _ =>
    h.bind (h.expect _ _) fun _ => h.pure _

theorem functionOrVariable_related : R (functionOrVariable self) (functionOrVariable other) :=
  h.bind_option (h.take? _) (h.pure _) fun _ =>
    h.bind_option (arguments_related h hself) (h.pure _) fun _ =>
      h.bind (makeCall_related h _ _) fun _ => h.pure _

theorem parentheses_related : R (parentheses self) (parentheses other) :=
  h.bind_bool (h.symbol _) (h.pure _) <| h.bind (h.require (hself _)) fun _ =>
    h.bind (h.expect _ _) fun _ => h.pure _

theorem elements_related : R (elements self) (elements other) :=
  h.bind_bool (h.symbol _) (h.pure _) <| h.bind (h.require (hself _)) fun _ =>
    h.bind h.remaining fun _ => h.bind (h.moreItems (h.require (hself _)) _) fun _ =>
      h.bind (h.expect _ _) fun _ => h.pure _

theorem vector_related : R (vector self) (vector other) := h.map (elements_related h hself) _

theorem firstRow_related : R (firstRow self) (firstRow other) :=
  h.speculate <| h.bind_bool (h.symbol _) (h.pure _) (elements_related h hself)

theorem matrix_related : R (matrix self) (matrix other) :=
  h.bind_option (firstRow_related h hself) (h.pure _) fun _ => h.bind h.remaining fun _ =>
    h.bind (h.moreItems (h.require (elements_related h hself)) _) fun _ =>
      h.bind (h.expect _ _) fun _ => h.bind (h.build _) fun _ => h.pure _

variable [Scalar K]

theorem operand_related : R (operand self) (operand other) :=
  h.firstOf <| .cons (complexNumber_related h) <| .cons (number_related h) <|
    .cons (functionOrVariable_related h hself) <| .cons (truth_related h) <|
    .cons (text_related h) <| .cons (parentheses_related h hself) <|
    .cons (matrix_related h hself) <| .cons (vector_related h hself) .nil

/-! ### Operators -/

theorem postfixed_related : R (postfixed self) (postfixed other) := by
  refine h.bind_option (operand_related h hself) (h.pure _) fun e => ?_
  refine h.bind_option (stepOf_related h e) ?_ fun _ => h.pure _
  exact h.bind h.remaining fun _ => h.bind (factorials_related h _ e) fun _ => h.pure _

theorem power_related : R (power self) (power other) :=
  h.bind_option (postfixed_related h hself) (h.pure _) fun _ =>
    h.bind_bool (h.symbol _) (h.pure _) <| h.bind (h.require (hself _)) fun _ => h.pure _

theorem prefixed_related : R (prefixed self) (prefixed other) := by
  refine h.look fun r s hpeek => ?_
  rw [hpeek]
  split
  · exact power_related h hself
  · exact h.speculate <| h.bind (h.take? _) fun _ => h.map (hself _) _

theorem namedFactor_related : R (namedFactor self) (namedFactor other) :=
  h.bind_option (functionOrVariable_related h hself) (h.pure _) fun _ =>
    h.bind_bool (h.symbol _) (h.pure _) <| h.bind (h.require (power_related h hself)) fun _ =>
      h.pure _

theorem numberTimes_related : R (numberTimes self) (numberTimes other) :=
  h.speculate <| h.bind (h.symbol _) fun _ => h.bind_option (number_related h) (h.pure _) fun _ =>
    h.bind_option
      (h.firstOf <| .cons (namedFactor_related h hself) <| .cons (parentheses_related h hself) <|
        .cons (matrix_related h hself) <| .cons (vector_related h hself) .nil)
      (h.pure _) fun _ => h.pure _

theorem implicitProduct_related : R (implicitProduct self) (implicitProduct other) :=
  h.firstOf (.cons (numberTimes_related h hself) (.cons (hself _) .nil))

omit hself [Scalar K] in
theorem chain_related (precedence : Nat) {next next' : Parser K (Option (Expr K))}
    (hnext : R next next') : ∀ count (left : Expr K),
      R (chain precedence next count left) (chain precedence next' count left)
  | 0, left => h.pure left
  | count + 1, left => h.bind_option (h.take? _) (h.pure left) fun _ =>
      h.bind (h.require hnext) fun _ => chain_related precedence hnext count _

theorem ladder_related : ∀ precedences, R (ladder self precedences) (ladder other precedences)
  | [] => implicitProduct_related h hself
  | precedence :: tighter => h.bind_option (ladder_related tighter) (h.pure _) fun left =>
      h.bind h.remaining fun _ =>
        h.bind (chain_related h precedence (ladder_related tighter) _ left) fun _ => h.pure _

theorem condition_related : R (condition self) (condition other) := ladder_related h hself _

theorem conditional_related : R (conditional self) (conditional other) :=
  h.bind_option (condition_related h hself) (h.pure _) fun _ =>
    h.bind_bool (h.symbol _) (h.pure _) <| h.bind (h.require (hself _)) fun _ =>
      h.bind (h.expect _ _) fun _ => h.bind (h.require (hself _)) fun _ => h.pure _

/-! ### Statements -/

omit [Scalar K] in
theorem compoundAssignment_related : R (compoundAssignment self) (compoundAssignment other) :=
  h.bind_option (assignmentHead_related h) (h.pure _) fun _ =>
    h.bind (h.require (hself _)) fun _ => h.pure _

omit [Scalar K] in
theorem definition_related : R (definition self) (definition other) :=
  h.bind_option (definitionKey_related h) (h.pure _) fun _ => h.bind (h.require (hself _)) fun _ =>
    h.bind (h.build _) fun _ => h.pure _

omit [Scalar K] in
theorem define_related : R (define self) (define other) :=
  h.bind_bool (opening_related h _ _) (h.pure _) <| h.bind (h.require (key_related h)) fun _ =>
    h.bind (h.expect _ _) fun _ => h.bind (h.require (hself _)) fun _ =>
      h.bind (h.expect _ _) fun _ => h.bind (h.build _) fun _ => h.pure _

theorem ifStatement_related : R (ifStatement self) (ifStatement other) := by
  refine h.bind_bool (opening_related h _ _) (h.pure _) <|
    h.bind (h.require (condition_related h hself)) fun _ => h.bind (h.expect _ _) fun _ =>
      h.bind (h.require (hself _)) fun _ => h.bind_bool (h.symbol _) ?_ ?_
  · exact h.bind (h.expect _ _) fun _ => h.pure _
  · exact h.bind (h.require (hself _)) fun _ => h.bind (h.expect _ _) fun _ => h.pure _

theorem forStatement_related : R (forStatement self) (forStatement other) :=
  h.bind_bool (opening_related h _ _) (h.pure _) <| h.bind (h.require (hself _)) fun _ =>
    h.bind (h.expect _ _) fun _ => h.bind (h.require (hself _)) fun _ =>
      h.bind (h.expect _ _) fun _ => h.bind (h.require (condition_related h hself)) fun _ =>
        h.bind (h.expect _ _) fun _ => h.bind (h.require (hself _)) fun _ =>
          h.bind (h.expect _ _) fun _ => h.pure _

theorem whileStatement_related : R (whileStatement self) (whileStatement other) :=
  h.bind_bool (opening_related h _ _) (h.pure _) <| h.bind (h.require (hself _)) fun _ =>
    h.bind (h.expect _ _) fun _ => h.bind (h.require (condition_related h hself)) fun _ =>
      h.bind (h.expect _ _) fun _ => h.pure _

/-- **The bodies of the nested constructs are related if these are.** -/
theorem nest_related (n : Nest) : R (nest self n) (nest other n) := by
  cases n with
  | statement =>
    exact h.firstOf <| .cons (compoundAssignment_related h hself) <|
      .cons (definition_related h hself) <| .cons (define_related h hself) <|
      .cons (undefine_related h) <| .cons (ifStatement_related h hself) <|
      .cons (forStatement_related h hself) <| .cons (whileStatement_related h hself) <|
      .cons (hself _) .nil
  | expression =>
    exact h.firstOf <| .cons (compoundAssignment_related h hself) <|
      .cons (conditional_related h hself) .nil
  | prefixed => exact prefixed_related h hself

end Grammar

end Formula

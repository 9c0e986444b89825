import Mathlib
import Formula.Binary64.Basic
import Formula.Proofs.WellFormed

/-!
# Copies with other children

A node is its label and its direct subtrees: there is at most one node with both
(`Label.node?_eq_some`). A copy with other children keeps the label, and goes through the
constructor that checks the node (`rebuild_eq_checked`). Since what the constructors ask for is a
matter of the label and of the number of children, except for keys, the copy of a built node is
refused only for its key. So a copy has the label of the node and, position by position, the
replacement or the old child (`withChildren_replaces`).
-/

namespace Formula.Expr

variable {K : Type} {e n key : Expr K} {cs : List (Expr K)}

/-! ## Labels -/

/-- A node without its subtrees: its kind and all that it holds beside them. -/
inductive Label (K : Type) where
  | number (value : K)
  | bool (value : Bool)
  | polar (magnitude phase : K)
  | string (value : String)
  | angle (value : Angle K)
  | var (name : String)
  | unary (op : UnaryOp)
  | binary (op : BinaryOp)
  | builtin (function : Builtin)
  | call (name : String)
  | vector
  | matrix (rowLengths : List Nat)
  | conditional (hasElse : Bool)
  | forLoop | whileLoop | define | undefine
  | assign (op : AssignOp) (name : String)
  | step (op : StepOp) (name : String)

/-- The label of a node. -/
def label : Expr K → Label K
  | number value => .number value
  | bool value => .bool value
  | polar magnitude phase => .polar magnitude phase
  | string value => .string value
  | angle value => .angle value
  | var name => .var name
  | unary op _ => .unary op
  | binary op _ _ => .binary op
  | builtin function _ => .builtin function
  | call name _ => .call name
  | vector _ => .vector
  | matrix rows => .matrix (rows.map List.length)
  | ifThen _ _ => .conditional false
  | ifThenElse _ _ _ => .conditional true
  | forLoop _ _ _ _ => .forLoop
  | whileLoop _ _ => .whileLoop
  | define _ _ => .define
  | undefine _ => .undefine
  | assign op name _ => .assign op name
  | step op name => .step op name

namespace Label

/-- The kind of a node with this label. -/
def kind : Label K → Kind
  | number _ => .number
  | bool _ => .bool
  | polar _ _ => .polar
  | string _ => .string
  | angle _ => .angle
  | var _ => .var
  | unary op => .unary op
  | binary op => .binary op
  | builtin function => .builtin function
  | call _ => .call
  | vector => .vector
  | matrix _ => .matrix
  | conditional _ => .conditional
  | forLoop => .forLoop
  | whileLoop => .whileLoop
  | define => .define
  | undefine => .undefine
  | assign _ _ => .assign
  | step _ _ => .step

/-- The lengths of the rows of a matrix with this label. -/
def rowLengths : Label K → List Nat
  | matrix lengths => lengths
  | _ => []

/-- The node with this label and these subtrees, if they are as many as it takes. -/
def node? : Label K → List (Expr K) → Option (Expr K)
  | number value, [] => some (.number value)
  | bool value, [] => some (.bool value)
  | polar magnitude phase, [] => some (.polar magnitude phase)
  | string value, [] => some (.string value)
  | angle value, [] => some (.angle value)
  | var name, [] => some (.var name)
  | unary op, [a] => some (.unary op a)
  | binary op, [a, b] => some (.binary op a b)
  | builtin function, arguments => some (.builtin function arguments)
  | call name, arguments => some (.call name arguments)
  | vector, elements => some (.vector elements)
  | matrix lengths, elements =>
    if lengths.sum = elements.length then some (.matrix (lengths.splitLengths elements)) else none
  | conditional false, [c, a] => some (.ifThen c a)
  | conditional true, [c, a, b] => some (.ifThenElse c a b)
  | forLoop, [body, init, condition, iteration] =>
    some (.forLoop body init condition iteration)
  | whileLoop, [body, condition] => some (.whileLoop body condition)
  | define, [key, value] => some (.define key value)
  | undefine, [key] => some (.undefine key)
  | assign op name, [value] => some (.assign op name value)
  | step op name, [] => some (.step op name)
  | _, _ => none

end Label

/-- The kind is part of the label. -/
theorem label_kind (e : Expr K) : e.label.kind = e.kind := by cases e <;> rfl

/-- So are the lengths of rows. -/
theorem label_rowLengths (e : Expr K) : e.label.rowLengths = e.rowLengths := by cases e <;> rfl

/-- Nodes with the same label are of one kind. -/
theorem kind_eq_of_label (hlabel : n.label = e.label) : n.kind = e.kind := by
  rw [← label_kind, hlabel, label_kind]

/-- Rows end to end, cut where they were put together. -/
theorem splitLengths_flatten {α : Type} (rows : List (List α)) :
    (rows.map List.length).splitLengths rows.flatten = rows := by
  induction rows with
  | nil => rfl
  | cons row rows ih =>
    rw [List.map_cons, List.flatten_cons, List.splitLengths_cons, List.take_left, List.drop_left,
      ih]

/-- **A node is its label and its direct subtrees.** -/
theorem Label.node?_eq_some {l : Label K} :
    l.node? cs = some n ↔ n.label = l ∧ n.children = cs := by
  constructor
  · intro h
    -- Labels that take equally many subtrees are one case; the list has to be as long as that.
    cases l with
    | matrix lengths =>
      rw [node?] at h
      split at h
      · next hsum =>
        cases h
        exact ⟨congrArg Label.matrix (List.map_splitLengths_length _ _ hsum.le),
          List.flatten_splitLengths _ _ hsum.ge⟩
      · cases h
    | builtin | call | vector =>
      cases h
      exact ⟨rfl, rfl⟩
    | number | bool | polar | string | angle | var | step =>
      cases cs <;> cases h
      exact ⟨rfl, rfl⟩
    | unary | undefine | assign =>
      rcases cs with _ | ⟨a, _ | _⟩ <;> cases h
      exact ⟨rfl, rfl⟩
    | binary | whileLoop | define =>
      rcases cs with _ | ⟨a, _ | ⟨b, _ | _⟩⟩ <;> cases h
      exact ⟨rfl, rfl⟩
    | conditional hasElse =>
      rcases cs with _ | ⟨a, _ | ⟨b, _ | ⟨c, _ | _⟩⟩⟩ <;> cases hasElse <;> cases h
      all_goals exact ⟨rfl, rfl⟩
    | forLoop =>
      rcases cs with _ | ⟨a, _ | ⟨b, _ | ⟨c, _ | ⟨d, _ | _⟩⟩⟩⟩ <;> cases h
      exact ⟨rfl, rfl⟩
  · rintro ⟨rfl, rfl⟩
    cases n with
    | matrix rows =>
      have hsum : (rows.map List.length).sum = rows.flatten.length := List.length_flatten.symm
      rw [label, children, node?, if_pos hsum, splitLengths_flatten]
    | _ => rfl

/-- Nodes with the same label and the same subtrees are the same. -/
theorem eq_of_label_eq (hlabel : n.label = e.label) (hchildren : n.children = e.children) :
    n = e := by
  have hn : e.label.node? e.children = some n := Label.node?_eq_some.2 ⟨hlabel, hchildren⟩
  have he : e.label.node? e.children = some e := Label.node?_eq_some.2 ⟨rfl, rfl⟩
  exact Option.some.inj (hn.symm.trans he)

/-! ## Checked nodes -/

/-- A node as its constructor makes it, or the reason why it does not. -/
def checked : Expr K → Except BuildError (Expr K)
  | builtin function arguments => mkBuiltin function arguments
  | vector elements => mkVector elements
  | matrix rows => mkMatrix rows
  | define key value => mkDefine key value
  | undefine key => mkUndefine key
  | e => .ok e

/-- The constructors make built nodes. -/
theorem checked_eq_ok : n.checked = .ok e ↔ e = n ∧ n.IsBuilt := by
  have hroot {n : Expr K} : e = n ∧ e.IsBuilt ↔ e = n ∧ n.IsBuilt :=
    and_congr_right fun h => by rw [h]
  cases n with
  | builtin f as => exact mkBuiltin_eq_ok.trans hroot
  | vector as => exact mkVector_eq_ok.trans hroot
  | matrix rows => exact mkMatrix_eq_ok.trans hroot
  | define key value => exact mkDefine_eq_ok.trans hroot
  | undefine key => exact mkUndefine_eq_ok.trans hroot
  | _ => simp [checked, IsBuilt, eq_comm]

/-- A list cut like rows is cut into their lengths. -/
theorem cutLike_eq_splitLengths (rows : List (List (Expr K))) (cs : List (Expr K)) :
    cutLike rows cs = (rows.map List.length).splitLengths cs := by
  induction rows generalizing cs with
  | nil => rfl
  | cons row rows ih => rw [cutLike, ih, List.map_cons, List.splitLengths_cons]

/-- **A node with other children** is the one with the same label and these children, put through
its constructor. -/
theorem rebuild_eq_checked (hlength : cs.length = e.children.length) :
    ∃ n, e.label.node? cs = some n ∧ e.rebuild cs = n.checked := by
  cases e with
  | number | bool | polar | string | angle | var | step =>
    obtain rfl := List.length_eq_zero_iff.1 hlength
    exact ⟨_, rfl, rfl⟩
  | unary | undefine | assign =>
    obtain ⟨a, rfl⟩ := List.length_eq_one_iff.1 hlength
    exact ⟨_, rfl, rfl⟩
  | binary | ifThen | whileLoop | define =>
    obtain ⟨a, b, rfl⟩ := List.length_eq_two.1 hlength
    exact ⟨_, rfl, rfl⟩
  | ifThenElse =>
    obtain ⟨a, b, c, rfl⟩ := List.length_eq_three.1 hlength
    exact ⟨_, rfl, rfl⟩
  | forLoop =>
    match cs, hlength with
    | [_, _, _, _], _ => exact ⟨_, rfl, rfl⟩
  | builtin | call | vector => exact ⟨_, rfl, rfl⟩
  | matrix rows =>
    -- The label asks for the sum of the lengths, the node for that many elements.
    have hsum : (rows.map List.length).sum = cs.length :=
      List.length_flatten.symm.trans hlength.symm
    refine ⟨_, by rw [label, Label.node?, if_pos hsum], ?_⟩
    rw [rebuild, cutLike_eq_splitLengths, checked]

/-! ## Keys -/

/-- The key of a definition or a removal is its first child, and no other node has one. -/
theorem key?_eq (e : Expr K) :
    e.key? = if e.kind = .define ∨ e.kind = .undefine then e.children[0]? else none := by
  cases e <;> simp [key?, kind, children]

/-- A node without a key is built where another one with its label is, and as many children. -/
theorem IsBuilt.of_label (he : e.IsBuilt) (hlabel : n.label = e.label)
    (hlength : n.children.length = e.children.length) (hkey : n.key? = none) : n.IsBuilt := by
  have hkind := kind_eq_of_label hlabel
  have hrows : n.rowLengths = e.rowLengths := by rw [← label_rowLengths, hlabel, label_rowLengths]
  refine he.of_eq hkind hrows ?_ hlength
  rw [hkey, eq_comm, key?_eq, ← hkind]
  rw [key?_eq] at hkey
  split at hkey
  · next hdefinition =>
    rw [if_pos hdefinition, List.getElem?_eq_none_iff, ← hlength]
    exact List.getElem?_eq_none_iff.1 hkey
  · next hother => exact if_neg hother

/-- A node with a key is refused for its key. -/
theorem checked_of_key? (hkey : n.key? = some key) :
    n.checked = key.checkKey.map fun _ => n := by
  cases n with
  | define key value =>
    cases hkey
    rw [checked, mkDefine]
    cases key.checkKey <;> rfl
  | undefine key =>
    cases hkey
    rw [checked, mkUndefine]
    cases key.checkKey <;> rfl
  | _ => cases hkey

/-- **A node with the label of a built one is refused only for its key**, if it has as many
children. -/
theorem checked_eq_error_iff (he : e.IsBuilt) (hlabel : n.label = e.label)
    (hlength : n.children.length = e.children.length) {cause : BuildError} :
    n.checked = .error cause ↔ ∃ key, n.key? = some key ∧ key.checkKey = .error cause := by
  cases hkey : n.key? with
  | none =>
    rw [checked_eq_ok.2 ⟨rfl, he.of_label hlabel hlength hkey⟩]
    simp
  | some key =>
    rw [checked_of_key? hkey]
    cases hcheck : key.checkKey <;> simp [hcheck, Except.map]

/-- The check of keys does not count children. -/
theorem checkKey_ne_childCount (kind : Kind) (expected found : Nat) :
    key.checkKey ≠ .error (.childCount kind expected found) := by
  unfold checkKey
  split
  · nofun
  · split
    · nofun
    · split <;> nofun
  · nofun
  · nofun

/-! ## Copies -/

/-- The child that a copy is to have at a position: the replacement, or else the old child. -/
def chosen (e : Expr K) (replacements : List (Option (Expr K))) (i : Nat) : Option (Expr K) :=
  replacements[i]?.join.or e.children[i]?

variable {replacements : List (Option (Expr K))}

/-- The new children by their positions. -/
theorem getElem?_replaced (hlength : replacements.length = e.children.length) (i : Nat) :
    (List.zipWith (fun old new => new.getD old) e.children replacements)[i]? =
      e.chosen replacements i := by
  rw [List.getElem?_zipWith, chosen]
  by_cases hi : i < replacements.length
  · rw [List.getElem?_eq_getElem hi, List.getElem?_eq_getElem (hlength ▸ hi)]
    cases replacements[i] <;> rfl
  · rw [List.getElem?_eq_none (Nat.le_of_not_lt hi),
      List.getElem?_eq_none (hlength ▸ Nat.le_of_not_lt hi)]
    rfl

/-- **A copy** is the node with the same label and the children that are chosen, put through its
constructor. -/
theorem withChildren_eq_checked (hlength : replacements.length = e.children.length) :
    ∃ n : Expr K, n.label = e.label ∧ n.children.length = e.children.length ∧
      (∀ i, n.children[i]? = e.chosen replacements i) ∧
        e.withChildren replacements = n.checked := by
  have hchildren : (List.zipWith (fun old new => new.getD old) e.children replacements).length =
      e.children.length := by
    rw [List.length_zipWith, hlength, Nat.min_self]
  obtain ⟨n, hn, hrebuild⟩ := rebuild_eq_checked hchildren
  obtain ⟨hlabel, hreplaced⟩ := Label.node?_eq_some.1 hn
  refine ⟨n, hlabel, hreplaced ▸ hchildren, fun i => ?_, ?_⟩
  · rw [hreplaced, getElem?_replaced hlength]
  · rw [withChildren, if_pos hlength, hrebuild]

/-- **What a copy is refused for**, if the replacements are as many as the children. -/
theorem withChildren_eq_error_iff (he : e.IsBuilt)
    (hlength : replacements.length = e.children.length) (cause : BuildError) :
    e.withChildren replacements = .error cause ↔
      (e.kind = .define ∨ e.kind = .undefine) ∧
        ∃ key, e.chosen replacements 0 = some key ∧ ¬key.IsKey ∧ key.checkKey = .error cause := by
  obtain ⟨n, hlabel, hcount, hchildren, hcopy⟩ := withChildren_eq_checked hlength
  have hnotKey (key : Expr K) :
      ¬key.IsKey ∧ key.checkKey = .error cause ↔ key.checkKey = .error cause := by
    refine and_iff_right_of_imp fun h => ?_
    rw [← checkKey_eq_ok, h]
    nofun
  rw [hcopy, checked_eq_error_iff he hlabel hcount, key?_eq, kind_eq_of_label hlabel, hchildren]
  simp only [hnotKey]
  split
  · next hdefinition => simp [hdefinition]
  · next hother => simp [hother]

/-- A copy that chooses all the old children is the node. -/
theorem withChildren_eq_self (he : e.IsBuilt) (hlength : replacements.length = e.children.length)
    (hchosen : ∀ i, e.chosen replacements i = e.children[i]?) :
    e.withChildren replacements = .ok e := by
  obtain ⟨n, hlabel, -, hchildren, hcopy⟩ := withChildren_eq_checked hlength
  have hself : n = e := by
    refine eq_of_label_eq hlabel (List.ext_getElem? fun i => ?_)
    rw [hchildren, hchosen]
  rw [hcopy, hself]
  exact checked_eq_ok.2 ⟨rfl, he⟩

/-- **A copy replaces children and nothing else.** It is refused for its number of replacements if
that is not the number of children, and otherwise only for a key that cannot be bound. It keeps the
kind and the label of the node, and each of its children is the replacement that is given or the old
child. -/
theorem withChildren_replaces (he : e.IsBuilt) (replacements : List (Option (Expr K))) :
    (∀ kind expected found,
      e.withChildren replacements = .error (.childCount kind expected found) ↔
        replacements.length ≠ e.children.length ∧
          kind = e.kind ∧ expected = e.children.length ∧ found = replacements.length) ∧
    (replacements.length = e.children.length → ∀ cause,
      e.withChildren replacements = .error cause ↔
        (e.kind = .define ∨ e.kind = .undefine) ∧
          ∃ key, e.chosen replacements 0 = some key ∧ ¬key.IsKey ∧ key.checkKey = .error cause) ∧
    (∀ e', e.withChildren replacements = .ok e' →
      e'.kind = e.kind ∧ e'.label = e.label ∧
        ∀ i, e'.children[i]? = e.chosen replacements i) ∧
    e.withChildren (List.replicate e.children.length none) = .ok e ∧
    e.withChildren (e.children.map some) = .ok e := by
  have hrefused (hlength : replacements.length ≠ e.children.length) :
      e.withChildren replacements =
        .error (.childCount e.kind e.children.length replacements.length) := if_neg hlength
  have hcauses (hlength : replacements.length = e.children.length) :=
    withChildren_eq_error_iff he hlength
  refine ⟨fun kind expected found => ?_, hcauses, fun e' h => ?_, ?_, ?_⟩
  · by_cases hlength : replacements.length = e.children.length
    · -- What is left to fail is the key, and its check has other errors.
      refine iff_of_false (fun h => ?_) fun h => h.1 hlength
      obtain ⟨-, key, -, -, hkey⟩ := (hcauses hlength _).1 h
      exact checkKey_ne_childCount kind expected found hkey
    · simp [hrefused hlength, hlength, eq_comm]
  · by_cases hlength : replacements.length = e.children.length
    · obtain ⟨n, hlabel, -, hchildren, hcopy⟩ := withChildren_eq_checked hlength
      obtain ⟨rfl, -⟩ := checked_eq_ok.1 (hcopy ▸ h)
      exact ⟨kind_eq_of_label hlabel, hlabel, hchildren⟩
    · cases (hrefused hlength).symm.trans h
  · refine withChildren_eq_self he List.length_replicate fun i => ?_
    rw [chosen, List.getElem?_replicate]
    split <;> rfl
  · refine withChildren_eq_self he (List.length_map _) fun i => ?_
    rw [chosen, List.getElem?_map]
    cases e.children[i]? <;> rfl

/-- A declaration whose name is given to a built-in function. -/
theorem withChildren_replaces_declaration :
    let e : Expr Binary64 := .define (.call "f" [.var "x"]) (.var "x")
    let replacements : List (Option (Expr Binary64)) := [some (.call "sin" [.var "x"]), none]
    e.IsBuilt ∧ e.withChildren replacements = .error (.redefinesBuiltin "sin") ∧
      e.withChildren [none, none] = .ok e ∧
      ∀ kind expected found,
        e.withChildren replacements ≠ .error (.childCount kind expected found) := by
  intro e replacements
  have he : e.IsBuilt := .declaration (by decide) (List.forall_mem_singleton.2 ⟨_, rfl⟩)
  obtain ⟨hcount, hcauses, -, hnone, -⟩ := withChildren_replaces he replacements
  refine ⟨he, (hcauses rfl _).2 ⟨.inl rfl, _, rfl, ?_, by decide⟩, hnone, ?_⟩
  · rintro (_ | ⟨hname, -⟩)
    revert hname
    decide
  · exact fun kind expected found h => ((hcount kind expected found).1 h).1 rfl

end Formula.Expr

import Formula.Expr.Build
import Formula.Proofs.Derivative
import Formula.Proofs.Simplify.Pruning

/-!
# Well-formed trees

A tree is well formed if every node of it could have come from the constructors that check: calls
of built-in functions have accepted numbers of arguments, vectors have elements, matrices have rows
of one length, and definitions have keys that can be bound. `IsBuilt` is the condition on one node.

The constructors give exactly such nodes (`mkBuiltin_eq_ok`, `mkVector_eq_ok`, `mkMatrix_eq_ok`,
`mkDefine_eq_ok`, `mkUndefine_eq_ok`). Copies with other children, derivatives and simplifications
of well-formed trees are well formed.
-/

namespace Formula

/-! ## Shapes -/

/-- A list of so many rows of one width. -/
structure HasShape {α : Type} (height width : Nat) (rows : List (List α)) : Prop where
  height : rows.length = height
  width : ∀ row ∈ rows, row.length = width

/-- There are rows, all of one width, and there are columns. -/
def IsRectangular {α : Type} (rows : List (List α)) : Prop :=
  ∃ height width, 0 < height ∧ 0 < width ∧ HasShape height width rows

/-- Being rectangular is a matter of the lengths of the rows. -/
theorem IsRectangular.of_lengths {α β : Type} {rows : List (List α)} {rows' : List (List β)}
    (h : IsRectangular rows) (hlengths : rows'.map List.length = rows.map List.length) :
    IsRectangular rows' := by
  obtain ⟨height, width, hheight, hwidth, hshape⟩ := h
  refine ⟨height, width, hheight, hwidth, ?_, fun row' hrow' => ?_⟩
  · rw [← hshape.height, ← List.length_map List.length, hlengths, List.length_map]
  · have hmem : row'.length ∈ rows.map List.length := hlengths ▸ List.mem_map_of_mem hrow'
    obtain ⟨row, hrow, hlength⟩ := List.mem_map.1 hmem
    rw [← hlength]
    exact hshape.width row hrow

namespace Expr

variable {K : Type} {e e' key value : Expr K} {as : List (Expr K)} {rows : List (List (Expr K))}

/-! ## One node -/

/-- A key that a definition can bind: a variable, or the declaration of a function that is not
built in, with variables for its parameters. -/
inductive IsKey : Expr K → Prop
  | var (name : String) : IsKey (.var name)
  | declaration {name : String} {arguments : List (Expr K)} (hname : Builtin.ofName? name = none)
      (harguments : ∀ a ∈ arguments, ∃ x, a = .var x) : IsKey (.call name arguments)

/-- What the constructors see to at a node. -/
def IsBuilt : Expr K → Prop
  | builtin f as => f.arity.accepts as.length = true
  | vector as => as ≠ []
  | matrix rows => IsRectangular rows
  | define key _ | undefine key => key.IsKey
  | _ => True

/-- Every node of the tree is as the constructors make it. -/
abbrev WellFormed (e : Expr K) : Prop := e.Everywhere IsBuilt

/-- Parameters are named exactly where all arguments are variables. -/
theorem parameters?_isSome :
    (parameters? as).isSome = true ↔ ∀ a ∈ as, ∃ x, a = (.var x : Expr K) := by
  induction as with
  | nil => exact ⟨fun _ => nofun, fun _ => rfl⟩
  | cons a as ih =>
    rw [List.forall_mem_cons, ← ih, parameters?, parameters?, List.mapM_cons]
    cases a <;> simp [varName?]
    cases List.mapM varName? as <;> simp

/-- The check of keys accepts exactly the keys that can be bound. -/
theorem checkKey_eq_ok : checkKey key = .ok () ↔ key.IsKey := by
  constructor
  · intro h
    unfold checkKey at h
    split at h
    · exact .var _
    · next name arguments =>
      split at h
      · cases h
      · next hname =>
        split at h
        · cases h
        · next harguments =>
          refine .declaration (by simpa using hname) (parameters?_isSome.1 ?_)
          simpa [Option.isSome_iff_ne_none] using harguments
    · cases h
    · cases h
  · intro h
    cases h with
    | var => rfl
    | declaration hname harguments =>
      obtain ⟨names, hnames⟩ := Option.isSome_iff_exists.1 (parameters?_isSome.2 harguments)
      simp [checkKey, hname, hnames]

/-- No row is ragged exactly if all rows have the expected length. -/
theorem raggedRow?_eq_none {expected i : Nat} :
    raggedRow? expected i rows = none ↔ ∀ row ∈ rows, row.length = expected := by
  induction rows generalizing i with
  | nil => simp [raggedRow?]
  | cons row rows ih =>
    rw [raggedRow?, List.forall_mem_cons]
    split
    · next hlength => simp [hlength, ih]
    · next hlength => simp [hlength]

/-! ## The constructors -/

/-- Calls of built-in functions. -/
theorem mkBuiltin_eq_ok {f : Builtin} :
    mkBuiltin f as = .ok e ↔ e = .builtin f as ∧ e.IsBuilt := by
  unfold mkBuiltin
  split
  · next harity => exact ⟨by rintro ⟨⟩; exact ⟨rfl, harity⟩, by rintro ⟨rfl, -⟩; rfl⟩
  · next harity => exact ⟨nofun, by rintro ⟨rfl, hbuilt⟩; exact absurd hbuilt harity⟩

/-- Vectors. -/
theorem mkVector_eq_ok : mkVector as = .ok e ↔ e = .vector as ∧ e.IsBuilt := by
  cases as with
  | nil => exact ⟨nofun, by rintro ⟨rfl, hbuilt⟩; exact absurd rfl hbuilt⟩
  | cons a as => exact ⟨by rintro ⟨⟩; exact ⟨rfl, nofun⟩, by rintro ⟨rfl, -⟩; rfl⟩

/-- The check of a matrix finds nothing exactly if the rows are rectangular. -/
theorem isRectangular_cons {first : List (Expr K)} :
    IsRectangular (first :: rows) ↔
      first ≠ [] ∧ ∀ row ∈ rows, row.length = first.length := by
  constructor
  · rintro ⟨height, width, -, hwidth, hshape⟩
    obtain ⟨hfirst, hrows⟩ := List.forall_mem_cons.1 hshape.width
    refine ⟨List.ne_nil_of_length_pos (hfirst ▸ hwidth), fun row hrow => ?_⟩
    rw [hrows row hrow, hfirst]
  · rintro ⟨hfirst, hrows⟩
    exact ⟨_, first.length, Nat.succ_pos _, List.length_pos_iff.2 hfirst, rfl,
      List.forall_mem_cons.2 ⟨rfl, hrows⟩⟩

/-- Matrices. -/
theorem mkMatrix_eq_ok : mkMatrix rows = .ok e ↔ e = .matrix rows ∧ e.IsBuilt := by
  have hrefused {cause : BuildError} (h : ¬IsRectangular rows) :
      Except.error cause = Except.ok e ↔ e = .matrix rows ∧ e.IsBuilt := by
    refine ⟨nofun, ?_⟩
    rintro ⟨rfl, hbuilt⟩
    exact absurd hbuilt h
  cases rows with
  | nil =>
    refine hrefused ?_
    rintro ⟨height, width, hheight, -, hshape⟩
    exact absurd hshape.height.symm (Nat.ne_of_gt hheight)
  | cons first rest =>
    rw [mkMatrix]
    by_cases hempty : (first :: rest).any List.isEmpty = true
    · rw [if_pos hempty]
      refine hrefused ?_
      rintro ⟨height, width, -, hwidth, hshape⟩
      obtain ⟨row, hrow, hnil⟩ := List.any_eq_true.1 hempty
      rw [← hshape.width row hrow, List.isEmpty_iff.1 hnil] at hwidth
      cases hwidth
    · rw [if_neg hempty]
      have hfirst : first ≠ [] := by
        rintro rfl
        exact hempty rfl
      cases hragged : raggedRow? first.length 1 rest with
      | some found =>
        refine hrefused fun hrows => ?_
        rw [raggedRow?_eq_none.2 (isRectangular_cons.1 hrows).2] at hragged
        cases hragged
      | none =>
        have hbuilt : IsRectangular (first :: rest) :=
          isRectangular_cons.2 ⟨hfirst, raggedRow?_eq_none.1 hragged⟩
        constructor
        · rintro ⟨⟩
          exact ⟨rfl, hbuilt⟩
        · rintro ⟨rfl, -⟩
          rfl

/-- A node whose key is checked first. -/
theorem checkKey_map_eq_ok {built : Expr K} :
    (checkKey key).map (fun _ => built) = .ok e ↔ e = built ∧ key.IsKey := by
  rw [← checkKey_eq_ok]
  cases checkKey key with
  | ok =>
    constructor
    · rintro ⟨⟩
      exact ⟨rfl, rfl⟩
    · rintro ⟨rfl, -⟩
      rfl
  | error => exact ⟨nofun, fun h => nomatch h.2⟩

/-- Definitions. -/
theorem mkDefine_eq_ok : mkDefine key value = .ok e ↔ e = .define key value ∧ e.IsBuilt := by
  have hchecked : mkDefine key value = (checkKey key).map fun _ => .define key value := by
    unfold mkDefine
    cases checkKey key <;> rfl
  rw [hchecked, checkKey_map_eq_ok]
  refine and_congr_right ?_
  rintro rfl
  rfl

/-- Removals. -/
theorem mkUndefine_eq_ok : mkUndefine key = .ok e ↔ e = .undefine key ∧ e.IsBuilt := by
  have hchecked : mkUndefine key = (checkKey key).map fun _ => .undefine key := by
    unfold mkUndefine
    cases checkKey key <;> rfl
  rw [hchecked, checkKey_map_eq_ok]
  refine and_congr_right ?_
  rintro rfl
  rfl

/-! ## Other children -/

/-- Cutting a list into rows adds nothing. -/
theorem mem_of_mem_cutLike {c : Expr K} {elements : List (Expr K)}
    (hc : c ∈ (cutLike rows elements).flatten) : c ∈ elements := by
  induction rows generalizing elements with
  | nil => cases hc
  | cons row rows ih =>
    rw [cutLike, List.flatten_cons, List.mem_append] at hc
    rcases hc with hc | hc
    · exact List.mem_of_mem_take hc
    · exact List.mem_of_mem_drop (ih hc)

/-- A node rebuilt from well-formed children is well formed. -/
theorem WellFormed.rebuild {children : List (Expr K)} (he : e.WellFormed)
    (hchildren : ∀ c ∈ children, c.WellFormed) (h : e.rebuild children = .ok e') :
    e'.WellFormed := by
  unfold Expr.rebuild at h
  split at h
  · cases h
    exact .node trivial hchildren
  · cases h
    exact .node trivial hchildren
  · obtain ⟨rfl, hbuilt⟩ := mkBuiltin_eq_ok.1 h
    exact .node hbuilt hchildren
  · cases h
    exact .node trivial hchildren
  · obtain ⟨rfl, hbuilt⟩ := mkVector_eq_ok.1 h
    exact .node hbuilt hchildren
  · obtain ⟨rfl, hbuilt⟩ := mkMatrix_eq_ok.1 h
    exact .node hbuilt fun c hc => hchildren c (mem_of_mem_cutLike hc)
  · cases h
    exact .node trivial hchildren
  · cases h
    exact .node trivial hchildren
  · cases h
    exact .node trivial hchildren
  · cases h
    exact .node trivial hchildren
  · obtain ⟨rfl, hbuilt⟩ := mkDefine_eq_ok.1 h
    exact .node hbuilt hchildren
  · obtain ⟨rfl, hbuilt⟩ := mkUndefine_eq_ok.1 h
    exact .node hbuilt hchildren
  · cases h
    exact .node trivial hchildren
  · cases h
    exact he

/-- A copy with some children replaced by well-formed ones is well formed. -/
theorem WellFormed.withChildren {replacements : List (Option (Expr K))} (he : e.WellFormed)
    (hreplacements : ∀ new, some new ∈ replacements → new.WellFormed)
    (h : e.withChildren replacements = .ok e') : e'.WellFormed := by
  unfold Expr.withChildren at h
  split at h
  · refine he.rebuild (fun c hc => ?_) h
    rw [← List.map_uncurry_zip_eq_zipWith] at hc
    obtain ⟨⟨old, new?⟩, hpair, rfl⟩ := List.mem_map.1 hc
    obtain ⟨hold, hnew⟩ := List.of_mem_zip hpair
    cases new? with
    | some new => exact hreplacements new hnew
    | none => exact he.child old hold
  · cases h

/-! ## Derivatives and simplifications -/

/-- Literals. -/
theorem WellFormed.number (value : K) : (Expr.number value).WellFormed := .node trivial nofun

/-- Arithmetic makes well-formed trees of well-formed ones. -/
theorem isArithmetic_wellFormed : IsArithmetic (WellFormed : Expr K → Prop) where
  child he hc := he.child _ hc
  number := .number
  minus ha := .node trivial (List.forall_mem_singleton.2 ha)
  binary ha hb := .node trivial (List.forall_mem_cons.2 ⟨ha, List.forall_mem_singleton.2 hb⟩)
  builtin _ harity has := .node harity has

/-- The condition on a node concerns its kind, the lengths of its rows, its key and the number of
its children. -/
theorem IsBuilt.of_eq (h : e.IsBuilt) (hkind : e'.kind = e.kind)
    (hrows : e'.rowLengths = e.rowLengths) (hkey : e'.key? = e.key?)
    (hlength : e'.children.length = e.children.length) : e'.IsBuilt := by
  cases e' with
  | builtin f as' =>
    cases e with
    | builtin =>
      cases hkind
      exact (congrArg f.arity.accepts hlength).trans h
    | _ => cases hkind
  | vector as' =>
    cases e with
    | vector => exact List.ne_nil_of_length_pos (hlength ▸ List.length_pos_iff.2 h)
    | _ => cases hkind
  | matrix rows' =>
    cases e with
    | matrix => exact IsRectangular.of_lengths h hrows
    | _ => cases hkind
  | define key' value' =>
    cases e with
    | define =>
      cases hkey
      exact h
    | _ => cases hkind
  | undefine key' =>
    cases e with
    | undefine =>
      cases hkey
      exact h
    | _ => cases hkind
  | _ => trivial

/-- Pruning leaves a tree well formed. -/
theorem isPruning_wellFormed :
    IsPruning fun e e' : Expr K => e.WellFormed → e'.WellFormed where
  refl _ h := h
  trans h h' he := h' (h he)
  child hc h := h.child _ hc
  number value _ := .number value
  bool _ _ := .node trivial nofun
  minus h := .node trivial (List.forall_mem_singleton.2 (h.child _ (.tail _ (.head _))))
  node {e e'} hkind hrows hkey _ hchildren h := by
    have hlength := hchildren.length_eq
    have hroot : e'.IsBuilt := h.root.of_eq hkind hrows hkey hlength.symm
    refine .node hroot fun c' hc' => ?_
    obtain ⟨i, hi, rfl⟩ := List.mem_iff_getElem.1 hc'
    exact hchildren.get (hlength ▸ hi) hi (h.child _ (List.getElem_mem _))

variable [Scalar K]

/-- The derivative of a well-formed tree is well formed. -/
theorem WellFormed.derivative {x : String} {d : Expr K} (he : e.WellFormed)
    (hd : derivative x e = .ok d) : d.WellFormed :=
  isArithmetic_wellFormed.derivative he hd

/-- A well-formed tree simplified is well formed. -/
theorem WellFormed.simplifyWith {assumed : TypeGuess} (he : e.WellFormed) :
    (e.simplifyWith assumed).WellFormed :=
  isPruning_wellFormed.simplifyWith e he

end Expr

end Formula

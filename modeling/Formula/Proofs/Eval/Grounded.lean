import Formula.Evaluate
import Formula.Proofs.Derivative
import Formula.Proofs.Simplify.Pruning

/-!
# How deep derivatives at a point nest

A derivative at a point is evaluated: what it leads to is computed at run time from its first
argument, or from the function value that the argument stands for. `Grounded n e` bounds that. The
tree `e` has no loops, at most `n` derivatives at a point lie inside each other, and the arguments
of calls whose value is a tree hold none at all. The bound passes to subtrees, to derivatives and
to simplifications, so that it decreases with every derivative at a point that is evaluated.

Every tree has a bound if it has no loop and stores no derivative at a point
(`Expr.exists_grounded`).
-/

namespace Formula.Expr

variable {K : Type} {n m : Nat} {e c : Expr K}

/-! ## Nodes -/

/-- A loop. -/
def isLoop (e : Expr K) : Bool := e.kind = .forLoop || e.kind = .whileLoop

/-- A call of `deriv` at a point. -/
def isPoint (e : Expr K) : Bool := e.kind = .builtin .derivative && e.children.length = 3

/-- A call whose value is a tree. -/
def yieldsTree (e : Expr K) : Bool :=
  (e.kind = .builtin .derivative || e.kind = .builtin .simplify) && !e.isPoint

/-- A call whose value is a tree that may hold a derivative at a point. -/
def yieldsPoint (e : Expr K) : Bool := e.yieldsTree && e.children.any (occurs isPoint)

/-- The tree has no loops. -/
def isLoopFree (e : Expr K) : Bool := !e.occurs isLoop

/-- The tree puts derivatives at a point into function values: one stands inside of an argument of
`simplify`, or of `deriv` without a point. -/
def storesPoint (e : Expr K) : Bool := e.occurs yieldsPoint

/-! ## The bound -/

/-- No loops, at most `n` derivatives at a point inside each other, and none inside of calls whose
value is a tree. -/
inductive Grounded : Nat → Expr K → Prop
  | plain {n : Nat} {e : Expr K} (hloop : e.isLoop = false) (htree : e.yieldsTree = false)
      (hpoint : e.isPoint = false) (h : ∀ c ∈ e.children, Grounded n c) : Grounded n e
  | tree {n : Nat} {e : Expr K} (htree : e.yieldsTree = true)
      (h : ∀ c ∈ e.children, Grounded 0 c) : Grounded n e
  | point {n : Nat} {e : Expr K} (hpoint : e.isPoint = true)
      (h : ∀ c ∈ e.children, Grounded n c) : Grounded (n + 1) e

/-- A derivative at a point is no loop. -/
theorem isLoop_of_isPoint (h : e.isPoint = true) : e.isLoop = false := by
  simp only [isPoint, Bool.and_eq_true, decide_eq_true_eq] at h
  simp [isLoop, h.1]

/-- A call whose value is a tree is no loop. -/
theorem isLoop_of_yieldsTree (h : e.yieldsTree = true) : e.isLoop = false := by
  simp only [yieldsTree, Bool.and_eq_true, Bool.or_eq_true, decide_eq_true_eq] at h
  rcases h.1 with h | h <;> simp [isLoop, h]

/-- Bounds can be raised. -/
theorem Grounded.mono (h : Grounded n e) (hnm : n ≤ m) : Grounded m e := by
  induction h generalizing m with
  | plain hloop htree hpoint _ ih => exact .plain hloop htree hpoint fun c hc => ih c hc hnm
  | tree htree h _ => exact .tree htree h
  | point hpoint _ ih =>
    obtain ⟨m, rfl⟩ : ∃ k, m = k + 1 := Nat.exists_eq_add_one.2 (Nat.zero_lt_of_lt hnm)
    exact .point hpoint fun c hc => ih c hc (Nat.le_of_succ_le_succ hnm)

/-- A subtree has the bound of the tree. -/
theorem Grounded.child (h : Grounded n e) (hc : c ∈ e.children) : Grounded n c := by
  cases h with
  | plain _ _ _ h => exact h c hc
  | tree _ h => exact (h c hc).mono (Nat.zero_le n)
  | point _ h => exact (h c hc).mono (Nat.le_succ _)

/-- There are no loops. -/
theorem Grounded.isLoop (h : Grounded n e) : e.isLoop = false := by
  cases h with
  | plain hloop _ _ _ => exact hloop
  | tree htree _ => exact isLoop_of_yieldsTree htree
  | point hpoint _ => exact isLoop_of_isPoint hpoint

/-- What becomes a value holds no derivative at a point. -/
theorem Grounded.of_yieldsTree (h : Grounded n e) (he : e.yieldsTree = true)
    (hc : c ∈ e.children) : Grounded 0 c := by
  cases h with
  | plain _ htree _ _ => simp [he] at htree
  | tree _ h => exact h c hc
  | point hpoint _ => simp [yieldsTree, hpoint] at he

/-- A derivative at a point uses the bound up by one. -/
theorem Grounded.of_isPoint (h : Grounded n e) (he : e.isPoint = true) :
    ∃ m, n = m + 1 ∧ ∀ c ∈ e.children, Grounded m c := by
  cases h with
  | plain _ _ hpoint _ => simp [he] at hpoint
  | tree htree _ => simp [yieldsTree, he] at htree
  | @point m _ _ h => exact ⟨m, rfl, h⟩

/-! ## Derivatives and simplifications -/

/-- Literals. -/
theorem Grounded.number (value : K) : Grounded n (.number value) := .plain rfl rfl rfl nofun

/-- The bound goes along with arithmetic. -/
theorem isArithmetic_grounded : IsArithmetic (Grounded n : Expr K → Prop) where
  child := Grounded.child
  number := .number
  minus ha := .plain rfl rfl rfl (List.forall_mem_singleton.2 ha)
  binary ha hb := .plain rfl rfl rfl (List.forall_mem_cons.2 ⟨ha, List.forall_mem_singleton.2 hb⟩)
  builtin {f as} hf _ has := by
    have hkind : f ≠ .derivative ∧ f ≠ .simplify := by
      constructor <;> rintro rfl <;> cases hf
    exact .plain rfl (by simp [yieldsTree, kind, hkind]) (by simp [isPoint, kind, hkind]) has

/-- The bound goes along with pruning. -/
theorem isPruning_grounded :
    IsPruning fun e e' : Expr K => ∀ n, Grounded n e → Grounded n e' where
  refl _ _ h := h
  trans h h' n he := h' n (h n he)
  child hc _ h := h.child hc
  number _ _ _ := .number _
  bool _ _ _ := .plain rfl rfl rfl nofun
  minus _ h := .plain rfl rfl rfl (List.forall_mem_singleton.2 (h.child (.tail _ (.head _))))
  node {e e'} hkind _ _ _ hchildren n h := by
    have hlength := hchildren.length_eq
    have hall {m : Nat} (h : ∀ c ∈ e.children, Grounded m c) : ∀ c ∈ e'.children, Grounded m c := by
      intro c' hc'
      obtain ⟨i, hi, rfl⟩ := List.mem_iff_getElem.1 hc'
      exact hchildren.get (hlength ▸ hi) hi m (h _ (List.getElem_mem _))
    have hpoint : e'.isPoint = e.isPoint := by rw [isPoint, isPoint, hkind, hlength]
    have htree : e'.yieldsTree = e.yieldsTree := by rw [yieldsTree, yieldsTree, hkind, hpoint]
    have hloop : e'.isLoop = e.isLoop := by rw [Expr.isLoop, Expr.isLoop, hkind]
    cases h with
    | plain hl ht hp h => exact .plain (hloop ▸ hl) (htree ▸ ht) (hpoint ▸ hp) (hall h)
    | tree ht h => exact .tree (htree ▸ ht) (hall h)
    | point hp h => exact .point (hpoint ▸ hp) (hall h)

/-- A simplified derivative has the bound of the tree. -/
theorem Grounded.derivative [Scalar K] {x : String} {d : Expr K} (h : Grounded n e)
    (hd : derivative x e = .ok d) : Grounded n d.simplifyReal :=
  isPruning_grounded.simplifyWith d n (isArithmetic_grounded.derivative h hd)

/-- A simplification has the bound of the tree. -/
theorem Grounded.simplify [Scalar K] (h : Grounded n e) : Grounded n e.simplify :=
  isPruning_grounded.simplifyWith e n h

/-! ## Trees with a bound -/

/-- Without loops and derivatives at a point the bound is zero. -/
theorem grounded_zero (hloop : e.occurs isLoop = false) (hpoint : e.occurs isPoint = false) :
    Grounded 0 e := by
  induction e using children_induction with
  | h e ih =>
    obtain ⟨hloop, hloops⟩ := occurs_eq_false hloop
    obtain ⟨hpoint, hpoints⟩ := occurs_eq_false hpoint
    have h : ∀ c ∈ e.children, Grounded 0 c := fun c hc => ih c hc (hloops c hc) (hpoints c hc)
    cases htree : e.yieldsTree with
    | true => exact .tree htree h
    | false => exact .plain hloop htree hpoint h

/-- Trees with bounds have a bound together. -/
theorem exists_forall_grounded : ∀ {as : List (Expr K)}, (∀ a ∈ as, ∃ n, Grounded n a) →
    ∃ n, ∀ a ∈ as, Grounded n a
  | [], _ => ⟨0, nofun⟩
  | _ :: _, h => by
    obtain ⟨⟨n, ha⟩, has⟩ := List.forall_mem_cons.1 h
    obtain ⟨m, has⟩ := exists_forall_grounded has
    exact ⟨max n m, List.forall_mem_cons.2
      ⟨ha.mono (Nat.le_max_left n m), fun a h => (has a h).mono (Nat.le_max_right n m)⟩⟩

/-- **Derivatives at a point nest in bounds** if there are no loops and none is stored. -/
theorem exists_grounded (hloop : e.isLoopFree = true) (hstores : e.storesPoint = false) :
    ∃ n, Grounded n e := by
  rw [isLoopFree, Bool.not_eq_true'] at hloop
  rw [storesPoint] at hstores
  induction e using children_induction with
  | h e ih =>
    obtain ⟨hl, hloops⟩ := occurs_eq_false hloop
    obtain ⟨hs, hstored⟩ := occurs_eq_false hstores
    obtain ⟨n, h⟩ := exists_forall_grounded fun c hc => ih c hc (hloops c hc) (hstored c hc)
    cases hpoint : e.isPoint with
    | true => exact ⟨n + 1, .point hpoint h⟩
    | false =>
      cases htree : e.yieldsTree with
      | false => exact ⟨n, .plain hl htree hpoint h⟩
      | true =>
        have hnone : ∀ c ∈ e.children, c.occurs isPoint = false := by
          simpa [yieldsPoint, htree] using hs
        exact ⟨0, .tree htree fun c hc => grounded_zero (hloops c hc) (hnone c hc)⟩

end Formula.Expr

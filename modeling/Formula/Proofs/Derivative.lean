import Formula.Derivative
import Formula.Proofs.Expr
import Formula.Proofs.Result

/-!
# What derivatives are made of

A derivative is built from subtrees of the tree with numbers, signs, binary operators and the
built-in functions that have values. `IsArithmetic P` says that a property of trees goes along with
that; it then passes from a tree to its derivative.

No rule asks for a node that cannot be built: what has no derivative has none because a node that
mentions the variable has no rule (`derivative_eq_error`).
-/

namespace Formula.Expr

variable {K : Type} {P : Expr K → Prop}

/-- The property passes from a tree to its subtrees, and from subtrees to what arithmetic makes of
them. -/
structure IsArithmetic (P : Expr K → Prop) : Prop where
  child : ∀ {e c}, P e → c ∈ e.children → P c
  number : ∀ value, P (number value)
  minus : ∀ {a}, P a → P (unary .minus a)
  binary : ∀ {op a b}, P a → P b → P (binary op a b)
  builtin : ∀ {f as}, f.isSymbolic = false → f.arity.accepts as.length = true → (∀ a ∈ as, P a) →
    P (builtin f as)

/-- A tree that does not mention the variable has the derivative zero. -/
theorem derivative_of_not_hasVariable [Scalar K] {x : String} {e : Expr K}
    (hx : e.hasVariable x = false) : derivative x e = .ok (integer 0) := by
  rw [derivative.eq_def, hx]
  rfl

/-! ## What a derivative comes from -/

section

variable [Scalar K] {x : String} {a b d : Expr K}

/-- The derivative of a power comes from those of its base and of its exponent. -/
theorem derivative_pow_ok (hx : (binary .pow a b).hasVariable x = true)
    (h : derivative x (binary .pow a b) = .ok d) :
    ∃ da db, derivative x a = .ok da ∧ derivative x b = .ok db ∧
      powerRule x a b da db = .ok d := by
  rw [derivative, hx] at h
  obtain ⟨db, hdb, h⟩ := Result.bind_ok h
  obtain ⟨da, hda, h⟩ := Result.bind_ok h
  exact ⟨da, db, hda, hdb, h⟩

/-- The derivative of a call comes from that of its first argument by the chain rule, and the
second argument does not mention the variable. -/
theorem derivative_builtin_ok {f : Builtin} {rest : List (Expr K)}
    (hx : (builtin f (a :: rest)).hasVariable x = true)
    (h : derivative x (builtin f (a :: rest)) = .ok d) :
    rest.head?.any (hasVariable x) = false ∧
      ∃ da, derivative x a = .ok da ∧ chainRule f a da rest.head? = .ok d := by
  rw [derivative, hx] at h
  split at h
  · next habsent => cases habsent
  split at h
  · cases h
  · next hrest => exact ⟨Bool.eq_false_iff.2 hrest, Result.bind_ok h⟩

end

/-! ## What has no derivative -/

section

variable [Scalar K] {x : String} {e u v du dv : Expr K} {cause : DerivativeError}

/-- The chain rule builds all its nodes. -/
theorem chainRule_eq_error {f : Builtin} {second? : Option (Expr K)}
    (h : chainRule f u du second? = .error cause) : cause = .noRule (.builtin f) := by
  cases f
  case root | log =>
    cases second? with
    | none =>
      cases h
      rfl
    | some s => cases h
  all_goals cases h <;> rfl

/-- The derivative of a power is there. -/
theorem powerRule_ne_error : powerRule x u v du dv ≠ .error cause := by
  unfold powerRule
  intro h
  split at h
  · cases h
  · split at h <;> cases h

/-- **A tree has no derivative only for want of a rule**, for a node that mentions the variable. -/
theorem derivative_eq_error (h : derivative x e = .error cause) : ∃ kind, cause = .noRule kind ∧
    e.occurs (fun s => s.kind = kind && s.hasVariable x) = true := by
  have hroot {e : Expr K} (hx : ¬(!e.hasVariable x) = true) : ∃ kind,
      DerivativeError.noRule e.kind = .noRule kind ∧
        e.occurs (fun s => s.kind = kind && s.hasVariable x) = true := by
    refine ⟨e.kind, rfl, ?_⟩
    rw [occurs_eq]
    rw [Bool.or_eq_true_iff]
    exact .inl (by simpa using hx)
  have hpart {e c : Expr K} (hc : c ∈ e.children) (h : ∃ kind, cause = .noRule kind ∧
      c.occurs (fun s => s.kind = kind && s.hasVariable x) = true) : ∃ kind, cause = .noRule kind ∧
        e.occurs (fun s => s.kind = kind && s.hasVariable x) = true := by
    obtain ⟨kind, hcause, hoccurs⟩ := h
    refine ⟨kind, hcause, ?_⟩
    rw [occurs_eq, Bool.or_eq_true_iff]
    exact .inr (List.any_eq_true.2 ⟨c, hc, hoccurs⟩)
  fun_induction derivative x e with
  | case1 | case2 => cases h
  | case3 a _ iha =>
    rcases Result.bind_eq_error h with h | ⟨_, -, h⟩
    · exact hpart (.head _) (iha h)
    · cases h
  | case4 a b _ iha ihb | case5 a b _ iha ihb | case6 a b _ iha ihb | case7 a b _ iha ihb =>
    rcases Result.bind_eq_error h with h | ⟨_, -, h⟩
    · exact hpart (.head _) (iha h)
    · rcases Result.bind_eq_error h with h | ⟨_, -, h⟩
      · exact hpart (.tail _ (.head _)) (ihb h)
      · cases h
  | case8 a b _ ihb iha =>
    rcases Result.bind_eq_error h with h | ⟨_, -, h⟩
    · exact hpart (.tail _ (.head _)) (ihb h)
    · rcases Result.bind_eq_error h with h | ⟨_, -, h⟩
      · exact hpart (.head _) (iha h)
      · exact absurd h powerRule_ne_error
  | case9 f a rest _ hx =>
    cases h
    exact hroot hx
  | case10 f a rest _ hx iha =>
    rcases Result.bind_eq_error h with h | ⟨_, -, h⟩
    · exact hpart (.head _) (iha h)
    · cases chainRule_eq_error h
      exact hroot hx
  | case11 e _ _ _ _ _ _ _ _ hx =>
    cases h
    exact hroot hx

end

namespace IsArithmetic

variable [Scalar K] (h : IsArithmetic P) {u v du dv e : Expr K} {x : String}

include h

/-- The chain rule. -/
theorem chainRule {f : Builtin} {second? : Option (Expr K)} (hu : P u) (hdu : P du)
    (hsecond : ∀ s ∈ second?, P s) (he : chainRule f u du second? = .ok e) : P e := by
  have hlist {as : List (Expr K)} (has : ∀ a ∈ as, P a) : ∀ a ∈ u :: as, P a :=
    List.forall_mem_cons.2 ⟨hu, has⟩
  cases f
  case root | log =>
    cases second? with
    | none => cases he
    | some s =>
      have hs := hsecond s rfl
      cases he
      repeat' first
        | assumption
        | refine h.binary ?_ ?_
        | exact h.builtin rfl rfl (hlist (List.forall_mem_singleton.2 hs))
        | refine h.builtin rfl rfl (List.forall_mem_singleton.2 ?_)
  all_goals
    cases he
    repeat' first
      | assumption
      | exact h.number _
      | refine h.minus ?_
      | refine h.binary ?_ ?_
      | refine h.builtin rfl rfl (List.forall_mem_singleton.2 ?_)

/-- The derivative of a power. -/
theorem powerRule (hu : P u) (hv : P v) (hdu : P du) (hdv : P dv)
    (he : powerRule x u v du dv = .ok e) : P e := by
  have hpow {w : Expr K} (hw : P w) : P (Expr.binary .pow u w) := h.binary hu hw
  have hln : P (Expr.builtin .ln [u]) := h.builtin rfl rfl (List.forall_mem_singleton.2 hu)
  unfold Expr.powerRule at he
  split at he
  · cases he
    exact h.binary (h.binary hv (hpow (h.binary hv (h.number _)))) hdu
  · split at he <;> cases he
    · exact h.binary (h.binary (hpow hv) hln) hdv
    · exact h.binary (hpow hv) (h.binary (h.binary hdv hln) (h.binary (h.binary hv hdu) hu))

/-- **The derivative of a tree has the property if the tree has it.** -/
theorem derivative {d : Expr K} (he : P e) (hd : derivative x e = .ok d) : P d := by
  fun_induction Expr.derivative x e generalizing d with
  | case1 | case2 =>
    cases hd
    exact h.number _
  | case3 a _ iha =>
    obtain ⟨da, hda, hd⟩ := Result.bind_ok hd
    cases hd
    exact h.minus (iha (h.child he (.head _)) hda)
  | case4 a b _ iha ihb | case5 a b _ iha ihb | case6 a b _ iha ihb | case7 a b _ iha ihb =>
    have ha : P a := h.child he (.head _)
    have hb : P b := h.child he (.tail _ (.head _))
    obtain ⟨da, hda, hd⟩ := Result.bind_ok hd
    obtain ⟨db, hdb, hd⟩ := Result.bind_ok hd
    have hda := iha ha hda
    have hdb := ihb hb hdb
    cases hd
    repeat' first
      | assumption
      | exact h.number _
      | refine h.binary ?_ ?_
  | case8 a b _ ihb iha =>
    have ha : P a := h.child he (.head _)
    have hb : P b := h.child he (.tail _ (.head _))
    obtain ⟨db, hdb, hd⟩ := Result.bind_ok hd
    obtain ⟨da, hda, hd⟩ := Result.bind_ok hd
    exact h.powerRule ha hb (iha ha hda) (ihb hb hdb) hd
  | case9 | case11 => cases hd
  | case10 f a rest _ _ iha =>
    have ha : P a := h.child he (.head _)
    obtain ⟨da, hda, hd⟩ := Result.bind_ok hd
    refine h.chainRule ha (iha ha hda) (fun s hs => h.child he ?_) hd
    exact .tail _ (List.mem_of_mem_head? hs)

end IsArithmetic

/-! ## Variables -/

/-- Arithmetic brings in no variable. -/
theorem isArithmetic_not_hasVariable (y : String) :
    IsArithmetic fun e : Expr K => e.hasVariable y = false where
  child h hc := Bool.eq_false_iff.2 (List.any_eq_false.1 (any_hasVariable_children h) _ hc)
  number _ := rfl
  minus h := h
  binary ha hb := Bool.or_eq_false_iff.2 ⟨ha, hb⟩
  builtin _ _ has := by
    rw [hasVariable, hasVariableList_eq_any, List.any_eq_false]
    exact fun a ha => Bool.eq_false_iff.1 (has a ha)

/-- Differentiation brings in no variable. -/
theorem hasVariable_derivative [Scalar K] {x y : String} {e d : Expr K}
    (h : e.hasVariable y = false) (hd : derivative x e = .ok d) : d.hasVariable y = false :=
  (isArithmetic_not_hasVariable y).derivative h hd

end Formula.Expr

import Formula.Simplify

/-!
# Simplified trees stay as they are

`Expr.IsSimplified` says that no rule of the simplifier changes any node of a tree. A simplified
tree is its own simplification, by induction over the tree, and a simplification is simplified,
because the rules at one node return a literal, an operand, an operand without its sign, or the
node itself. The two together make `Expr.simplify` and `Expr.simplifyReal` idempotent, whatever
the numbers are and whatever the tree contains.
-/

namespace Formula.Expr

variable {K : Type} [Scalar K] {assumed : TypeGuess}

/-! ## Simplified trees -/

mutual

/-- No rule changes a node of the tree, where every variable has the type `assumed`. The key of a
definition is not looked at. -/
def IsSimplified (assumed : TypeGuess) : Expr K → Prop
  | unary op a => IsSimplified assumed a ∧ simplifyUnary op a = unary op a
  | binary op a b =>
    IsSimplified assumed a ∧ IsSimplified assumed b ∧ simplifyBinary assumed op a b = binary op a b
  | builtin f as =>
    IsSimplifiedList assumed as ∧ (f.isSymbolic = false → foldBuiltin f as = builtin f as)
  | call _ as | vector as => IsSimplifiedList assumed as
  | matrix rows => IsSimplifiedRows assumed rows
  | ifThen c a => IsSimplified assumed c ∧ IsSimplified assumed a ∧ c ≠ bool true
  | ifThenElse c a b =>
    IsSimplified assumed c ∧ IsSimplified assumed a ∧ IsSimplified assumed b ∧
      ∀ holds, c ≠ bool holds
  | forLoop a b c d =>
    IsSimplified assumed a ∧ IsSimplified assumed b ∧ IsSimplified assumed c ∧
      IsSimplified assumed d
  | whileLoop a c => IsSimplified assumed a ∧ IsSimplified assumed c
  | define _ value | assign _ _ value => IsSimplified assumed value
  | number _ | bool _ | polar _ _ | string _ | angle _ | var _ | undefine _ | step _ _ => True

/-- `IsSimplified` for every tree of a list. -/
def IsSimplifiedList (assumed : TypeGuess) : List (Expr K) → Prop
  | [] => True
  | a :: as => IsSimplified assumed a ∧ IsSimplifiedList assumed as

/-- `IsSimplified` for every tree of some rows. -/
def IsSimplifiedRows (assumed : TypeGuess) : List (List (Expr K)) → Prop
  | [] => True
  | row :: rows => IsSimplifiedList assumed row ∧ IsSimplifiedRows assumed rows

end

mutual

/-- A simplified tree is its own simplification. -/
theorem IsSimplified.unchanged : ∀ {e : Expr K}, IsSimplified assumed e →
    simplifyWith assumed e = e
  | .unary _ _, ⟨ha, hnode⟩ => by rw [simplifyWith, ha.unchanged, hnode]
  | .binary _ _ _, ⟨ha, hb, hnode⟩ => by rw [simplifyWith, ha.unchanged, hb.unchanged, hnode]
  | .builtin f as, ⟨has, hnode⟩ => by
    rw [simplifyWith, IsSimplifiedList.unchanged has]
    split
    · rfl
    · next hf => exact hnode (by simpa using hf)
  | .call _ _, has => by rw [simplifyWith, IsSimplifiedList.unchanged has]
  | .vector _, has => by rw [simplifyWith, IsSimplifiedList.unchanged has]
  | .matrix _, hrows => by rw [simplifyWith, IsSimplifiedRows.unchanged hrows]
  | .ifThen c a, ⟨hc, ha, hopen⟩ => by
    rw [simplifyWith, hc.unchanged, ha.unchanged]
    split
    · exact absurd rfl hopen
    · rfl
  | .ifThenElse c a b, ⟨hc, ha, hb, hopen⟩ => by
    rw [simplifyWith, hc.unchanged, ha.unchanged, hb.unchanged]
    split
    · exact absurd rfl (hopen true)
    · exact absurd rfl (hopen false)
    · rfl
  | .forLoop _ _ _ _, ⟨ha, hb, hc, hd⟩ => by
    rw [simplifyWith, ha.unchanged, hb.unchanged, hc.unchanged, hd.unchanged]
  | .whileLoop _ _, ⟨ha, hc⟩ => by rw [simplifyWith, ha.unchanged, hc.unchanged]
  | .define _ value, h => by rw [simplifyWith, IsSimplified.unchanged (e := value) h]
  | .assign _ _ value, h => by rw [simplifyWith, IsSimplified.unchanged (e := value) h]
  | .number _, _ | .bool _, _ | .polar _ _, _ | .string _, _ | .angle _, _ | .var _, _
  | .undefine _, _ | .step _ _, _ => rfl

/-- `IsSimplified.unchanged` over a list of trees. -/
theorem IsSimplifiedList.unchanged : ∀ {as : List (Expr K)}, IsSimplifiedList assumed as →
    simplifyList assumed as = as
  | [], _ => rfl
  | _ :: _, ⟨ha, has⟩ => by rw [simplifyList, ha.unchanged, IsSimplifiedList.unchanged has]

/-- `IsSimplified.unchanged` over the rows of a matrix. -/
theorem IsSimplifiedRows.unchanged : ∀ {rows : List (List (Expr K))},
    IsSimplifiedRows assumed rows → simplifyRows assumed rows = rows
  | [], _ => rfl
  | _ :: _, ⟨hrow, hrows⟩ => by
    rw [simplifyRows, IsSimplifiedList.unchanged hrow, IsSimplifiedRows.unchanged hrows]

end

/-! ## Rules at one node -/

/-- A literal is simplified, and so is the tree it was not put in place of. -/
theorem literalOr_isSimplified {e : Expr K} {result : Result K (Value K)}
    (h : literalOr e result = e → IsSimplified assumed e) :
    IsSimplified assumed (literalOr e result) := by
  unfold literalOr at h ⊢
  split at h
  · split at h
    · next hfinite => rw [if_pos hfinite]; trivial
    · next hinfinite => rw [if_neg hinfinite]; exact h rfl
  · trivial
  · exact h rfl

/-- Evaluating an operator of one literal gives a simplified tree, if the operator stays only where
no other rule applies. -/
theorem foldUnary_isSimplified {op : UnaryOp} {a : Expr K}
    (h : foldUnary op a = unary op a → IsSimplified assumed (unary op a)) :
    IsSimplified assumed (foldUnary op a) := by
  unfold foldUnary at h ⊢
  split at h
  · exact literalOr_isSimplified h
  · exact h rfl

/-- Evaluating an operator of two literals gives a simplified tree, if the operator stays only
where no other rule applies. -/
theorem foldBinary_isSimplified {op : BinaryOp} {a b : Expr K}
    (h : foldBinary op a b = binary op a b → IsSimplified assumed (binary op a b)) :
    IsSimplified assumed (foldBinary op a b) := by
  unfold foldBinary at h ⊢
  split at h
  · exact literalOr_isSimplified h
  · exact h rfl

/-- Evaluating a function of literals gives a simplified tree, if its arguments are simplified. -/
theorem foldBuiltin_isSimplified {f : Builtin} {as : List (Expr K)}
    (has : IsSimplifiedList assumed as) : IsSimplified assumed (foldBuiltin f as) := by
  have hnode : foldBuiltin f as = builtin f as → IsSimplified assumed (builtin f as) :=
    fun h => ⟨has, fun _ => h⟩
  unfold foldBuiltin at hnode ⊢
  split at hnode
  · exact literalOr_isSimplified hnode
  · exact hnode rfl

/-- The negative of a simplified tree is simplified: it loses a sign, is another literal, or has a
sign in front of something else. -/
theorem IsSimplified.negated {a : Expr K} (ha : IsSimplified assumed a) :
    IsSimplified assumed a.negated := by
  unfold Expr.negated
  split
  · exact ha.1
  · trivial
  · next hminus hnumber =>
    have hnode : Expr.simplifyUnary .minus a = unary .minus a := by
      rw [Expr.simplifyUnary, Expr.negated]
      · exact hminus
      · exact hnumber
    exact ⟨ha, hnode⟩

/-- A unary operator on a simplified tree gives a simplified tree. -/
theorem IsSimplified.simplifyUnary {op : UnaryOp} {a : Expr K} (ha : IsSimplified assumed a) :
    IsSimplified assumed (simplifyUnary op a) := by
  unfold Expr.simplifyUnary
  split
  · exact ha.negated
  · exact ha.1
  · next hminus hnot =>
    have hrule : Expr.simplifyUnary op a = foldUnary op a := by
      rw [Expr.simplifyUnary]
      · exact hminus
      · exact hnot
    exact foldUnary_isSimplified fun h => ⟨ha, hrule.trans h⟩

/-- The rules for a binary operator on simplified operands: an operand is neutral, it decides the
result, or literals are evaluated. -/
inductive BinaryRule (assumed : TypeGuess) (a b : Expr K) : BinaryOp → Expr K → Prop
  | addZero : isLiteral Scalar.zero b = true → a.isReal assumed = true →
    BinaryRule assumed a b .add a
  | zeroAdd : isLiteral Scalar.zero a = true → b.isReal assumed = true →
    BinaryRule assumed a b .add b
  | subZero : isLiteral Scalar.zero b = true → BinaryRule assumed a b .sub a
  | zeroSub : isLiteral Scalar.zero a = true → (literal? b).isNone = true →
    BinaryRule assumed a b .sub b.negated
  | mulOne : isLiteral Scalar.one b = true → BinaryRule assumed a b .mul a
  | oneMul : isLiteral Scalar.one a = true → BinaryRule assumed a b .mul b
  | zeroMul : isLiteral Scalar.zero a = true → b.isDiscardable assumed = true →
    BinaryRule assumed a b .mul (number Scalar.zero)
  | mulZero : isLiteral Scalar.zero b = true → a.isDiscardable assumed = true →
    BinaryRule assumed a b .mul (number Scalar.zero)
  | divOne : isLiteral Scalar.one b = true → BinaryRule assumed a b .div a
  | powOne : isLiteral Scalar.one b = true → a.isReal assumed = true →
    BinaryRule assumed a b .pow a
  | powZero : isLiteral Scalar.zero b = true → a.isDiscardable assumed = true →
    BinaryRule assumed a b .pow (number Scalar.one)
  | onePow : isLiteral Scalar.one a = true → b.isDiscardable assumed = true →
    BinaryRule assumed a b .pow (number Scalar.one)
  | fold {op : BinaryOp} : BinaryRule assumed a b op (foldBinary op a b)

/-- **A binary operator is simplified by one of the rules.** -/
theorem simplifyBinary_rule {op : BinaryOp} {a b e : Expr K}
    (h : simplifyBinary assumed op a b = e) : BinaryRule assumed a b op e := by
  have hand {p q : Bool} (hpq : (p && q) = true) : p = true ∧ q = true :=
    Bool.and_eq_true_iff.1 hpq
  subst h
  cases op with
  | add =>
    dsimp only [simplifyBinary]
    split
    · next h => exact .addZero (hand h).1 (hand h).2
    split
    · next h => exact .zeroAdd (hand h).1 (hand h).2
    · exact .fold
  | sub =>
    dsimp only [simplifyBinary]
    split
    · next h => exact .subZero h
    split
    · next h => exact .zeroSub (hand h).1 (hand h).2
    · exact .fold
  | mul =>
    dsimp only [simplifyBinary]
    split
    · next h => exact .mulOne h
    split
    · next h => exact .oneMul h
    split
    · next h => exact .zeroMul (hand h).1 (hand h).2
    split
    · next h => exact .mulZero (hand h).1 (hand h).2
    · exact .fold
  | div =>
    dsimp only [simplifyBinary]
    split
    · next h => exact .divOne h
    · exact .fold
  | pow =>
    dsimp only [simplifyBinary]
    split
    · next h => exact .powOne (hand h).1 (hand h).2
    split
    · next h => exact .powZero (hand h).1 (hand h).2
    split
    · next h => exact .onePow (hand h).1 (hand h).2
    · exact .fold
  | _ => exact .fold

/-- A binary operator on simplified trees gives a simplified tree. -/
theorem IsSimplified.simplifyBinary {op : BinaryOp} {a b : Expr K} (ha : IsSimplified assumed a)
    (hb : IsSimplified assumed b) : IsSimplified assumed (simplifyBinary assumed op a b) := by
  generalize hrule : Expr.simplifyBinary assumed op a b = e
  cases simplifyBinary_rule hrule with
  | addZero | subZero | mulOne | divOne | powOne => exact ha
  | zeroAdd | oneMul => exact hb
  | zeroSub => exact hb.negated
  | zeroMul | mulZero | powZero | onePow => trivial
  | fold => exact foldBinary_isSimplified fun h => ⟨ha, hb, hrule.trans h⟩

/-! ## Simplifying twice -/

mutual

/-- A simplification is simplified. -/
theorem isSimplified_simplifyWith : ∀ e : Expr K, IsSimplified assumed (simplifyWith assumed e)
  | .unary _ a => (isSimplified_simplifyWith a).simplifyUnary
  | .binary _ a b => (isSimplified_simplifyWith a).simplifyBinary (isSimplified_simplifyWith b)
  | .builtin f as => by
    have has := isSimplified_simplifyList as
    rw [simplifyWith]
    split
    · next hf => exact ⟨has, fun h => absurd h (by simp [hf])⟩
    · exact foldBuiltin_isSimplified has
  | .call _ as => isSimplified_simplifyList as
  | .vector as => isSimplified_simplifyList as
  | .matrix rows => isSimplified_simplifyRows rows
  | .ifThen c a => by
    have hc := isSimplified_simplifyWith c
    have ha := isSimplified_simplifyWith a
    rw [simplifyWith]
    split
    · exact ha
    · next hopen => exact ⟨hc, ha, hopen⟩
  | .ifThenElse c a b => by
    have hc := isSimplified_simplifyWith c
    have ha := isSimplified_simplifyWith a
    have hb := isSimplified_simplifyWith b
    rw [simplifyWith]
    split
    · exact ha
    · exact hb
    · next htrue hfalse => exact ⟨hc, ha, hb, Bool.rec hfalse htrue⟩
  | .forLoop a b c d =>
    ⟨isSimplified_simplifyWith a, isSimplified_simplifyWith b, isSimplified_simplifyWith c,
      isSimplified_simplifyWith d⟩
  | .whileLoop a c => ⟨isSimplified_simplifyWith a, isSimplified_simplifyWith c⟩
  | .define _ value => isSimplified_simplifyWith value
  | .assign _ _ value => isSimplified_simplifyWith value
  | .number _ | .bool _ | .polar _ _ | .string _ | .angle _ | .var _ | .undefine _ | .step _ _ =>
    trivial

/-- `isSimplified_simplifyWith` over a list of trees. -/
theorem isSimplified_simplifyList :
    ∀ as : List (Expr K), IsSimplifiedList assumed (simplifyList assumed as)
  | [] => trivial
  | a :: as => ⟨isSimplified_simplifyWith a, isSimplified_simplifyList as⟩

/-- `isSimplified_simplifyWith` over the rows of a matrix. -/
theorem isSimplified_simplifyRows :
    ∀ rows : List (List (Expr K)), IsSimplifiedRows assumed (simplifyRows assumed rows)
  | [] => trivial
  | row :: rows => ⟨isSimplified_simplifyList row, isSimplified_simplifyRows rows⟩

end

/-- **Simplifying twice is simplifying once**, with and without real variables. -/
theorem simplify_idempotent (e : Expr K) :
    e.simplify.simplify = e.simplify ∧ e.simplifyReal.simplifyReal = e.simplifyReal :=
  ⟨(isSimplified_simplifyWith e).unchanged, (isSimplified_simplifyWith e).unchanged⟩

end Formula.Expr

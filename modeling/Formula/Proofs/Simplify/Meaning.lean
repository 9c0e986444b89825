import Formula.Proofs.Eval.RealValues
import Formula.Proofs.Scalar.Powers
import Formula.Proofs.Simplify.Pruning
import Formula.Proofs.Simplify.Rules
import Formula.Proofs.Value.Neutral

/-!
# A meaning that simplification keeps

A simplified tree may have a value where the tree has none, and the other way round, so values alone
cannot be carried through a simplification. `Expr.meaning` extends them to all trees: what is not
defined counts as zero, or as nothing, and neutral operands are dropped whatever the other operand
is. Every rule of the simplifier keeps the meaning of every tree (`meaning_simplifyWith`), whether
or not it has a value; and where it has one, that is its meaning (`meaning_of_value?`).
-/

namespace Formula

open Scalar (zero one)

variable {K : Type} [Scalar K]

namespace Value

/-- The number, or zero in place of anything else. -/
def real : Value K → K
  | number a => a
  | _ => zero

/-- The negative of a value, if it has one. -/
def opposite (v : Value K) : Value K := (v.applyUnary .minus).toOption.getD v

/-- The complement of a value without a bound on integers, if it has one. -/
def inverted : Value K → Value K
  | bool b => bool !b
  | number a =>
    match Scalar.toInt? a with
    | some n => number (Scalar.ofInt (-n - 1))
    | none => number a
  | v => v

/-- A unary operator on a meaning. -/
def transform : UnaryOp → Value K → Value K
  | .minus, v => v.opposite
  | .not, v => v.inverted
  | .factorial, v => (v.applyUnary .factorial).toOption.getD .empty

/-- Real arithmetic, where a complex power counts as zero. -/
def realOperation (op : BinaryOp) (a b : K) : K :=
  if op = .pow && leavesReals a b then zero else realArithmetic op a b

/-- What remains of an operator that has a neutral operand. -/
def neutral? (op : BinaryOp) (v w : Value K) : Option (Value K) :=
  match op with
  | .add =>
    if w.isNumberEqual zero then some v else if v.isNumberEqual zero then some w else none
  | .sub =>
    if w.isNumberEqual zero then some v
    else if v.isNumberEqual zero then some w.opposite else none
  | .mul => if w.isNumberEqual one then some v else if v.isNumberEqual one then some w else none
  | .div | .pow => if w.isNumberEqual one then some v else none
  | _ => none

/-- A binary operator on meanings. -/
def combine (op : BinaryOp) (v w : Value K) : Value K :=
  if op.isAnalytic then (neutral? op v w).getD (number (realOperation op v.real w.real))
  else (Expr.applyDeciding op v w).toOption.getD .empty

/-! ## Laws -/

@[simp] theorem real_number (a : K) : (number a).real = a := rfl

@[simp] theorem opposite_number (a : K) : (number a).opposite = number (-a) := rfl

/-- A complement that is there. -/
theorem inverted_of_applyUnary {v w : Value K} (h : v.applyUnary .not = .ok w) :
    v.inverted = w := by
  cases v with
  | bool b =>
    cases h
    rfl
  | number a =>
    obtain ⟨n, hn, rfl⟩ := complement_number h
    rw [inverted, hn]
  | _ => cases h

section

variable [Scalar.ExactRing K]

/-- The real part of a negative. -/
@[simp] theorem real_opposite (v : Value K) : v.opposite.real = -v.real := by
  cases v with
  | number a => rfl
  | _ => exact (Scalar.neg_zero_eq).symm

/-- Two signs undo each other. -/
@[simp] theorem opposite_opposite (v : Value K) : v.opposite.opposite = v := by
  cases v <;> simp [opposite, applyUnary, negate, Except.toOption, Angle.map, Function.comp_def]

end

variable [Scalar.Exact K]

/-- Two complements undo each other. -/
@[simp] theorem inverted_inverted (v : Value K) : v.inverted.inverted = v := by
  have hinteger (n : Int) :
      (number (Scalar.ofInt n : K)).inverted = number (Scalar.ofInt (-n - 1)) := by
    rw [inverted, Scalar.Exact.toInt?_ofInt]
  cases v with
  | bool b => simp [inverted]
  | number a =>
    cases ha : Scalar.toInt? a with
    | none => simp [inverted, ha]
    | some n =>
      rw [← Scalar.Exact.ofInt_of_toInt? ha, hinteger, hinteger]
      simp
  | _ => rfl

/-- A number is known by its representation. -/
@[simp] theorem isNumberEqual_iff {a : K} {v : Value K} :
    v.isNumberEqual a = true ↔ v = number a := by
  cases v <;> simp [isNumberEqual, Scalar.Exact.identical_iff]

/-! ## Real arithmetic -/

section

variable {K : Type} [Scalar K] (a b : K)

@[simp] theorem realOperation_add : realOperation .add a b = a + b := rfl

@[simp] theorem realOperation_sub : realOperation .sub a b = a - b := rfl

@[simp] theorem realOperation_mul : realOperation .mul a b = a * b := rfl

@[simp] theorem realOperation_div : realOperation .div a b = a / b := rfl

/-- A power with an integer for its exponent. -/
theorem realOperation_pow_ofInt [Scalar.Exact K] (n : Int) :
    realOperation .pow a (Scalar.ofInt n) = Scalar.pow a (Scalar.ofInt n) := by
  simp [realOperation, leavesReals, isIntegral_ofInt, realArithmetic]

variable [Scalar.Exact K]

@[simp] theorem realOperation_pow_one : realOperation .pow a one = a :=
  (realOperation_pow_ofInt a 1).trans (Scalar.Exact.pow_one a)

@[simp] theorem realOperation_pow_zero : realOperation .pow a zero = one :=
  (realOperation_pow_ofInt a 0).trans (Scalar.Exact.pow_zero a)

@[simp] theorem realOperation_one_pow : realOperation .pow one a = one := by
  simp [realOperation, leavesReals, realArithmetic, Scalar.Exact.not_one_lt_zero,
    Scalar.Exact.one_pow]

end

/-! ## Binary operators -/

section

variable {op : BinaryOp} {a b : K} {v w : Value K}

omit [Scalar.Exact K] in
theorem combine_add : v.combine .add w = if w.isNumberEqual zero then v
    else if v.isNumberEqual zero then w else number (v.real + w.real) := by
  show Option.getD (ite _ _ (ite _ _ _)) _ = _
  split
  · rfl
  · split <;> rfl

omit [Scalar.Exact K] in
theorem combine_sub : v.combine .sub w = if w.isNumberEqual zero then v
    else if v.isNumberEqual zero then w.opposite else number (v.real - w.real) := by
  show Option.getD (ite _ _ (ite _ _ _)) _ = _
  split
  · rfl
  · split <;> rfl

omit [Scalar.Exact K] in
theorem combine_mul : v.combine .mul w = if w.isNumberEqual one then v
    else if v.isNumberEqual one then w else number (v.real * w.real) := by
  show Option.getD (ite _ _ (ite _ _ _)) _ = _
  split
  · rfl
  · split <;> rfl

omit [Scalar.Exact K] in
theorem combine_div : v.combine .div w =
    if w.isNumberEqual one then v else number (v.real / w.real) := by
  show Option.getD (ite _ _ _) _ = _
  split <;> rfl

omit [Scalar.Exact K] in
theorem combine_pow : v.combine .pow w =
    if w.isNumberEqual one then v else number (realOperation .pow v.real w.real) := by
  show Option.getD (ite _ _ _) _ = _
  split <;> rfl

/-- **Arithmetic on meanings is arithmetic on numbers.** -/
theorem real_combine (hop : op.isAnalytic = true) :
    (v.combine op w).real = realOperation op v.real w.real := by
  cases op with
  | add | sub | mul =>
    simp only [combine_add, combine_sub, combine_mul]
    split
    · simp_all
    · split <;> simp_all
  | div | pow =>
    simp only [combine_div, combine_pow]
    split <;> simp_all
  | _ => cases hop

/-- An operator on two numbers gives a number. -/
theorem combine_number (hop : op.isAnalytic = true) :
    (number a).combine op (number b) = number (realOperation op a b) := by
  have hreal := real_combine (v := number a) (w := number b) hop
  suffices ∃ c, (number a).combine op (number b) = number c by
    obtain ⟨c, hc⟩ := this
    rw [hc] at hreal ⊢
    exact congrArg number hreal
  cases op with
  | add | sub | mul =>
    simp only [combine_add, combine_sub, combine_mul]
    split
    · exact ⟨_, rfl⟩
    · split <;> exact ⟨_, rfl⟩
  | div | pow =>
    simp only [combine_div, combine_pow]
    split <;> exact ⟨_, rfl⟩
  | _ => cases hop

/-- Zero added on the right. -/
@[simp] theorem combine_add_zero : v.combine .add (number zero) = v := by
  simp [combine_add]

/-- Zero added on the left. -/
@[simp] theorem combine_zero_add : (number zero).combine .add w = w := by
  rw [combine_add]
  split <;> simp_all

/-- Zero taken away. -/
@[simp] theorem combine_sub_zero : v.combine .sub (number zero) = v := by
  simp [combine_sub]

/-- What is taken from zero. -/
@[simp] theorem combine_zero_sub : (number zero).combine .sub w = w.opposite := by
  rw [combine_sub]
  split <;> simp_all

/-- Times one. -/
@[simp] theorem combine_mul_one : v.combine .mul (number one) = v := by
  simp [combine_mul]

/-- One times something. -/
@[simp] theorem combine_one_mul : (number one).combine .mul w = w := by
  rw [combine_mul]
  split <;> simp_all

/-- Zero times something. -/
@[simp] theorem combine_zero_mul : (number zero).combine .mul w = number zero := by
  have hne : (zero : K) ≠ one := Scalar.Exact.one_ne_zero.symm
  rw [combine_mul]
  split
  · rfl
  · split <;> simp_all

/-- Times zero. -/
@[simp] theorem combine_mul_zero : v.combine .mul (number zero) = number zero := by
  have hne : (zero : K) ≠ one := Scalar.Exact.one_ne_zero.symm
  rw [combine_mul]
  split
  · simp_all
  · split <;> simp_all

/-- Divided by one. -/
@[simp] theorem combine_div_one : v.combine .div (number one) = v := by
  simp [combine_div]

/-- The first power. -/
@[simp] theorem combine_pow_one : v.combine .pow (number one) = v := by
  simp [combine_pow]

/-- The zeroth power. -/
@[simp] theorem combine_pow_zero : v.combine .pow (number zero) = number one := by
  have hne : (zero : K) ≠ one := Scalar.Exact.one_ne_zero.symm
  rw [combine_pow]
  split <;> simp_all

/-- A power of one. -/
@[simp] theorem combine_one_pow : (number one).combine .pow w = number one := by
  rw [combine_pow]
  split <;> simp

end

end Value

namespace Expr

section

variable (ρ : Valuation K)

mutual

/-- The meaning of a tree: its value over the real numbers, extended to all trees. -/
def meaning : Expr K → Value K
  | number a => .number a
  | bool b => .bool b
  | polar magnitude phase =>
    .complex (.ofPolar magnitude (phase * (Scalar.pi / Scalar.ofInt 180)))
  | string s => .string s
  | angle a => .angle a
  | var x => (ρ.var? x).getD .empty
  | unary op a => (meaning a).transform op
  | binary op a b => (meaning a).combine op (meaning b)
  | builtin f as => (Value.applyBuiltin f (meanings as)).toOption.getD .empty
  | call f as => (ρ.call? f (meanings as)).getD .empty
  | vector as => .vector ((meanings as).map Value.real)
  | matrix rows => .matrix ((rowMeanings rows).map (·.map Value.real))
  | ifThen c a =>
    match meaning c with
    | .bool true => meaning a
    | _ => .empty
  | ifThenElse c a b =>
    match meaning c with
    | .bool true => meaning a
    | .bool false => meaning b
    | _ => .empty
  | forLoop _ _ _ _ | whileLoop _ _ | define _ _ | undefine _ | assign _ _ _ | step _ _ => .empty

/-- The meanings of a list of trees. -/
def meanings : List (Expr K) → List (Value K)
  | [] => []
  | a :: as => meaning a :: meanings as

/-- The meanings of the rows of a matrix. -/
def rowMeanings : List (List (Expr K)) → List (List (Value K))
  | [] => []
  | row :: rows => meanings row :: rowMeanings rows

end

end

variable {ρ : Valuation K} {e a b : Expr K} {as : List (Expr K)} {v w : Value K}

theorem meaning_number (a : K) : meaning ρ (.number a) = .number a := rfl

theorem meaning_unary (op : UnaryOp) : meaning ρ (unary op a) = (meaning ρ a).transform op := rfl

theorem meaning_binary (op : BinaryOp) :
    meaning ρ (binary op a b) = (meaning ρ a).combine op (meaning ρ b) := rfl

theorem meaning_builtin (f : Builtin) : meaning ρ (builtin f as) =
    (Value.applyBuiltin f (meanings ρ as)).toOption.getD .empty := rfl

/-- The meanings of a list, tree by tree. -/
theorem meanings_eq_map (as : List (Expr K)) : meanings ρ as = as.map (meaning ρ) := by
  induction as with
  | nil => rfl
  | cons a as ih => rw [meanings, ih, List.map_cons]

/-- The meanings of rows, row by row. -/
theorem rowMeanings_eq_map (rows : List (List (Expr K))) :
    rowMeanings ρ rows = rows.map (·.map (meaning ρ)) := by
  induction rows with
  | nil => rfl
  | cons row rows ih => rw [rowMeanings, meanings_eq_map, ih, List.map_cons]

/-! ## Literals -/

/-- The meaning of a literal. -/
theorem meaning_of_literal? (h : literal? e = some v) : meaning ρ e = v := by
  cases e <;> cases h <;> rfl

/-- The meanings of literals. -/
theorem meanings_of_literals : ∀ {as : List (Expr K)} {vs : List (Value K)},
    as.mapM literal? = some vs → meanings ρ as = vs
  | [], _, h => by
    cases h
    rfl
  | a :: as, _, h => by
    rw [List.mapM_cons] at h
    obtain ⟨v, hv, h⟩ := Option.bind_eq_some_iff.1 h
    obtain ⟨vs, hvs, h⟩ := Option.bind_eq_some_iff.1 h
    cases h
    rw [meanings, meaning_of_literal? hv, meanings_of_literals hvs]

/-- The literal of a result means what the tree with that result means. -/
theorem meaning_literalOr {r : Result K (Value K)}
    (h : ∀ l w, literal? l = some w → r = .ok w → meaning ρ e = w) :
    meaning ρ (literalOr e r) = meaning ρ e := by
  unfold literalOr
  split
  · next a =>
    split
    · exact (h (number a) _ rfl rfl).symm
    · rfl
  · next b => exact (h (bool b) _ rfl rfl).symm
  · rfl

/-- A function evaluated on literals. -/
theorem meaning_foldBuiltin {f : Builtin} :
    meaning ρ (foldBuiltin f as) = meaning ρ (builtin f as) := by
  unfold foldBuiltin
  split
  · next vs hvs =>
    refine meaning_literalOr fun _ w _ hw => ?_
    rw [meaning_builtin, meanings_of_literals hvs, hw]
    rfl
  · rfl

variable [Scalar.Exact K]

omit [Scalar.Exact K] in
/-- A unary operator evaluated on a literal. The sign has a rule of its own. -/
theorem meaning_foldUnary {op : UnaryOp} (hop : op ≠ .minus) :
    meaning ρ (foldUnary op a) = meaning ρ (unary op a) := by
  unfold foldUnary
  split
  · next v hv =>
    refine meaning_literalOr fun _ w _ hw => ?_
    rw [meaning_unary, meaning_of_literal? hv]
    cases op with
    | minus => exact absurd rfl hop
    | not => exact Value.inverted_of_applyUnary hw
    | factorial =>
      rw [Value.transform, hw]
      rfl
  · rfl

/-- An operator on two literals whose result is a literal. -/
theorem combine_of_literals {op : BinaryOp} {l : Expr K} {u : Value K} (ha : literal? a = some v)
    (hb : literal? b = some w) (hl : literal? l = some u) (hu : applyDeciding op v w = .ok u) :
    v.combine op w = u := by
  cases hop : op.isAnalytic with
  | false =>
    rw [Value.combine, hop, hu]
    rfl
  | true =>
    have hboth : op.decidedBy? = none := by cases op <;> first | rfl | cases hop
    rw [applyDeciding, hboth] at hu
    cases a <;> cases ha <;> cases b <;> cases hb
    · next c d =>
      have happly : (Value.number c).applyBinary op (.number d) =
          .ok (Value.arithmeticReal op c d) := by
        cases op <;> first | rfl | cases hop
      rw [happly] at hu
      obtain rfl := Except.ok.inj hu
      rw [Value.combine_number hop, Value.realOperation]
      unfold Value.arithmeticReal at hl ⊢
      split at hl
      · cases l <;> cases hl
      · next hreal => rw [if_neg hreal, if_neg hreal]
    all_goals cases op <;> first | (cases hu; done) | cases hop

/-- A binary operator evaluated on literals. -/
theorem meaning_foldBinary {op : BinaryOp} :
    meaning ρ (foldBinary op a b) = meaning ρ (binary op a b) := by
  unfold foldBinary
  split
  · next v w hv hw =>
    refine meaning_literalOr fun l u hl hu => ?_
    rw [meaning_binary, meaning_of_literal? hv, meaning_of_literal? hw]
    exact combine_of_literals hv hw hl hu
  · rfl

/-! ## Rules at one node -/

/-- A sign. -/
theorem meaning_negated : meaning ρ a.negated = (meaning ρ a).opposite := by
  unfold negated
  split
  · next b => exact (Value.opposite_opposite _).symm
  · rfl
  · rfl

/-- A unary operator. -/
theorem meaning_simplifyUnary {op : UnaryOp} :
    meaning ρ (simplifyUnary op a) = (meaning ρ a).transform op := by
  unfold simplifyUnary
  split
  · exact meaning_negated
  · next b => exact (Value.inverted_inverted _).symm
  · next hminus _ => exact meaning_foldUnary hminus

/-- A binary operator. -/
theorem meaning_simplifyBinary {assumed : TypeGuess} {op : BinaryOp} :
    meaning ρ (simplifyBinary assumed op a b) = (meaning ρ a).combine op (meaning ρ b) := by
  have hliteral {value : K} {c : Expr K} (h : isLiteral value c = true) :
      meaning ρ c = .number value := by rw [eq_of_isLiteral h, meaning_number]
  generalize hrule : simplifyBinary assumed op a b = e
  cases simplifyBinary_rule hrule with
  | addZero h => rw [hliteral h, Value.combine_add_zero]
  | zeroAdd h => rw [hliteral h, Value.combine_zero_add]
  | subZero h => rw [hliteral h, Value.combine_sub_zero]
  | zeroSub h => rw [hliteral h, Value.combine_zero_sub, meaning_negated]
  | mulOne h => rw [hliteral h, Value.combine_mul_one]
  | oneMul h => rw [hliteral h, Value.combine_one_mul]
  | zeroMul h => rw [hliteral h, Value.combine_zero_mul, meaning_number]
  | mulZero h => rw [hliteral h, Value.combine_mul_zero, meaning_number]
  | divOne h => rw [hliteral h, Value.combine_div_one]
  | powOne h => rw [hliteral h, Value.combine_pow_one]
  | powZero h => rw [hliteral h, Value.combine_pow_zero, meaning_number]
  | onePow h => rw [hliteral h, Value.combine_one_pow, meaning_number]
  | fold => exact meaning_foldBinary

/-- **Simplification keeps the meaning of every tree.** -/
theorem meaning_simplifyWith {assumed : TypeGuess} (e : Expr K) :
    meaning ρ (e.simplifyWith assumed) = meaning ρ e := by
  have hlist {as : List (Expr K)}
      (has : ∀ a ∈ as, meaning ρ (a.simplifyWith assumed) = meaning ρ a) :
      (as.map (simplifyWith assumed)).map (meaning ρ) = as.map (meaning ρ) := by
    rw [List.map_map]
    exact List.map_congr_left has
  induction e using Expr.induction with
  | number | bool | polar | string | angle | var | undefine | step => rfl
  | unary op a ha => rw [simplifyWith, meaning_simplifyUnary, ha, meaning_unary]
  | binary op a b ha hb => rw [simplifyWith, meaning_simplifyBinary, ha, hb, meaning_binary]
  | builtin f as ih =>
    have hnode : meaning ρ (builtin f (simplifyList assumed as)) = meaning ρ (builtin f as) := by
      rw [meaning_builtin, meaning_builtin, simplifyList_eq_map, meanings_eq_map, meanings_eq_map,
        hlist ih]
    rw [simplifyWith]
    split
    · exact hnode
    · exact meaning_foldBuiltin.trans hnode
  | call f as ih =>
    rw [simplifyWith, meaning, meaning, simplifyList_eq_map, meanings_eq_map, meanings_eq_map,
      hlist ih]
  | vector as ih =>
    rw [simplifyWith, meaning, meaning, simplifyList_eq_map, meanings_eq_map, meanings_eq_map,
      hlist ih]
  | matrix rows ih =>
    rw [simplifyWith, meaning, meaning, simplifyRows_eq_map, rowMeanings_eq_map,
      rowMeanings_eq_map]
    refine congrArg (fun vss : List (List (Value K)) =>
      Value.matrix (vss.map (·.map Value.real))) ?_
    rw [List.map_map]
    exact List.map_congr_left fun row hrow => hlist (ih row hrow)
  | ifThen c a hc ha =>
    rw [simplifyWith]
    split
    · next h =>
      rw [h] at hc
      rw [meaning, ← hc, ha, meaning]
    · rw [meaning, meaning, hc, ha]
  | ifThenElse c a b hc ha hb =>
    rw [simplifyWith]
    split
    · next h =>
      rw [h] at hc
      rw [meaning, ← hc, ha, meaning]
    · next h =>
      rw [h] at hc
      rw [meaning, ← hc, hb, meaning]
    · rw [meaning, meaning, hc, ha, hb]
  | forLoop | whileLoop | define | assign => rfl

/-! ## Values -/

omit [Scalar.Exact K] in
/-- The meanings of trees with values. -/
theorem meanings_of_values? (h : ∀ a ∈ as, ∀ v, a.value? ρ = some v → meaning ρ a = v)
    {vs : List (Value K)} (hvs : values? ρ as = some vs) : meanings ρ as = vs := by
  induction as generalizing vs with
  | nil =>
    cases hvs
    rfl
  | cons a as ih =>
    obtain ⟨v, hv, hvs⟩ := Option.bind_eq_some_iff.1 hvs
    obtain ⟨rest, hrest, hvs⟩ := Option.bind_eq_some_iff.1 hvs
    cases hvs
    rw [meanings, h a (.head _) v hv, ih (fun a ha => h a (.tail _ ha)) hrest]

omit [Scalar.Exact K] in
/-- The meanings of rows of trees with values. -/
theorem rowMeanings_of_rows? {rows : List (List (Expr K))}
    (h : ∀ row ∈ rows, ∀ a ∈ row, ∀ v, a.value? ρ = some v → meaning ρ a = v)
    {vss : List (List (Value K))} (hvss : rows? ρ rows = some vss) : rowMeanings ρ rows = vss := by
  induction rows generalizing vss with
  | nil =>
    cases hvss
    rfl
  | cons row rows ih =>
    obtain ⟨vs, hvs, hvss⟩ := Option.bind_eq_some_iff.1 hvss
    obtain ⟨rest, hrest, hvss⟩ := Option.bind_eq_some_iff.1 hvss
    cases hvss
    rw [rowMeanings, meanings_of_values? (h row (.head _)) hvs,
      ih (fun row hrow => h row (.tail _ hrow)) hrest]

omit [Scalar.Exact K] in
/-- Values that are numbers are their own real parts. -/
theorem map_real_of_mapM {operation : String} : ∀ {vs : List (Value K)} {xs : List K},
    vs.mapM (fun v => (v.asNumber operation).toOption) = some xs → vs.map Value.real = xs
  | [], _, h => by
    cases h
    rfl
  | v :: vs, _, h => by
    rw [List.mapM_cons] at h
    obtain ⟨x, hx, h⟩ := Option.bind_eq_some_iff.1 h
    obtain ⟨xs, hxs, h⟩ := Option.bind_eq_some_iff.1 h
    cases h
    rw [List.map_cons, map_real_of_mapM hxs]
    cases v <;> cases hx
    rfl

omit [Scalar.Exact K] in
/-- Rows of numbers are their own real parts. -/
theorem map_map_real_of_mapM {operation : String} : ∀ {vss : List (List (Value K))}
    {xss : List (List K)},
    vss.mapM (fun row => row.mapM fun v => (v.asNumber operation).toOption) = some xss →
      vss.map (·.map Value.real) = xss
  | [], _, h => by
    cases h
    rfl
  | vs :: vss, _, h => by
    rw [List.mapM_cons] at h
    obtain ⟨xs, hxs, h⟩ := Option.bind_eq_some_iff.1 h
    obtain ⟨xss, hxss, h⟩ := Option.bind_eq_some_iff.1 h
    cases h
    rw [List.map_cons, map_real_of_mapM hxs, map_map_real_of_mapM hxss]

omit [Scalar K] [Scalar.Exact K] in
/-- A value that is read as a truth value is one. -/
theorem eq_bool_of_asBool {operation : String} {holds : Bool}
    (h : (v.asBool operation).toOption = some holds) : v = .bool holds := by
  cases v <;> cases h
  rfl

/-- An operator that is defined. -/
theorem combine_of_combine? {op : BinaryOp} {u : Value K} (hop : op.decidedBy? = none)
    (h : v.combine? op w = some u) : v.combine op w = u := by
  unfold Value.combine? at h
  split at h
  · next hanalytic =>
    unfold Value.analytic? at h
    split at h
    · next a b =>
      split at h
      · cases h
      · next hdefined =>
        cases h
        have hreal := (Bool.or_eq_false_iff.1 (Bool.not_eq_true _ ▸ hdefined)).2
        rw [Value.combine_number hanalytic, Value.realOperation, hreal]
        rfl
    · cases h
  · next hanalytic =>
    rw [Value.combine, if_neg hanalytic, applyDeciding, hop]
    exact congrArg (·.getD .empty) h

omit [Scalar.Exact K] in
/-- Operators that one operand may decide are not arithmetic. -/
theorem combine_of_decidedBy? {op : BinaryOp} {decisive : Bool}
    (hop : op.decidedBy? = some decisive) :
    v.combine op w = (applyDeciding op v w).toOption.getD .empty := by
  have hanalytic : ¬op.isAnalytic = true := by cases op <;> first | decide | cases hop
  exact if_neg hanalytic

omit [Scalar.Exact K] in
/-- A unary operator that is defined. -/
theorem transform_of_applyUnary {op : UnaryOp} (h : (v.applyUnary op).toOption = some w) :
    v.transform op = w := by
  have hw := Result.ok_of_toOption h
  cases op with
  | not => exact Value.inverted_of_applyUnary hw
  | minus | factorial => simp [Value.transform, Value.opposite, hw, Except.toOption]

/-- **Where a tree has a value, that is its meaning.** -/
theorem meaning_of_value? (h : e.value? ρ = some v) : meaning ρ e = v := by
  induction e using Expr.induction generalizing v with
  | number | bool | polar | string | angle =>
    cases h
    rfl
  | var x =>
    rw [meaning]
    exact congrArg (·.getD .empty) h
  | unary op a iha =>
    obtain ⟨u, hu, h⟩ := Option.bind_eq_some_iff.1 h
    rw [meaning_unary, iha hu, transform_of_applyUnary h]
  | binary op a b iha ihb =>
    cases value?_binary h with
    | combined hop hu hw hv => rw [meaning, iha hu, ihb hw, combine_of_combine? hop hv]
    | decided hop hu hleft =>
      rw [meaning, iha hu, combine_of_decidedBy? hop, applyDeciding, hop]
      simp [hleft, Except.toOption, bind, Except.bind, pure, Except.pure]
    | undecided hop hu hleft hopen hw hright =>
      rw [meaning, iha hu, ihb hw, combine_of_decidedBy? hop, applyDeciding, hop]
      simp [hleft, hopen, hright, Except.toOption, bind, Except.bind, pure, Except.pure]
  | builtin f as ih =>
    obtain ⟨vs, hvs, h⟩ := Option.bind_eq_some_iff.1 h
    split at h
    · rw [meaning, meanings_of_values? (fun a ha v hv => ih a ha hv) hvs]
      exact congrArg (·.getD .empty) h
    · cases h
  | call f as ih =>
    obtain ⟨vs, hvs, h⟩ := Option.bind_eq_some_iff.1 h
    rw [meaning, meanings_of_values? (fun a ha v hv => ih a ha hv) hvs]
    exact congrArg (·.getD .empty) h
  | vector as ih =>
    obtain ⟨vs, hvs, h⟩ := Option.bind_eq_some_iff.1 h
    obtain ⟨xs, hxs, h⟩ := Option.bind_eq_some_iff.1 h
    cases h
    rw [meaning, meanings_of_values? (fun a ha v hv => ih a ha hv) hvs, map_real_of_mapM hxs]
  | matrix rows ih =>
    obtain ⟨vss, hvss, h⟩ := Option.bind_eq_some_iff.1 h
    obtain ⟨xss, hxss, h⟩ := Option.bind_eq_some_iff.1 h
    cases h
    rw [meaning, rowMeanings_of_rows? (fun row hrow a ha v hv => ih row hrow a ha hv) hvss,
      map_map_real_of_mapM hxss]
  | ifThen c a ihc iha =>
    obtain ⟨u, hu, h⟩ := Option.bind_eq_some_iff.1 h
    obtain ⟨holds, hholds, h⟩ := Option.bind_eq_some_iff.1 h
    obtain rfl := eq_bool_of_asBool hholds
    rw [meaning, ihc hu]
    cases holds with
    | true => exact iha h
    | false =>
      cases h
      rfl
  | ifThenElse c a b ihc iha ihb =>
    obtain ⟨u, hu, h⟩ := Option.bind_eq_some_iff.1 h
    obtain ⟨holds, hholds, h⟩ := Option.bind_eq_some_iff.1 h
    obtain rfl := eq_bool_of_asBool hholds
    rw [meaning, ihc hu]
    cases holds with
    | true => exact iha h
    | false => exact ihb h
  | forLoop | whileLoop | define | undefine | assign | step => cases h

end Expr

end Formula

import Formula.Evaluate
import Formula.Proofs.Result

/-!
# Errors that only stand guard

Some errors are there for trees that the constructors would not build: a call with a number of
arguments that its function does not take, a key that cannot be bound, a node that the evaluator has
no rule for. `RuntimeError.isDefensive` singles them out, together with a derivative that would need
such a node. No operation on values and names raises one.
-/

namespace Formula

/-- The error stands guard against trees that the constructors would not build, or against a node
without a rule, which is refused without a look at its operands. -/
def RuntimeError.isDefensive {K : Type} : RuntimeError K → Bool
  | construction _ | differentiation (.construction _) | unsupported _ [] => true
  | _ => false

/-- A node without a rule is such a case. -/
@[simp]
theorem RuntimeError.isDefensive_noRule {K : Type} (kind : Kind) :
    (noRule kind : RuntimeError K).isDefensive = true := rfl

/-! ## Results -/

namespace Result

variable {K α β : Type}

/-- If the result is an error, then one that values can cause. -/
def IsOrdinary (r : Result K α) : Prop := ∀ cause, r = .error cause → cause.isDefensive = false

@[simp]
theorem isOrdinary_ok (a : α) : IsOrdinary (.ok a : Result K α) := nofun

@[simp]
theorem isOrdinary_error {cause : RuntimeError K} :
    IsOrdinary (.error cause : Result K α) ↔ cause.isDefensive = false :=
  ⟨fun h => h _ rfl, fun h _ hcause => by cases hcause; exact h⟩

/-- A sequence of results. -/
theorem IsOrdinary.bind {r : Result K α} {f : α → Result K β} (hr : IsOrdinary r)
    (hf : ∀ a, r = .ok a → IsOrdinary (f a)) : IsOrdinary (r >>= f) := by
  cases r with
  | ok a => exact hf a rfl
  | error cause => exact isOrdinary_error.2 (isOrdinary_error.1 hr)

/-- A changed result. -/
@[simp]
theorem isOrdinary_map {r : Result K α} {f : α → β} : IsOrdinary (f <$> r) ↔ IsOrdinary r := by
  cases r with
  | ok a => exact iff_of_true (isOrdinary_ok _) (isOrdinary_ok _)
  | error cause => exact isOrdinary_error.trans isOrdinary_error.symm

/-- The results for a list. -/
theorem IsOrdinary.mapM {f : α → Result K β} :
    ∀ {as : List α}, (∀ a ∈ as, IsOrdinary (f a)) → IsOrdinary (as.mapM f)
  | [], _ => isOrdinary_ok _
  | a :: as, h => by
    obtain ⟨ha, has⟩ := List.forall_mem_cons.1 h
    rw [List.mapM_cons]
    exact ha.bind fun _ _ => (IsOrdinary.mapM has).bind fun _ _ => isOrdinary_ok _

/-- A result accumulated over a list. -/
theorem IsOrdinary.foldlM {f : β → α → Result K β} (h : ∀ b a, IsOrdinary (f b a)) :
    ∀ (as : List α) (b : β), IsOrdinary (as.foldlM f b)
  | [], _ => isOrdinary_ok _
  | a :: as, b => by
    rw [List.foldlM_cons]
    exact (h b a).bind fun next _ => IsOrdinary.foldlM h as next

end Result

namespace Value

open Result

variable {K : Type} {operation : String}

/-! ## Views -/

@[simp]
theorem isOrdinary_asNumber (v : Value K) : IsOrdinary (v.asNumber operation) := by
  cases v <;> simp [asNumber, RuntimeError.isDefensive]

@[simp]
theorem isOrdinary_asBool (v : Value K) : IsOrdinary (v.asBool operation) := by
  cases v <;> simp [asBool, RuntimeError.isDefensive]

@[simp]
theorem isOrdinary_asVector (v : Value K) : IsOrdinary (v.asVector operation) := by
  cases v <;> simp [asVector, RuntimeError.isDefensive]

@[simp]
theorem isOrdinary_asMatrix (v : Value K) : IsOrdinary (v.asMatrix operation) := by
  cases v <;> simp [asMatrix, RuntimeError.isDefensive]

/-! ## Vectors and matrices -/

section

variable (f : K → K → K) (a b : List K)

@[simp]
theorem isOrdinary_elementwise : IsOrdinary (Matrix.elementwise operation f a b) := by
  unfold Matrix.elementwise
  split <;> simp [RuntimeError.isDefensive]

theorem isOrdinary_elementwiseRows :
    ∀ m m' : List (List K), IsOrdinary (Matrix.elementwiseRows operation f m m')
  | row :: rows, row' :: rows' =>
    (isOrdinary_elementwise f row row').bind fun _ _ =>
      (isOrdinary_elementwiseRows rows rows').bind fun _ _ => isOrdinary_ok _
  | [], _ | _ :: _, [] => isOrdinary_ok _

@[simp]
theorem isOrdinary_elementwiseMatrix (m m' : List (List K)) :
    IsOrdinary (Matrix.elementwiseMatrix operation f m m') := by
  unfold Matrix.elementwiseMatrix
  split
  · exact isOrdinary_elementwiseRows f m m'
  · simp [RuntimeError.isDefensive]

theorem isOrdinary_squareSize (m : List (List K)) : IsOrdinary (Matrix.squareSize operation m) := by
  unfold Matrix.squareSize
  split <;> simp [RuntimeError.isDefensive]

variable [Scalar K]

theorem isOrdinary_dot : IsOrdinary (Matrix.dot operation a b) :=
  (isOrdinary_elementwise _ a b).bind fun _ _ => isOrdinary_ok _

theorem isOrdinary_cross : IsOrdinary (Matrix.cross a b) := by
  unfold Matrix.cross
  split <;> simp [RuntimeError.isDefensive]

@[simp]
theorem isOrdinary_multiply (m m' : List (List K)) : IsOrdinary (Matrix.multiply m m') := by
  unfold Matrix.multiply
  split <;> simp [RuntimeError.isDefensive]

@[simp]
theorem isOrdinary_multiplyVector (m : List (List K)) :
    IsOrdinary (Matrix.multiplyVector m a) :=
  .mapM fun row _ => isOrdinary_dot row a

theorem isOrdinary_determinant (m : List (List K)) : IsOrdinary (Matrix.determinant m) :=
  (isOrdinary_squareSize m).bind fun _ _ => isOrdinary_ok _

theorem isOrdinary_inverse (m : List (List K)) : IsOrdinary (Matrix.inverse m) :=
  (isOrdinary_squareSize m).bind fun _ _ => by
    split
    · exact isOrdinary_ok _
    · exact isOrdinary_error.2 rfl

end

/-! ## Operators -/

/-- The error for operands that do not go together lists both of them. -/
@[simp]
theorem isDefensive_unsupportedBinary (op : BinaryOp) (v w : Value K) :
    (unsupportedBinary op v w).isDefensive = false := rfl

variable [Scalar K]

theorem isOrdinary_integerOf (a : K) : IsOrdinary (integerOf operation a) := by
  unfold integerOf
  split <;> simp [RuntimeError.isDefensive]

theorem isOrdinary_asInteger (v : Value K) : IsOrdinary (v.asInteger operation) :=
  (isOrdinary_asNumber v).bind fun a _ => isOrdinary_integerOf a

theorem isOrdinary_ofInteger (n : Int) :
    IsOrdinary (ofInteger operation n : Result K (Value K)) := by
  unfold ofInteger
  split <;> simp [RuntimeError.isDefensive]

/-- An operator of one operand. -/
theorem isOrdinary_applyUnary (op : UnaryOp) (v : Value K) : IsOrdinary (v.applyUnary op) := by
  cases op with
  | minus => cases v <;> simp [applyUnary, negate, unsupportedUnary, RuntimeError.isDefensive]
  | not =>
    cases v with
    | number a =>
      refine (isOrdinary_integerOf a).bind fun n _ => ?_
      split <;> simp [RuntimeError.isDefensive]
    | _ => simp [applyUnary, complement, unsupportedUnary, RuntimeError.isDefensive]
  | factorial =>
    cases v with
    | number a =>
      refine (isOrdinary_integerOf a).bind fun n _ => ?_
      split <;> simp [RuntimeError.isDefensive]
    | _ => simp [applyUnary, factorial, unsupportedUnary, RuntimeError.isDefensive]

@[simp]
theorem isOrdinary_arithmeticComplex (op : BinaryOp) (z w : Complex K) :
    IsOrdinary (arithmeticComplex op z w) := by
  unfold arithmeticComplex
  split <;> simp

@[simp]
theorem isOrdinary_arithmeticAngle (op : BinaryOp) (a b : Angle K) :
    IsOrdinary (arithmeticAngle op a b) := by
  unfold arithmeticAngle
  split <;> simp

theorem isOrdinary_arithmetic (op : BinaryOp) (v w : Value K) : IsOrdinary (arithmetic op v w) := by
  unfold arithmetic
  split
  case h_1 | h_2 | h_3 | h_4 | h_5 => simp
  all_goals split <;> simp

theorem isOrdinary_comparison (op : BinaryOp) (v w : Value K) :
    IsOrdinary (comparison op v w) := by
  unfold comparison
  split <;> split <;> simp

theorem isOrdinary_logic (op : BinaryOp) (v w : Value K) : IsOrdinary (logic op v w) := by
  unfold logic
  split
  · simp
  · split
    · exact (isOrdinary_integerOf _).bind fun _ _ => (isOrdinary_integerOf _).bind fun _ _ =>
        isOrdinary_ofInteger _
    · simp
  · simp

theorem isOrdinary_shift (op : BinaryOp) (v w : Value K) : IsOrdinary (shift op v w) := by
  unfold shift
  split
  · refine (isOrdinary_integerOf _).bind fun _ _ => (isOrdinary_integerOf _).bind fun _ _ => ?_
    split
    · exact isOrdinary_ofInteger _
    · exact isOrdinary_error.2 rfl
  · simp

/-- An operator of two operands. -/
theorem isOrdinary_applyBinary (op : BinaryOp) (v w : Value K) :
    IsOrdinary (v.applyBinary op w) := by
  cases op with
  | add | sub | mul | div | mod | pow =>
    rw [applyBinary]
    exact isOrdinary_arithmetic _ v w
  | lt | le | gt | ge | eq | ne =>
    rw [applyBinary]
    exact isOrdinary_comparison _ v w
  | shiftLeft | shiftRight =>
    rw [applyBinary]
    exact isOrdinary_shift _ v w
  | _ =>
    rw [applyBinary]
    exact isOrdinary_logic _ v w

/-! ## Functions

The error for arguments that a function does not take lists them, and there is one at least. -/

section

variable (f : Builtin) (v : Value K)

omit [Scalar K] in
@[simp]
theorem isDefensive_unsupportedCall (vs : List (Value K)) :
    (unsupportedCall f (v :: vs)).isDefensive = false := rfl

omit [Scalar K] in
@[simp]
theorem isOrdinary_ofReal (g : K → K) : IsOrdinary (ofReal f g v) := by
  cases v <;> simp [ofReal]

omit [Scalar K] in
@[simp]
theorem isOrdinary_ofComplex (g : K → K) (h : Complex K → Complex K) :
    IsOrdinary (ofComplex f g h v) := by
  cases v <;> simp [ofComplex]

omit [Scalar K] in
@[simp]
theorem isOrdinary_ofAngle (g : K → K) : IsOrdinary (ofAngle f g v) := by
  cases v <;> simp [ofAngle]

@[simp]
theorem isOrdinary_trigonometric (g : K → K) (h : Complex K → Complex K) :
    IsOrdinary (trigonometric f g h v) := by
  cases v <;> simp [trigonometric]

@[simp]
theorem isOrdinary_logarithm (g : K → K) (lnBase : K) : IsOrdinary (logarithm f g lnBase v) := by
  unfold logarithm
  split
  · split <;> simp
  · simp

@[simp]
theorem isOrdinary_partOf (g : Complex K → K) : IsOrdinary (partOf f g v) := by
  cases v <;> simp [partOf]

@[simp]
theorem isOrdinary_inUnit (unit : AngleUnit) : IsOrdinary (inUnit f unit v) := by
  cases v <;> simp [inUnit]

@[simp]
theorem isOrdinary_absolute : IsOrdinary (absolute v) := by
  cases v <;> simp [absolute]

@[simp]
theorem isOrdinary_squareRoot : IsOrdinary (squareRoot v) := by
  unfold squareRoot
  split
  · split <;> simp
  · simp

@[simp]
theorem isOrdinary_roundTo (a : K) (places : Int) : IsOrdinary (roundTo a places) := by
  unfold roundTo
  split
  · simp [RuntimeError.isDefensive]
  · split <;> simp [RuntimeError.isDefensive]

@[simp]
theorem isOrdinary_inBase (base : Nat) (mark : String) : IsOrdinary (inBase f base mark v) :=
  (isOrdinary_asInteger v).bind fun _ _ => isOrdinary_ok _

variable (vs : List (Value K))

omit [Scalar K] in
theorem isOrdinary_secondNumber : IsOrdinary (secondNumber f (v :: vs)) := by
  unfold secondNumber
  split <;> simp

omit [Scalar K] in
theorem isOrdinary_numbersOf : IsOrdinary (numbersOf f (v :: vs)) := by
  unfold numbersOf
  split
  · simp
  · refine .mapM fun u _ => ?_
    cases u <;> simp

omit [Scalar K] in
@[simp]
theorem isOrdinary_statistic (g : List K → K) : IsOrdinary (statistic f g (v :: vs)) :=
  (isOrdinary_numbersOf f v vs).bind fun _ _ => isOrdinary_ok _

@[simp]
theorem isOrdinary_foldIntegers (g : Int → Int → Int) : IsOrdinary (foldIntegers f g (v :: vs)) :=
  (isOrdinary_asInteger v).bind fun start _ =>
    (IsOrdinary.foldlM (fun _ u => (isOrdinary_asInteger u).bind fun _ _ => isOrdinary_ok _)
      vs start).bind fun _ _ => isOrdinary_ofInteger _

omit [Scalar K] in
theorem isOrdinary_ofTwoVectors {α : Type} {g : List K → List K → Result K α}
    (hg : ∀ a b, IsOrdinary (g a b)) : IsOrdinary (ofTwoVectors f g (v :: vs)) := by
  unfold ofTwoVectors
  split
  · exact (isOrdinary_asVector _).bind fun _ _ => (isOrdinary_asVector _).bind fun _ _ => hg _ _
  · simp

@[simp]
theorem isOrdinary_transposed (u : Value K) : IsOrdinary (transposed (v :: vs) u) := by
  cases u <;> simp [transposed]

theorem isOrdinary_callWith : IsOrdinary (callWith f v (v :: vs)) := by
  cases f with
  | root =>
    exact (isOrdinary_asNumber v).bind fun _ _ =>
      (isOrdinary_secondNumber _ v vs).bind fun _ _ => isOrdinary_ok _
  | log =>
    exact (isOrdinary_secondNumber _ v vs).bind fun _ _ => isOrdinary_logarithm _ v _ _
  | round =>
    have hrounded (places : Int) :
        IsOrdinary (do roundTo (← v.asNumber Builtin.round.name) places) :=
      (isOrdinary_asNumber v).bind fun _ _ => isOrdinary_roundTo _ _
    rw [callWith]
    split
    · exact (isOrdinary_asInteger _).bind fun places _ => hrounded places
    · exact hrounded 0
  | toNumber => cases v <;> simp [callWith]
  | determinant =>
    exact (isOrdinary_asMatrix v).bind fun m _ =>
      (isOrdinary_determinant m).bind fun _ _ => isOrdinary_ok _
  | inverse =>
    exact (isOrdinary_asMatrix v).bind fun m _ =>
      (isOrdinary_inverse m).bind fun _ _ => isOrdinary_ok _
  | dotProduct =>
    exact isOrdinary_map.2 (isOrdinary_ofTwoVectors _ v vs fun a b => isOrdinary_dot a b)
  | crossProduct =>
    exact isOrdinary_map.2 (isOrdinary_ofTwoVectors _ v vs fun a b => isOrdinary_cross a b)
  | _ => simp [callWith]

/-- A built-in function of as many arguments as it takes. -/
theorem isOrdinary_applyBuiltin {f : Builtin} {vs : List (Value K)}
    (h : f.arity.accepts vs.length = true) : IsOrdinary (applyBuiltin f vs) := by
  cases vs with
  | nil => cases f <;> cases h
  | cons v vs => exact isOrdinary_callWith f v vs

end

end Value

/-! ## Names -/

open Result

section

variable {K : Type} {env : Environment K} {name : String}

theorem Environment.isOrdinary_set (v : Value K) : IsOrdinary (env.set name v) := by
  unfold Environment.set
  split <;> simp [RuntimeError.isDefensive]

theorem Environment.isOrdinary_remove : IsOrdinary (env.remove name) := by
  unfold Environment.remove
  split <;> simp [RuntimeError.isDefensive]

theorem Expr.isOrdinary_derivativeVariable [Scalar K] (second? : Option (Expr K)) :
    IsOrdinary (derivativeVariable second?) := by
  unfold derivativeVariable
  split <;> simp [RuntimeError.isDefensive]

end

end Formula

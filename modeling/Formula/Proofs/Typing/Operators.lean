import Formula.Proofs.Result
import Formula.Typing
import Formula.Value.Functions

/-!
# The type tables list what the operations take

An operation that gives a value on some operands takes their types in the table of `Formula.Typing`
too, and the table gives the value's type. There is one exception: a power of real numbers, a root
or a logarithm of a real number may be complex, where the tables say number. `Fits` allows for it
under an excuse, and `powerLeaves` and `rootLeaves` tell when the excuse is needed.

A prediction may itself be excused: where a number is predicted, a complex number may turn up. The
tables are monotone in this respect, whatever takes a complex number takes a number as well, and so
an excused prediction for the operands gives an excused one for the result.
-/

namespace Formula

namespace Typing

/-! ## Predictions -/

/-- A value of type `actual` where the type `t` is predicted: the types agree, or the value is
complex where a number is predicted and there is an excuse for that. -/
def Fits (excuse : Bool) (t actual : ValueType) : Prop :=
  actual = t ∨ excuse = true ∧ t = .number ∧ actual = .complex

instance (excuse : Bool) (t actual : ValueType) : Decidable (Fits excuse t actual) :=
  inferInstanceAs (Decidable (_ ∨ _))

/-- A guess that does not contradict a value of type `actual`. -/
def Admits (excuse : Bool) (guess : TypeGuess) (actual : ValueType) : Prop :=
  ∀ t, guess = some t → Fits excuse t actual

variable {p q : Bool} {s t u actual : ValueType} {guess : TypeGuess}

/-- A correct prediction needs no excuse. -/
theorem Fits.refl : Fits p t t := .inl rfl

/-- Without an excuse a prediction is correct. -/
theorem Fits.eq (h : Fits false t actual) : actual = t := h.resolve_right fun h => nomatch h.1

/-- An excuse does no harm. -/
theorem Fits.mono (hpq : p = true → q = true) : Fits p t actual → Fits q t actual
  | .inl h => .inl h
  | .inr h => .inr ⟨hpq h.1, h.2⟩

/-- A prediction of a prediction. -/
theorem Fits.trans (h : Fits p s t) (h' : Fits q t u) : Fits (p || q) s u := by
  rcases h with rfl | ⟨rfl, rfl, rfl⟩
  · exact h'.mono (by simp +contextual)
  · rcases h' with rfl | ⟨-, h, -⟩
    · exact .inr ⟨rfl, rfl, rfl⟩
    · cases h

/-- Only a complex number can be mistaken. -/
theorem Fits.eq_of_ne (h : Fits p t actual) (hne : actual ≠ .complex) : t = actual :=
  (h.resolve_right fun h => hne h.2.2).symm

/-- An excuse does no harm to a guess. -/
theorem Admits.mono (hpq : p = true → q = true) (h : Admits p guess actual) :
    Admits q guess actual := fun t ht => (h t ht).mono hpq

/-- An unknown type admits every value. -/
theorem Admits.unknown : Admits p none actual := nofun

/-- A known type admits what fits it. -/
theorem Admits.known (h : Fits p t actual) : Admits p (some t) actual := fun _ ht => by
  cases ht; exact h

/-- A guess that admits a type has a candidate that the type fits. -/
theorem Admits.candidate (h : Admits p guess actual) : ∃ t ∈ candidates guess, Fits p t actual := by
  cases guess with
  | none => exact ⟨actual, by cases actual <;> decide, .refl⟩
  | some t => exact ⟨t, .head _, h t rfl⟩

/-- Results that have a type in common include no other. -/
theorem eq_of_unify {results : List ValueType} (h : unify results = some (some t))
    (hs : s ∈ results) : s = t := by
  cases results with
  | nil => cases hs
  | cons r rs =>
    simp only [unify, Option.some.injEq] at h
    split at h
    · next hall =>
      cases h
      rcases List.mem_cons.1 hs with rfl | hs
      · rfl
      · exact eq_of_beq (List.all_eq_true.1 hall s hs)
    · cases h

/-- What there is has something in common. -/
theorem unify_isSome {results : List ValueType} (hs : s ∈ results) :
    ∃ guess, unify results = some guess := by
  cases results with
  | nil => cases hs
  | cons r rs => exact ⟨_, rfl⟩

end Typing

namespace Value

open Typing

variable {K : Type} [Scalar K]

/-! ## Operators -/

/-- The complement of a value. -/
theorem complement_type {v w : Value K} (h : complement v = .ok w) :
    unary? .not v.type = some w.type := by
  cases v with
  | bool => cases h; rfl
  | number a =>
    obtain ⟨n, -, h⟩ := Result.bind_ok h
    split at h
    · cases h; rfl
    · cases h
  | _ => cases h

/-- The factorial of a value. -/
theorem factorial_type {v w : Value K} (h : factorial v = .ok w) :
    unary? .factorial v.type = some w.type := by
  cases v with
  | number a =>
    obtain ⟨n, -, h⟩ := Result.bind_ok h
    split at h
    · cases h
    · cases h; rfl
  | _ => cases h

/-- A unary operator takes the operands of its table. -/
theorem applyUnary_type {op : UnaryOp} {v w : Value K} (h : v.applyUnary op = .ok w) :
    unary? op v.type = some w.type := by
  cases op with
  | minus => cases v <;> cases h <;> rfl
  | not => exact complement_type h
  | factorial => exact factorial_type h

/-- Whether the operator is a power of two real numbers that is complex. -/
def powerLeaves (op : BinaryOp) : Value K → Value K → Bool
  | number a, number b => op = .pow && leavesReals a b
  | _, _ => false

/-- Arithmetic of complex numbers has no remainder and a complex result. -/
theorem arithmeticComplex_type {op : BinaryOp} {y z : Complex K} {w : Value K}
    (h : arithmeticComplex op y z = .ok w) : op ≠ .mod ∧ w.type = .complex := by
  cases op <;> cases h <;> exact ⟨nofun, rfl⟩

/-- Arithmetic takes the operands of its table. -/
theorem arithmetic_type {op : BinaryOp} {a b w : Value K} (h : arithmetic op a b = .ok w) :
    ∃ t, arithmetic? op a.type b.type = some t ∧ Fits (powerLeaves op a b) t w.type := by
  unfold arithmetic at h
  split at h
  · cases h
    refine ⟨.number, rfl, ?_⟩
    unfold arithmeticReal
    split
    · next hp => exact .inr ⟨hp, rfl, rfl⟩
    · exact .refl
  iterate 3
    obtain ⟨hop, ht⟩ := arithmeticComplex_type h
    exact ⟨_, if_neg hop, .inl ht⟩
  iterate 3
    cases op <;> cases h <;> exact ⟨_, rfl, .refl⟩
  · split at h <;> first | cases h | obtain ⟨_, -, rfl⟩ := Result.map_ok h; exact ⟨_, rfl, .refl⟩
  iterate 2
    split at h <;> cases h <;> exact ⟨_, rfl, .refl⟩
  · split at h <;> first | cases h | obtain ⟨_, -, rfl⟩ := Result.map_ok h; exact ⟨_, rfl, .refl⟩
  iterate 2
    split at h <;> cases h <;> exact ⟨_, rfl, .refl⟩
  · split at h <;> first | cases h | obtain ⟨_, -, rfl⟩ := Result.map_ok h; exact ⟨_, rfl, .refl⟩
  · split at h
    · next hs =>
      cases h
      obtain ⟨rfl, hs⟩ : op = .add ∧ (a.type = .string ∨ b.type = .string) := by simpa using hs
      refine ⟨.string, ?_, .refl⟩
      cases a <;> cases b <;> first | rfl | (simp [type] at hs)
    · cases h

/-- Equality is tested between operands of its table. -/
theorem equal?_type {a b : Value K} {e : Bool} (h : equal? a b = some e) :
    equatable a.type b.type = true := by
  cases a <;> cases b <;> first | rfl | cases h

/-- Order is tested between two numbers or two angles. -/
theorem ordered?_type {a b : Value K} {p : K × K} (h : ordered? a b = some p) :
    a.type = b.type ∧ (a.type = .number ∨ a.type = .angle) := by
  cases a <;> cases b <;> cases h <;> simp [type]

/-- A comparison takes the operands of its table. -/
theorem comparison_type {op : BinaryOp} (hop : op.isComparison) {a b w : Value K}
    (h : comparison op a b = .ok w) : binary? op a.type b.type = some w.type := by
  have equality {e : Bool} (he : equal? a b = some e) :
      (if equatable a.type b.type then some ValueType.boolean else none) = some .boolean :=
    if_pos (equal?_type he)
  have order {p : K × K} (hp : ordered? a b = some p) :
      (if a.type = b.type ∧ (a.type = .number ∨ a.type = .angle) then some ValueType.boolean
        else none) = some .boolean :=
    if_pos (ordered?_type hp)
  unfold comparison at h
  split at h
  iterate 2
    split at h
    · next he => cases h; exact equality he
    · cases h
  · split at h
    · next hne hnn _ x y hp =>
      cases h
      cases op with
      | lt | le | gt | ge => exact order hp
      | eq => exact absurd rfl hne
      | ne => exact absurd rfl hnn
      | _ => cases hop
    · cases h

/-- An integer as a value is a number. -/
theorem ofInteger_type {operation : String} {n : Int} {w : Value K}
    (h : ofInteger operation n = .ok w) : w.type = .number := by
  unfold ofInteger at h
  split at h <;> cases h
  rfl

/-- A logical operator takes two truth values, or two numbers if it has a form for integers. -/
theorem logic_type {op : BinaryOp} {a b w : Value K} (h : logic op a b = .ok w) :
    a.type = .boolean ∧ b.type = .boolean ∧ w.type = .boolean ∨
      (logicBits? op).isSome ∧ a.type = .number ∧ b.type = .number ∧ w.type = .number := by
  unfold logic at h
  split at h
  · cases h; exact .inl ⟨rfl, rfl, rfl⟩
  · split at h
    · next f hf =>
      obtain ⟨m, -, h⟩ := Result.bind_ok h
      obtain ⟨n, -, h⟩ := Result.bind_ok h
      exact .inr ⟨by rw [hf]; rfl, rfl, rfl, ofInteger_type h⟩
    · cases h
  · cases h

/-- A shift takes two numbers. -/
theorem shift_type {op : BinaryOp} {a b w : Value K} (h : shift op a b = .ok w) :
    a.type = .number ∧ b.type = .number ∧ w.type = .number := by
  unfold shift at h
  split at h
  · obtain ⟨value, -, h⟩ := Result.bind_ok h
    obtain ⟨amount, -, h⟩ := Result.bind_ok h
    split at h
    · exact ⟨rfl, rfl, ofInteger_type h⟩
    · cases h
  · cases h

/-- **A binary operator takes the operands of its table**, and the result has the type of the
table, up to complex powers. -/
theorem applyBinary_type {op : BinaryOp} {a b w : Value K} (h : applyBinary op a b = .ok w) :
    ∃ t, binary? op a.type b.type = some t ∧ Fits (powerLeaves op a b) t w.type := by
  have logical (h : logic op a b = .ok w)
      (ht : ∀ s ∈ [ValueType.number, .boolean], s = .boolean ∨ (logicBits? op).isSome →
        binary? op s s = some s) :
      ∃ t, binary? op a.type b.type = some t ∧ Fits (powerLeaves op a b) t w.type := by
    rcases logic_type h with ⟨ha, hb, hw⟩ | ⟨hop, ha, hb, hw⟩ <;> rw [ha, hb, hw]
    · exact ⟨_, ht _ (by simp) (.inl rfl), .refl⟩
    · exact ⟨_, ht _ (by simp) (.inr hop), .refl⟩
  cases op with
  | add | sub | mul | div | mod | pow => exact arithmetic_type h
  | lt | le | gt | ge | eq | ne => exact ⟨_, comparison_type rfl h, .refl⟩
  | and | or | xor | nand | nor | andThen | orElse | implies | iff => exact logical h (by decide)
  | shiftLeft | shiftRight =>
    obtain ⟨ha, hb, hw⟩ := shift_type h
    rw [ha, hb, hw]
    exact ⟨_, rfl, .refl⟩

end Value

end Formula

import Mathlib.Algebra.Field.Basic
import Formula.Simplify

/-!
# What a tree denotes in a field

A `Reading` says which element of a field a number and a variable stand for and what the functions
of one argument are; a function may be undefined somewhere. `Expr.denote` extends it to trees built
from numbers, variables, signs, the arithmetic operators and such functions. The exponent of a power
is an integer that the tree writes down. A tree denotes nothing if a denominator in it denotes zero,
a negative power of zero included, and no tree of any other kind denotes anything.
-/

namespace Formula

/-- A reading of numbers, variables and functions of one argument in a field. -/
structure Reading (K F : Type) where
  number : K → F
  var : String → F
  apply : Builtin → F → Option F

/-- A number that denotes an integer is read as that integer. -/
def Reading.ReadsIntegers {K F : Type} [Scalar K] [IntCast F] (ρ : Reading K F) : Prop :=
  ∀ ⦃a : K⦄ ⦃n : ℤ⦄, Scalar.toInt? a = some n → ρ.number a = n

namespace Expr

variable {K F : Type} [Scalar K]

/-- The integer a tree writes by literals, signs and differences. -/
def integer? : Expr K → Option ℤ
  | number a => Scalar.toInt? a
  | unary .minus a => do return -(← integer? a)
  | binary .sub a b => do return (← integer? a) - (← integer? b)
  | _ => none

variable [Field F]

open Classical in
/-- An arithmetic operator of a field; nothing is divided by zero. -/
noncomputable def combine? (op : BinaryOp) (u v : F) : Option F :=
  match op with
  | .add => some (u + v)
  | .sub => some (u - v)
  | .mul => some (u * v)
  | .div => if v = 0 then none else some (u / v)
  | _ => none

open Classical in
/-- An integer power; zero has no negative ones. -/
noncomputable def power? (u : F) (n : ℤ) : Option F :=
  if u = 0 ∧ n < 0 then none else some (u ^ n)

/-- What a tree denotes under a reading. -/
noncomputable def denote (ρ : Reading K F) : Expr K → Option F
  | number a => some (ρ.number a)
  | var x => some (ρ.var x)
  | unary .minus a => do return -(← denote ρ a)
  | binary .pow a b => do power? (← denote ρ a) (← integer? b)
  | binary op a b => do combine? op (← denote ρ a) (← denote ρ b)
  | builtin f [a] => do if f.arity.accepts 1 then ρ.apply f (← denote ρ a) else none
  | _ => none

variable {ρ : Reading K F} {a b : Expr K} {f : Builtin} {u v w : F} {n : ℤ}

/-! ## Reading a node -/

omit [Field F] in
theorem integer?_minus : integer? (unary .minus a) = some n ↔
    ∃ m, integer? a = some m ∧ -m = n := by
  simp [integer?, Option.bind_eq_some_iff]

omit [Field F] in
theorem integer?_sub : integer? (binary .sub a b) = some n ↔
    ∃ l m, integer? a = some l ∧ integer? b = some m ∧ l - m = n := by
  simp [integer?, Option.bind_eq_some_iff]

@[simp] theorem denote_number (value : K) : denote ρ (number value) = some (ρ.number value) := rfl

@[simp] theorem denote_var (x : String) : denote ρ (var x) = some (ρ.var x) := rfl

theorem denote_minus : denote ρ (unary .minus a) = some w ↔ ∃ u, denote ρ a = some u ∧ -u = w := by
  show (denote ρ a).bind (fun u => some (-u)) = some w ↔ _
  simp only [Option.bind_eq_some_iff, Option.some.injEq]

theorem denote_binary {op : BinaryOp} (hop : op ≠ .pow) : denote ρ (binary op a b) = some w ↔
    ∃ u v, denote ρ a = some u ∧ denote ρ b = some v ∧ combine? op u v = some w := by
  cases op with
  | pow => exact absurd rfl hop
  | _ =>
    show (denote ρ a).bind (fun u => (denote ρ b).bind (combine? _ u)) = some w ↔ _
    simp only [Option.bind_eq_some_iff, exists_and_left]

theorem denote_add : denote ρ (binary .add a b) = some w ↔
    ∃ u v, denote ρ a = some u ∧ denote ρ b = some v ∧ u + v = w := by
  simp [denote_binary, combine?]

theorem denote_sub : denote ρ (binary .sub a b) = some w ↔
    ∃ u v, denote ρ a = some u ∧ denote ρ b = some v ∧ u - v = w := by
  simp [denote_binary, combine?]

theorem denote_mul : denote ρ (binary .mul a b) = some w ↔
    ∃ u v, denote ρ a = some u ∧ denote ρ b = some v ∧ u * v = w := by
  simp [denote_binary, combine?]

theorem denote_div : denote ρ (binary .div a b) = some w ↔
    ∃ u v, denote ρ a = some u ∧ denote ρ b = some v ∧ v ≠ 0 ∧ u / v = w := by
  simp [denote_binary, combine?, ite_eq_iff]

theorem denote_pow : denote ρ (binary .pow a b) = some w ↔
    ∃ u n, denote ρ a = some u ∧ integer? b = some n ∧ (u = 0 → 0 ≤ n) ∧ u ^ n = w := by
  show (denote ρ a).bind (fun u => (integer? b).bind (power? u)) = some w ↔ _
  simp [power?, ite_eq_iff, Option.bind_eq_some_iff]

theorem denote_builtin : denote ρ (builtin f [a]) = some w ↔
    f.arity.accepts 1 = true ∧ ∃ u, denote ρ a = some u ∧ ρ.apply f u = some w := by
  show (if f.arity.accepts 1 then (denote ρ a).bind (ρ.apply f) else none) = some w ↔ _
  cases h : f.arity.accepts 1 <;> simp [Option.bind_eq_some_iff]

/-! ## Integers -/

/-- A tree that writes an integer denotes it. -/
theorem denote_of_integer? (h : ρ.ReadsIntegers) {e : Expr K} (hn : integer? e = some n) :
    denote ρ e = some (n : F) := by
  fun_induction integer? e generalizing n with
  | case1 value => rw [denote_number, h hn]
  | case2 a ih =>
    obtain ⟨m, hm, rfl⟩ := integer?_minus.1 hn
    exact denote_minus.2 ⟨m, ih hm, (Int.cast_neg m).symm⟩
  | case3 a b iha ihb =>
    obtain ⟨l, m, hl, hm, rfl⟩ := integer?_sub.1 hn
    exact denote_sub.2 ⟨l, m, iha hl, ihb hm, (Int.cast_sub l m).symm⟩
  | case4 => cases hn

end Expr

end Formula

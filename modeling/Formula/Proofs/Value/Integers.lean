import Formula.Binary64.Scalar
import Formula.Proofs.Binary64.Integers
import Formula.Value.Functions

/-!
# Integers among the values

What an operation on integers reads and gives back. A number that stands for an integer of the safe
range is read as it (`integerOf_eq_ok`), and any other integral number is refused
(`integerOf_eq_error`). So an operation over many arguments is carried out on the integers behind
them (`foldIntegers_eq_ofInteger`), or refuses the first one outside the range
(`foldIntegers_eq_error`). A result of the safe range is given as the double that stands for it
(`Binary64.ofInteger_of_isSafeInt`), and any other one is refused.
-/

namespace Formula

namespace Value

variable {K : Type} [Scalar K] {a : K} {n : Int} {operation : String}

/-! ## One number -/

/-- An integer of less than sixty-four bits is what is left of it. -/
theorem bmod_of_natAbs_lt {m : Int} (h : m.natAbs < 2 ^ 63) : m.bmod (2 ^ 64) = m :=
  Int.bmod_eq_of_le_mul_two (by push_cast; omega) (by push_cast; omega)

theorem isSafeInt_iff {m : Int} : isSafeInt m = true ↔ m.natAbs < 2 ^ 53 := by
  rw [isSafeInt, decide_eq_true_iff, maxSafeInt]
  omega

/-- A number that stands for an integer of the safe range. -/
theorem integerOf_eq_ok (ha : Scalar.toInt? a = some n) (hn : isSafeInt n = true) :
    integerOf operation a = .ok n := by
  rw [integerOf, Scalar.toSafeInt?, ha, Option.filter_some, if_pos hn]

/-- A number that stands for an integer outside the safe range. -/
theorem integerOf_eq_error (ha : Scalar.toInt? a = some n) (hn : isSafeInt n = false) :
    integerOf operation a = .error (.expectedInteger operation a) := by
  rw [integerOf, Scalar.toSafeInt?, ha, Option.filter_some, if_neg (Bool.eq_false_iff.1 hn)]

/-! ## Many numbers -/

section

variable {f : Builtin} {g : Int → Int → Int} {x : K} {xs : List K} {ns : List Int}

/-- A number stands for an integer of the safe range. -/
def StandsFor (x : K) (n : Int) : Prop := Scalar.toInt? x = some n ∧ isSafeInt n = true

theorem StandsFor.asInteger (h : StandsFor x n) :
    (number x).asInteger operation = .ok n :=
  integerOf_eq_ok h.1 h.2

/-- Integers of the safe range have at most fifty-three binary digits. -/
theorem natAbs_lt_of_standsFor (h : List.Forall₂ StandsFor xs ns) :
    ∀ n ∈ ns, n.natAbs < 2 ^ 53 := by
  induction h with
  | nil => nofun
  | cons hx _ ih => exact List.forall_mem_cons.2 ⟨isSafeInt_iff.1 hx.2, ih⟩

/-- Integers are accumulated over numbers that stand for them. -/
theorem foldlM_asInteger (h : List.Forall₂ StandsFor xs ns) (start : Int) :
    (xs.map number).foldlM (m := Result K) (fun acc v => return g acc (← v.asInteger operation))
      start = .ok (ns.foldl g start) := by
  induction h generalizing start with
  | nil => rfl
  | cons hx _ ih =>
    rw [List.map_cons, List.foldlM_cons, hx.asInteger]
    exact ih _

/-- An operation on integers whose first argument is one. -/
theorem foldIntegers_cons {v : Value K} (hv : v.asInteger f.name = .ok n) (vs : List (Value K)) :
    foldIntegers f g (v :: vs) =
      vs.foldlM (m := Result K) (fun acc u => return g acc (← u.asInteger f.name)) n >>=
        ofInteger f.name := by
  rw [foldIntegers, hv]
  rfl

/-- An operation on integers over numbers of the safe range. -/
theorem foldIntegers_eq_ofInteger (hx : StandsFor x n) (hxs : List.Forall₂ StandsFor xs ns) :
    foldIntegers f g ((x :: xs).map number) = ofInteger f.name (ns.foldl g n) := by
  rw [List.map_cons, foldIntegers_cons hx.asInteger, foldlM_asInteger hxs]
  rfl

/-- A number that is not read ends an accumulation with its error. -/
theorem foldlM_asInteger_error {cause : RuntimeError K} {v : Value K}
    (hxs : List.Forall₂ StandsFor xs ns) (hv : v.asInteger operation = .error cause)
    (rest : List (Value K)) (start : Int) :
    (xs.map number ++ v :: rest).foldlM (m := Result K)
      (fun acc u => return g acc (← u.asInteger operation)) start = .error cause := by
  induction hxs generalizing start with
  | nil =>
    rw [List.map_nil, List.nil_append, List.foldlM_cons, hv]
    rfl
  | cons hx _ ih =>
    rw [List.map_cons, List.cons_append, List.foldlM_cons, hx.asInteger]
    exact ih _

/-- An operation on integers refuses the first number outside the safe range. -/
theorem foldIntegers_eq_error (hxs : List.Forall₂ StandsFor xs ns) (hx : Scalar.toInt? x = some n)
    (hn : isSafeInt n = false) (rest : List (Value K)) :
    foldIntegers f g (xs.map number ++ number x :: rest) = .error (.expectedInteger f.name x) := by
  have hrefused : (number x).asInteger f.name = .error (.expectedInteger f.name x) :=
    integerOf_eq_error hx hn
  cases hxs with
  | nil =>
    rw [List.map_nil, List.nil_append, foldIntegers, hrefused]
    rfl
  | cons hy hys =>
    rw [List.map_cons, List.cons_append, foldIntegers_cons hy.asInteger,
      foldlM_asInteger_error hys hrefused]
    rfl

end

end Value

namespace Binary64

/-! ## Results -/

open Value

variable {m : Int}

/-- The result of an integer operation, which is an integer of the safe range or refused. -/
theorem ofInteger_of_isSafeInt (h : isSafeInt m = true) (operation : String) :
    ofInteger operation m = .ok (number (ofInt m)) ∧
      Scalar.toInt? (ofInt m) = some m := by
  refine ⟨?_, toInt?_ofInt (isSafeInt_iff.1 h)⟩
  rw [ofInteger, Scalar.ofSafeInt?, if_pos h]
  rfl

theorem ofInteger_of_not_isSafeInt (h : isSafeInt m = false) {operation : String} :
    (ofInteger operation m : Result Binary64 _) =
      .error (.invalidArgument operation s!"{m} is too large to be represented exactly") := by
  rw [ofInteger, Scalar.ofSafeInt?, if_neg (Bool.eq_false_iff.1 h)]

end Binary64

end Formula

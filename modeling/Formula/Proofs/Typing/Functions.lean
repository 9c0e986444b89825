import Mathlib.Data.List.Forall2
import Formula.Proofs.Typing.Operators

/-!
# The type table of the built-in functions

A built-in call that gives a value on some arguments takes their types in the table as well. The
call is typed by guesses at its arguments, and where some of them are unknown the table is tried
with one type for all of these. The type of the first argument always is such a type: the functions
that take several arguments take numbers alone or vectors alone, except that a logarithm of a
complex number has a real base, and there the table lets a complex base pass.
-/

namespace Formula

/-- An exact arity accepts one count. -/
theorem Arity.accepts_exactly {m n : Nat} : (Arity.exactly n).accepts m = true ↔ m = n := by
  have h : (Arity.exactly n).accepts m = (decide (n ≤ m) && decide (m ≤ n)) := rfl
  rw [h, Bool.and_eq_true_iff, decide_eq_true_iff, decide_eq_true_iff]
  omega

namespace Typing

variable {p : Bool} {s t c : ValueType}

/-- Arguments of one allowed type have the result. -/
theorem allowing_same {allowed : List ValueType} (hc : c ∈ allowed) (ss : List ValueType)
    (h : ∀ s ∈ ss, s = c) : allowing allowed t (c :: ss) = .ok t := by
  have hnone : (c :: ss).findIdx? (· ∉ allowed) = none :=
    List.findIdx?_eq_none_iff.2 fun s hs => by
      have hs : s = c := by simpa using (List.mem_cons.1 hs).elim id (h s)
      simpa [hs] using hc
  rw [allowing, hnone]

/-- What stands in the table for an argument of type `actual` after a first argument of type
`first`: a type it fits, or the type of the first argument where its own is unknown. -/
def Substitutes (p : Bool) (first s actual : ValueType) : Prop := Fits p s actual ∨ s = first

/-- The types that stand for arguments of one type are that type, unless it is excused. -/
theorem substitutes_eq {ss actuals : List ValueType} (hc : c ≠ .complex)
    (h : List.Forall₂ (Substitutes p c) ss actuals) (hall : ∀ a ∈ actuals, a = c) :
    ∀ s ∈ ss, s = c := by
  induction h with
  | nil => nofun
  | cons h _ ih =>
    obtain ⟨rfl, hall⟩ := List.forall_mem_cons.1 hall
    refine List.forall_mem_cons.2 ⟨?_, ih hall⟩
    exact h.elim (·.eq_of_ne hc) id

/-- Whether a complex argument gives a complex result. -/
def keepsComplex (f : Builtin) : Bool := builtin f [.complex] matches .ok .complex

end Typing

namespace Value

open Typing

variable {K : Type} [Scalar K] {f : Builtin} {v w : Value K} {vs : List (Value K)}

/-! ## Functions of one argument -/

omit [Scalar K] in
/-- A function of a real number. -/
theorem ofReal_type {g : K → K} (h : ofReal f g v = .ok w) :
    v.type = .number ∧ w.type = .number := by
  cases v <;> cases h
  exact ⟨rfl, rfl⟩

omit [Scalar K] in
/-- A function of a real or complex number. -/
theorem ofComplex_type {g : K → K} {k : Complex K → Complex K} (h : ofComplex f g k v = .ok w) :
    v.type = .number ∧ w.type = .number ∨ v.type = .complex ∧ w.type = .complex := by
  unfold ofComplex at h
  split at h
  · cases h; exact .inr ⟨rfl, rfl⟩
  · exact .inl (ofReal_type h)

omit [Scalar K] in
/-- A function of a real number that keeps the unit of an angle. -/
theorem ofAngle_type {g : K → K} (h : ofAngle f g v = .ok w) :
    v.type = .number ∧ w.type = .number ∨ v.type = .angle ∧ w.type = .angle := by
  unfold ofAngle at h
  split at h
  · cases h; exact .inr ⟨rfl, rfl⟩
  · exact .inl (ofReal_type h)

/-- A function of a direction. -/
theorem trigonometric_type {g : K → K} {k : Complex K → Complex K}
    (h : trigonometric f g k v = .ok w) :
    v.type = .angle ∧ w.type = .number ∨ v.type = .number ∧ w.type = .number ∨
      v.type = .complex ∧ w.type = .complex := by
  unfold trigonometric at h
  split at h
  · cases h; exact .inl ⟨rfl, rfl⟩
  · exact .inr (ofComplex_type h)

/-- A part of a complex number. -/
theorem partOf_type {g : Complex K → K} (h : partOf f g v = .ok w) :
    (v.type = .number ∨ v.type = .complex) ∧ w.type = .number := by
  cases v <;> cases h <;> simp [type]

/-- An angle in another unit. -/
theorem inUnit_type {unit : AngleUnit} (h : inUnit f unit v = .ok w) :
    v.type = .angle ∧ w.type = .angle := by
  cases v <;> cases h
  exact ⟨rfl, rfl⟩

/-- The size of a value. -/
theorem absolute_type (h : absolute v = .ok w) :
    v.type = .complex ∧ w.type = .number ∨ v.type = .angle ∧ w.type = .angle ∨
      (v.type = .vector ∨ v.type = .number) ∧ w.type = .number := by
  cases v <;> cases h <;> simp [type]

/-- The number of an angle. -/
theorem toNumber_type (h : callWith .toNumber v (v :: vs) = .ok w) :
    (v.type = .angle ∨ v.type = .number) ∧ w.type = .number := by
  cases v <;> cases h <;> simp [type]

/-- A matrix or a vector with rows and columns exchanged. -/
theorem transposed_type (h : transposed vs v = .ok w) :
    (v.type = .matrix ∨ v.type = .vector) ∧ w.type = .matrix := by
  cases v <;> cases h <;> simp [type]

/-- Whether the value is a number below zero, where roots and logarithms may be complex. -/
def isBelowZero : Value K → Bool
  | number a => Scalar.lt a Scalar.zero
  | _ => false

/-- A logarithm. -/
theorem logarithm_type {g : K → K} {lnBase : K} (h : logarithm f g lnBase v = .ok w) :
    v.type = .number ∧ Fits v.isBelowZero .number w.type ∨
      v.type = .complex ∧ w.type = .complex := by
  unfold logarithm at h
  split at h
  · next a =>
    split at h
    · next ha => cases h; exact .inl ⟨rfl, .inr ⟨ha, rfl, rfl⟩⟩
    · cases h; exact .inl ⟨rfl, .refl⟩
  · exact (ofComplex_type h).imp_left fun ⟨hv, hw⟩ => ⟨hv, .inl hw⟩

/-- A square root. -/
theorem squareRoot_type (h : squareRoot v = .ok w) :
    v.type = .number ∧ Fits v.isBelowZero .number w.type ∨
      v.type = .complex ∧ w.type = .complex := by
  unfold squareRoot at h
  split at h
  · next a =>
    split at h
    · next ha => cases h; exact .inl ⟨rfl, .inr ⟨ha, rfl, rfl⟩⟩
    · cases h; exact .inl ⟨rfl, .refl⟩
  · exact (ofComplex_type h).imp_left fun ⟨hv, hw⟩ => ⟨hv, .inl hw⟩

/-- A root of any degree. -/
theorem root_type (a degree : K) :
    Fits (number a).isBelowZero .number (root a degree).type := by
  unfold root
  split
  · next ha =>
    simp only
    split
    · exact .refl
    · exact .inr ⟨ha, rfl, rfl⟩
  · exact .refl

/-! ## Views -/

omit [Scalar K] in
/-- A value seen as a number is one. -/
theorem asNumber_type {operation : String} {a : K} (h : v.asNumber operation = .ok a) :
    v = number a := by
  cases v <;> cases h
  rfl

/-- A value seen as an integer is a number. -/
theorem asInteger_type {operation : String} {n : Int} (h : v.asInteger operation = .ok n) :
    v.type = .number := by
  obtain ⟨a, ha, -⟩ := Result.bind_ok h
  rw [asNumber_type ha]; rfl

omit [Scalar K] in
/-- A value seen as a vector is one. -/
theorem asVector_type {operation : String} {elements : List K}
    (h : v.asVector operation = .ok elements) : v.type = .vector := by
  cases v <;> cases h
  rfl

omit [Scalar K] in
/-- A value seen as a matrix is one. -/
theorem asMatrix_type {operation : String} {rows : List (List K)}
    (h : v.asMatrix operation = .ok rows) : v.type = .matrix := by
  cases v <;> cases h
  rfl

/-- An integer in another base. -/
theorem inBase_type {base : Nat} {mark : String} (h : inBase f base mark v = .ok w) :
    v.type = .number ∧ w.type = .string := by
  obtain ⟨n, hn, h⟩ := Result.bind_ok h
  cases h
  exact ⟨asInteger_type hn, rfl⟩

/-! ## Functions of several arguments -/

omit [Scalar K] in
/-- The second of two arguments seen as a number is one. -/
theorem secondNumber_type {b : K} (hlen : (Arity.exactly 2).accepts (vs.length + 1))
    (h : secondNumber f (v :: vs) = .ok b) : vs = [number b] := by
  match vs, h with
  | [u], h => rw [asNumber_type (v := u) h]
  | _ :: _ :: _, _ => simp [Arity.accepts_exactly] at hlen

/-- A rounded number. -/
theorem roundTo_type {a : K} {places : Int} (h : roundTo a places = .ok w) :
    w.type = .number := by
  unfold roundTo at h
  split at h
  · cases h
  · split at h <;> cases h
    rfl

/-- The arguments of a rounding are numbers. -/
theorem round_type (hlen : (Arity.between 1 2).accepts (vs.length + 1))
    (h : callWith .round v (v :: vs) = .ok w) :
    v.type = .number ∧ (∀ u ∈ vs, u.type = .number) ∧ w.type = .number := by
  match vs, h with
  | [], h =>
    obtain ⟨a, ha, h⟩ := Result.bind_ok (x := v.asNumber _) h
    exact ⟨by rw [asNumber_type ha]; rfl, nofun, roundTo_type h⟩
  | [u], h =>
    obtain ⟨places, hplaces, h⟩ := Result.bind_ok (x := u.asInteger _) h
    obtain ⟨a, ha, h⟩ := Result.bind_ok h
    exact ⟨by rw [asNumber_type ha]; rfl, List.forall_mem_singleton.2 (asInteger_type hplaces),
      roundTo_type h⟩
  | _ :: _ :: _, _ => simp [Arity.accepts, Arity.between] at hlen

/-- The elements of a list with integers accumulated over it are numbers. -/
theorem foldlM_asInteger_type {operation : String} {g : Int → Int → Int} :
    ∀ {vs : List (Value K)} {start result : Int},
      vs.foldlM (m := Result K) (fun acc u => return g acc (← u.asInteger operation)) start
        = .ok result → ∀ u ∈ vs, u.type = .number
  | [], _, _, _ => nofun
  | u :: us, start, result, h => by
    rw [List.foldlM_cons] at h
    obtain ⟨next, hnext, h⟩ := Result.bind_ok h
    obtain ⟨n, hn, -⟩ := Result.bind_ok hnext
    exact List.forall_mem_cons.2 ⟨asInteger_type hn, foldlM_asInteger_type h⟩

/-- The arguments of an operation on integers are numbers. -/
theorem foldIntegers_type {g : Int → Int → Int} (h : foldIntegers f g (v :: vs) = .ok w) :
    (∀ u ∈ v :: vs, u.type = .number) ∧ w.type = .number := by
  obtain ⟨start, hstart, h⟩ := Result.bind_ok h
  obtain ⟨result, hresult, h⟩ := Result.bind_ok h
  exact ⟨List.forall_mem_cons.2 ⟨asInteger_type hstart, foldlM_asInteger_type hresult⟩,
    ofInteger_type h⟩

omit [Scalar K] in
/-- The arguments of a statistical function are one vector or numbers. -/
theorem statistic_type {g : List K → K} (h : statistic f g vs = .ok w) :
    (vs.map type = [.vector] ∨ ∀ u ∈ vs, u.type = .number) ∧ w.type = .number := by
  obtain ⟨values, hvalues, h⟩ := Result.bind_ok h
  cases h
  refine ⟨?_, rfl⟩
  unfold numbersOf at hvalues
  split at hvalues
  · exact .inl rfl
  · refine .inr fun u hu => ?_
    obtain ⟨a, ha⟩ := Result.mapM_ok hvalues u hu
    cases u <;> cases ha
    rfl

omit [Scalar K] in
/-- The arguments of an operation on two vectors. -/
theorem ofTwoVectors_type {α : Type} {g : List K → List K → Result K α} {a : α}
    (h : ofTwoVectors f g (v :: vs) = .ok a) :
    v.type = .vector ∧ ∀ u ∈ vs, u.type = .vector := by
  unfold ofTwoVectors at h
  split at h
  · next b c heq =>
    cases heq
    obtain ⟨x, hx, h⟩ := Result.bind_ok h
    obtain ⟨y, hy, -⟩ := Result.bind_ok h
    exact ⟨asVector_type hx, List.forall_mem_singleton.2 (asVector_type hy)⟩
  · cases h

/-! ## The table -/

/-- Whether the table may say number where the call gives a complex number, for a first argument
`v` under the excuse `p`: the excuse carries over, or the call leaves the reals. -/
def callExcuse (p : Bool) (f : Builtin) (v : Value K) : Bool :=
  p && keepsComplex f || f.mayLeaveReals && v.isBelowZero

section

variable {p : Bool} {s : ValueType} {ss : List ValueType} (hs : Fits p s v.type)
  (hss : List.Forall₂ (Substitutes p v.type) ss (vs.map type))

include hs hss

/-- A call on arguments of one type. -/
theorem fits_of_uniform (c : ValueType) {d : ValueType} (hc : c ≠ .complex) (hv : v.type = c)
    (hvs : ∀ u ∈ vs, u.type = c)
    (ht : ∀ us, (∀ u ∈ us, u = c) → Typing.builtin f (c :: us) = .ok d)
    (hw : Fits (f.mayLeaveReals && v.isBelowZero) d w.type) :
    ∃ t, Typing.builtin f (s :: ss) = .ok t ∧ Fits (callExcuse p f v) t w.type := by
  subst hv
  obtain rfl := hs.eq_of_ne hc
  have hall := substitutes_eq hc hss (by simpa using hvs)
  exact ⟨d, ht ss hall, hw.mono (by simp +contextual [callExcuse])⟩

/-- A function of one argument has no other. -/
theorem fits_of_single (c : ValueType) {d : ValueType}
    (hlen : (Arity.exactly 1).accepts (vs.length + 1)) (hc : c ≠ .complex) (hv : v.type = c)
    (ht : Typing.builtin f [c] = .ok d)
    (hw : Fits (f.mayLeaveReals && v.isBelowZero) d w.type) :
    ∃ t, Typing.builtin f (s :: ss) = .ok t ∧ Fits (callExcuse p f v) t w.type := by
  obtain rfl : vs = [] := by simpa using Arity.accepts_exactly.1 hlen
  cases hss
  subst hv
  obtain rfl := hs.eq_of_ne hc
  exact ⟨d, ht, hw.mono (by simp +contextual [callExcuse])⟩

/-- A function of one argument, called on a complex number. -/
theorem fits_of_complex {d : ValueType} (hlen : (Arity.exactly 1).accepts (vs.length + 1))
    (hv : v.type = .complex) (ht : Typing.builtin f [.complex] = .ok d)
    (hn : Typing.builtin f [.number] = .ok .number) (hd : d = .number ∨ d = .complex)
    (hw : w.type = d) :
    ∃ t, Typing.builtin f (s :: ss) = .ok t ∧ Fits (callExcuse p f v) t w.type := by
  obtain rfl : vs = [] := by simpa using Arity.accepts_exactly.1 hlen
  cases hss
  rw [hv] at hs
  rcases hs with rfl | ⟨rfl, rfl, -⟩
  · exact ⟨d, ht, .inl hw⟩
  · refine ⟨.number, hn, ?_⟩
    rcases hd with rfl | rfl
    · exact .inl hw
    · exact .inr ⟨by simp [callExcuse, keepsComplex, ht], rfl, hw⟩

/-- A logarithm to a base. The base is a number, but may be tried as a complex number beside a
complex argument. -/
theorem fits_of_log (hlen : Builtin.log.arity.accepts (vs.length + 1))
    (h : callWith .log v (v :: vs) = .ok w) :
    ∃ t, Typing.builtin .log (s :: ss) = .ok t ∧ Fits (callExcuse p .log v) t w.type := by
  obtain ⟨base, hbase, h⟩ := Result.bind_ok h
  obtain rfl := secondNumber_type hlen hbase
  rcases logarithm_type h with ⟨hv, hw⟩ | ⟨hv, hw⟩
  · exact fits_of_uniform hs hss _ (by simp) hv (by simp [type])
      (allowing_same (by simp)) hw
  · rw [hv] at hs hss
    obtain _ | ⟨hbase, ⟨⟩⟩ := hss
    replace hbase := hbase.imp_left (·.eq_of_ne (by simp [type]))
    rcases hs with rfl | ⟨rfl, rfl, -⟩ <;> rcases hbase with rfl | rfl
    · exact ⟨.complex, rfl, .inl hw⟩
    · exact ⟨.complex, rfl, .inl hw⟩
    · exact ⟨.number, rfl, .inr ⟨rfl, rfl, hw⟩⟩
    · exact ⟨.number, rfl, .inr ⟨rfl, rfl, hw⟩⟩

/-- **A built-in function takes the arguments of its table**, and the result has the type of the
table up to the excuse of the call. -/
theorem callWith_fits (hlen : f.arity.accepts (vs.length + 1))
    (h : callWith f v (v :: vs) = .ok w) :
    ∃ t, Typing.builtin f (s :: ss) = .ok t ∧ Fits (callExcuse p f v) t w.type := by
  cases f with
  | arcsin | arccos | arctan | arccot | arcsec | arccsc | arsinh | arcosh | artanh | arcoth
  | arsech | arcsch | sign =>
    obtain ⟨hv, hw⟩ := ofReal_type h
    exact fits_of_single hs hss _ hlen (by simp) hv rfl (.inl hw)
  | sin | cos | tan | cot | sec | csc | sinh | cosh | tanh | coth | sech | csch =>
    simp only [callWith] at h
    rcases trigonometric_type h with ⟨hv, hw⟩ | ⟨hv, hw⟩ | ⟨hv, hw⟩
    · exact fits_of_single hs hss _ hlen (by simp) hv rfl (.inl hw)
    · exact fits_of_single hs hss _ hlen (by simp) hv rfl (.inl hw)
    · exact fits_of_complex hs hss hlen hv rfl rfl (.inr rfl) hw
  | exp | conjugate | reciprocal =>
    rcases ofComplex_type h with ⟨hv, hw⟩ | ⟨hv, hw⟩
    · exact fits_of_single hs hss _ hlen (by simp) hv rfl (.inl hw)
    · exact fits_of_complex hs hss hlen hv rfl rfl (.inr rfl) hw
  | ln | lg | lb =>
    rcases logarithm_type h with ⟨hv, hw⟩ | ⟨hv, hw⟩
    · exact fits_of_single hs hss _ hlen (by simp) hv rfl hw
    · exact fits_of_complex hs hss hlen hv rfl rfl (.inr rfl) hw
  | sqrt =>
    rcases squareRoot_type h with ⟨hv, hw⟩ | ⟨hv, hw⟩
    · exact fits_of_single hs hss _ hlen (by simp) hv rfl hw
    · exact fits_of_complex hs hss hlen hv rfl rfl (.inr rfl) hw
  | floor | ceil | trunc | frac =>
    rcases ofAngle_type h with ⟨hv, hw⟩ | ⟨hv, hw⟩ <;>
      exact fits_of_single hs hss _ hlen (by simp) hv rfl (.inl hw)
  | re | im | phase =>
    obtain ⟨hv | hv, hw⟩ := partOf_type h
    · exact fits_of_single hs hss _ hlen (by simp) hv rfl (.inl hw)
    · exact fits_of_complex hs hss hlen hv rfl rfl (.inl rfl) hw
  | toDegree | toRadian | toGradian =>
    obtain ⟨hv, hw⟩ := inUnit_type h
    exact fits_of_single hs hss _ hlen (by simp) hv rfl (.inl hw)
  | toBinary | toOctal | toHex =>
    obtain ⟨hv, hw⟩ := inBase_type h
    exact fits_of_single hs hss _ hlen (by simp) hv rfl (.inl hw)
  | abs =>
    rcases absolute_type h with ⟨hv, hw⟩ | ⟨hv, hw⟩ | ⟨hv | hv, hw⟩
    · exact fits_of_complex hs hss hlen hv rfl rfl (.inl rfl) hw
    · exact fits_of_single hs hss _ hlen (by simp) hv rfl (.inl hw)
    · exact fits_of_single hs hss _ hlen (by simp) hv rfl (.inl hw)
    · exact fits_of_single hs hss _ hlen (by simp) hv rfl (.inl hw)
  | toNumber =>
    obtain ⟨hv | hv, hw⟩ := toNumber_type h <;>
      exact fits_of_single hs hss _ hlen (by simp) hv rfl (.inl hw)
  | transpose =>
    obtain ⟨hv | hv, hw⟩ := transposed_type h <;>
      exact fits_of_single hs hss _ hlen (by simp) hv rfl (.inl hw)
  | determinant | inverse =>
    obtain ⟨rows, hrows, h⟩ := Result.bind_ok h
    obtain ⟨result, -, h⟩ := Result.bind_ok h
    cases h
    exact fits_of_single hs hss _ hlen (by simp) (asMatrix_type hrows) rfl .refl
  | root =>
    obtain ⟨a, ha, h⟩ := Result.bind_ok h
    obtain ⟨degree, hdegree, h⟩ := Result.bind_ok h
    cases h
    obtain rfl := asNumber_type ha
    obtain rfl := secondNumber_type hlen hdegree
    exact fits_of_uniform hs hss .number (by simp) rfl (by simp [type])
      (allowing_same (by simp)) (root_type a degree)
  | round =>
    obtain ⟨hv, hvs, hw⟩ := round_type hlen h
    exact fits_of_uniform hs hss _ (by simp) hv hvs (allowing_same (by simp)) (.inl hw)
  | max | min | average | sum | product =>
    obtain ⟨hvector | hall, hw⟩ := statistic_type h
    · obtain ⟨hv, hvs⟩ := List.cons_eq_cons.1 hvector
      obtain rfl := List.map_eq_nil_iff.1 hvs
      exact fits_of_single hs hss _ rfl (by simp) hv rfl (.inl hw)
    · obtain ⟨hv, hvs⟩ := List.forall_mem_cons.1 hall
      exact fits_of_uniform hs hss _ (by simp) hv hvs (allowing_same (by simp)) (.inl hw)
  | gcd | lcm =>
    obtain ⟨hall, hw⟩ := foldIntegers_type h
    obtain ⟨hv, hvs⟩ := List.forall_mem_cons.1 hall
    exact fits_of_uniform hs hss _ (by simp) hv hvs (allowing_same (by simp)) (.inl hw)
  | dotProduct | crossProduct =>
    obtain ⟨a, ha, rfl⟩ := Result.map_ok h
    obtain ⟨hv, hvs⟩ := ofTwoVectors_type ha
    exact fits_of_uniform hs hss _ (by simp) hv hvs (allowing_same (by simp)) .refl
  | log => exact fits_of_log hs hss hlen h
  | derivative | simplify => cases h

end

end Value

/-! ## Results are no trees

Only the symbolic functions make trees. Every other operation gives a value of another type. -/

namespace Typing

/-- The table of the unary operators lists no trees. -/
theorem unary?_ne_function {op : UnaryOp} {t r : ValueType} (h : unary? op t = some r) :
    r ≠ .function := by
  cases op <;> cases t <;> cases h <;> nofun

/-- The table of the arithmetic operators lists no trees. -/
theorem arithmetic?_ne_function {op : BinaryOp} {s t r : ValueType}
    (h : arithmetic? op s t = some r) : r ≠ .function := by
  unfold arithmetic? at h
  repeat' split at h
  all_goals cases h <;> nofun

/-- The table of the binary operators lists no trees. -/
theorem binary?_ne_function {op : BinaryOp} {s t r : ValueType} (h : binary? op s t = some r) :
    r ≠ .function := by
  cases op with
  | add | sub | mul | div | mod | pow => exact arithmetic?_ne_function h
  | and | or | xor | nand | nor =>
    dsimp only [binary?] at h
    split at h
    · next ht => cases h; rintro rfl; simp at ht
    · cases h
  | _ =>
    dsimp only [binary?] at h
    split at h <;> cases h
    nofun

/-- Allowed arguments have the given result. -/
theorem eq_of_allowing {allowed arguments : List ValueType} {t r : ValueType}
    (h : allowing allowed t arguments = .ok r) : r = t := by
  unfold allowing at h
  split at h <;> cases h
  rfl

/-- The table of the built-in functions lists matrices, vectors and trees for few functions. -/
theorem builtin_result {f : Builtin} {ts : List ValueType} {r : ValueType}
    (h : builtin f ts = .ok r) :
    r ∈ [.number, .complex, .angle, .string] ∨ f ∈ [.transpose, .inverse] ∧ r = .matrix ∨
      f = .crossProduct ∧ r = .vector ∨ f.isSymbolic = true ∧ r = .function := by
  cases f with
  | derivative | simplify =>
    cases h
    exact .inr (.inr (.inr ⟨rfl, rfl⟩))
  | transpose | inverse => exact .inr (.inl ⟨by simp, eq_of_allowing h⟩)
  | crossProduct => exact .inr (.inr (.inl ⟨rfl, eq_of_allowing h⟩))
  | abs | sin | cos | tan | cot | sec | csc | sinh | cosh | tanh | coth | sech | csch | floor
  | ceil | trunc | frac =>
    left
    dsimp only [builtin] at h
    split at h <;> cases h <;> simp
  | sqrt | exp | ln | lg | lb | log | conjugate | reciprocal | re | im | phase =>
    left
    have ht := eq_of_allowing h
    split at ht <;> simp [ht]
  | max | min | average | sum | product =>
    left
    dsimp only [builtin] at h
    split at h
    · cases h
      simp
    · simp [eq_of_allowing h]
  | _ =>
    left
    simp [eq_of_allowing h]

/-- The table of the built-in functions lists trees for the symbolic functions alone. -/
theorem builtin_ne_function {f : Builtin} (hf : f.isSymbolic = false) {ts : List ValueType}
    {r : ValueType} (h : builtin f ts = .ok r) : r ≠ .function := by
  rintro rfl
  rcases builtin_result h with hmem | ⟨-, ⟨⟩⟩ | ⟨-, ⟨⟩⟩ | ⟨hsymbolic, -⟩
  · simp at hmem
  · exact Bool.noConfusion (hf.symm.trans hsymbolic)

/-- Where the table lists no tree, an excused result is none either. -/
theorem Fits.ne_function {excuse : Bool} {t actual : ValueType} (h : Fits excuse t actual)
    (ht : t ≠ .function) : actual ≠ .function := by
  rcases h with rfl | ⟨-, -, rfl⟩
  · exact ht
  · nofun

end Typing

namespace Value

open Typing

variable {K : Type} [Scalar K] {v w u : Value K}

/-- A unary operator makes no tree. -/
theorem applyUnary_ne_function {op : UnaryOp} (h : v.applyUnary op = .ok w) :
    w.type ≠ .function := unary?_ne_function (applyUnary_type h)

/-- A binary operator makes no tree. -/
theorem applyBinary_ne_function {op : BinaryOp} (h : v.applyBinary op u = .ok w) :
    w.type ≠ .function := by
  obtain ⟨t, ht, hfits⟩ := applyBinary_type h
  exact hfits.ne_function (binary?_ne_function ht)

/-- A built-in function on values of known types has its result in the table, up to complex numbers
where the table says number. -/
theorem applyBuiltin_fits {f : Builtin} {vs : List (Value K)} (hlen : f.arity.accepts vs.length)
    (h : applyBuiltin f vs = .ok w) :
    ∃ t, Typing.builtin f (vs.map type) = .ok t ∧ Fits true t w.type := by
  cases vs with
  | nil => cases h
  | cons v vs =>
    have hvs : List.Forall₂ (Substitutes false v.type) (vs.map type) (vs.map type) :=
      List.forall₂_same.2 fun _ _ => .inl .refl
    obtain ⟨t, ht, hfits⟩ := callWith_fits (p := false) .refl hvs hlen h
    exact ⟨t, ht, hfits.mono fun _ => rfl⟩

/-- A built-in function on values makes no tree. -/
theorem applyBuiltin_ne_function {f : Builtin} {vs : List (Value K)} (hf : f.isSymbolic = false)
    (hlen : f.arity.accepts vs.length) (h : applyBuiltin f vs = .ok w) : w.type ≠ .function := by
  obtain ⟨t, ht, hfits⟩ := applyBuiltin_fits hlen h
  exact hfits.ne_function (builtin_ne_function hf ht)

/-- A built-in function of one number makes no truth value. -/
theorem applyBuiltin_ne_bool {f : Builtin} {a : K} {b : Bool} :
    applyBuiltin f [number a] ≠ .ok (bool b) := by
  intro h
  cases f with
  | sqrt | ln | lg | lb =>
    dsimp only [applyBuiltin, callWith, squareRoot, logarithm] at h
    split at h <;> cases h
  | gcd | lcm => cases (foldIntegers_type h).2
  | toBinary | toOctal | toHex => cases (inBase_type h).2
  | _ => cases h

end Value

end Formula

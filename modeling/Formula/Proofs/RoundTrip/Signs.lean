import Formula.Proofs.Parse.Grammatical
import Formula.Proofs.RoundTrip.Tokens

/-!
# Literals that hide a sign

The lexer reads no sign, and the grammar makes a prefixed operator of every minus but that of a
phase. So the magnitude of a complex number that was read, and the value of an angle, never has a
minus sign: `hidesSign_of_parse`. A tree in which one has, be it that of a negative zero, is read
back from no text.
-/

namespace Formula

variable {K : Type} [Scalar K]

namespace Expr

/-! ## Trees -/

/-- A list hides no sign if none of its trees does. -/
theorem hideSign_eq_false {as : List (Expr K)} (h : ∀ a ∈ as, a.hidesSign = false) :
    hideSign as = false := by
  induction as with
  | nil => rfl
  | cons a as ih =>
    rw [hideSign, h a (.head _), ih fun b hb => h b (.tail _ hb)]
    rfl

/-- Rows hide no sign if none of their trees does. -/
theorem rowsHideSign_eq_false {rows : List (List (Expr K))}
    (h : ∀ row ∈ rows, ∀ a ∈ row, a.hidesSign = false) : rowsHideSign rows = false := by
  induction rows with
  | nil => rfl
  | cons row rows ih =>
    rw [rowsHideSign, hideSign_eq_false (h row (.head _)), ih fun r hr => h r (.tail _ hr)]
    rfl

mutual

/-- Reading a number with a sign as an operator hides no sign and shows none. -/
theorem hidesSign_normal : ∀ e : Expr K, e.normal.hidesSign = e.hidesSign
  | .number value => by
    rw [normal]
    split <;> rfl
  | .unary op a => by rw [normal, hidesSign, hidesSign, hidesSign_normal a]
  | .binary op a b => by rw [normal, hidesSign, hidesSign, hidesSign_normal a, hidesSign_normal b]
  | .builtin f as => by rw [normal, hidesSign, hidesSign, hideSign_normals as]
  | .call name as => by rw [normal, hidesSign, hidesSign, hideSign_normals as]
  | .ifThenElse c a b => by
    rw [normal, hidesSign, hidesSign, hidesSign_normal c, hidesSign_normal a, hidesSign_normal b]
  | .assign op name value => by rw [normal, hidesSign, hidesSign, hidesSign_normal value]
  | .bool _ | .polar _ _ | .string _ | .angle _ | .var _ | .vector _ | .matrix _ | .ifThen _ _
  | .forLoop _ _ _ _ | .whileLoop _ _ | .define _ _ | .undefine _ | .step _ _ => rfl

/-- The same for the trees of a list. -/
theorem hideSign_normals : ∀ as : List (Expr K), hideSign (normals as) = hideSign as
  | [] => rfl
  | a :: as => by rw [normals, hideSign, hideSign, hidesSign_normal a, hideSign_normals as]

end

end Expr

/-! ## Trees that were read -/

/-- A tree built from tokens without signs hides none. -/
theorem Grammatical.hidesSign {s : Bool} {e : Expr K}
    (h : Grammatical Token.IsLexed s e) : e.hidesSign = false := by
  induction h with
  | number | bool | string | var | step => rfl
  | angle unit hx => exact hx
  | polar negative hmagnitude => exact hmagnitude
  | unary op _ ih => exact ih
  | assign op _ _ ih => exact ih
  | undefine _ _ ih => exact ih
  | binary op _ _ iha ihb => rw [Expr.hidesSign, iha, ihb]; rfl
  | builtin _ _ ih => exact Expr.hideSign_eq_false ih
  | call _ _ _ ih => exact Expr.hideSign_eq_false ih
  | vector _ ih => exact Expr.hideSign_eq_false ih
  | matrix _ _ ih => exact Expr.rowsHideSign_eq_false ih
  | ifThenElse _ _ _ ihc iha ihb => rw [Expr.hidesSign, ihc, iha, ihb]; rfl
  | ifThen _ _ ihc iha => rw [Expr.hidesSign, ihc, iha]; rfl
  | forLoop _ _ _ _ ihbody ihinit ihc ihiteration =>
    rw [Expr.hidesSign, ihbody, ihinit, ihc, ihiteration]
    rfl
  | whileLoop _ _ ihbody ihc => rw [Expr.hidesSign, ihbody, ihc]; rfl
  | define _ _ _ ihkey ihvalue => rw [Expr.hidesSign, ihkey, ihvalue]; rfl

/-- **No tree that was read hides a sign.** -/
theorem hidesSign_of_parse [Scalar.LawfulText K] {source : String} {maxDepth? : Option Nat}
    {e : Expr K} (h : parseWithin maxDepth? source = .ok e) : e.hidesSign = false :=
  (grammatical_of_parse h).hidesSign

end Formula

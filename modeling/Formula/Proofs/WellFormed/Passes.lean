import Formula.Binary64.Scalar
import Formula.Proofs.Parse.Grammatical
import Formula.Proofs.WellFormed

/-!
# Well-formed trees in every pass

The reader builds well-formed trees, since the grammar goes through the constructors that check.
Every pass over a tree keeps it well formed: both simplifications, derivatives by any variable and
copies with other children.
-/

namespace Formula

open Formula.Expr

variable {K : Type} [Scalar K] {e : Expr K}

/-- The grammar builds nodes as the constructors do. -/
theorem Grammatical.wellFormed {good : Token K → Prop} {statement : Bool}
    (h : Grammatical good statement e) : e.WellFormed := by
  refine h.everywhere.imp fun e he => ?_
  cases he with
  | builtin harity _ => exact harity
  | vector _ => exact List.cons_ne_nil _ _
  | matrix hrows _ => exact (mkMatrix_eq_ok.1 hrows).2
  | define hkey _ _ => exact checkKey_eq_ok.1 hkey
  | undefine hkey _ => exact checkKey_eq_ok.1 hkey
  | _ => trivial

/-- What is read from a text is well formed. -/
theorem wellFormed_of_parseWithin {source : String} {maxDepth? : Option Nat}
    (h : parseWithin maxDepth? source = .ok e) : e.WellFormed := by
  unfold parseWithin at h
  split at h
  · cases h
  · obtain ⟨tokens, -, h⟩ := Result.bind_ok h
    have hgrammatical : Grammatical (fun _ => True) true e :=
      parseTokens_grammatical (fun _ _ => trivial) h
    exact hgrammatical.wellFormed

/-- **Every tree that is read is well formed, and every pass keeps it so**: both simplifications,
the derivatives by all variables, and the copies in which some children are replaced. -/
theorem Expr.wellFormed_passes :
    (∀ (maxDepth? : Option Nat) (source : String) (e : Expr K),
      parseWithin maxDepth? source = .ok e → e.WellFormed) ∧
    ∀ e : Expr K, e.WellFormed →
      e.simplify.WellFormed ∧ e.simplifyReal.WellFormed ∧
      (∀ x d, e.derivative x = .ok d → d.WellFormed) ∧
      ∀ replacements, (∀ new, some new ∈ replacements → new.WellFormed) →
        ∀ e', e.withChildren replacements = .ok e' → e'.WellFormed := by
  constructor
  · intro maxDepth? source e h
    exact wellFormed_of_parseWithin h
  · intro e he
    refine ⟨he.simplifyWith, he.simplifyWith, fun x d hd => he.derivative hd, ?_⟩
    intro replacements hreplacements e' h
    exact he.withChildren hreplacements h

/-- A product that is read, differentiated and given another factor. -/
theorem Expr.wellFormed_passes_logarithm :
    let new : Expr Binary64 := .vector [.var "y"]
    new.WellFormed ∧ ∃ e, parseWithin (some 10) "x * log(x, b)" = .ok e ∧ e.WellFormed ∧
      (∃ d, e.derivative "x" = .ok d ∧ d.WellFormed) ∧
        ∃ e', e.withChildren [none, some new] = .ok e' ∧ e'.WellFormed := by
  intro new
  have hnew : new.WellFormed :=
    .node (List.cons_ne_nil _ _) (List.forall_mem_singleton.2 (.node trivial nofun))
  have hdone : ((parseWithin (some 10) "x * log(x, b)").toOption.any fun e : Expr Binary64 =>
      (e.derivative "x").isOk && (e.withChildren [none, some new]).isOk) = true := by
    decide +kernel
  obtain ⟨hread, hpasses⟩ := Expr.wellFormed_passes (K := Binary64)
  cases hparse : (parseWithin (some 10) "x * log(x, b)" : Except _ (Expr Binary64)) with
  | error cause =>
    rw [hparse] at hdone
    cases hdone
  | ok e =>
    rw [hparse] at hdone
    obtain ⟨hd, he'⟩ := Bool.and_eq_true_iff.1 hdone
    have he : e.WellFormed := hread _ _ e hparse
    obtain ⟨-, -, hderivative, hcopy⟩ := hpasses e he
    have hnone : ∀ new', some new' ∈ [none, some new] → new'.WellFormed := by
      simp [hnew]
    refine ⟨hnew, e, rfl, he, ?_, ?_⟩
    · cases h : e.derivative "x" with
      | error => rw [h] at hd; cases hd
      | ok d => exact ⟨d, rfl, hderivative "x" d h⟩
    · cases h : e.withChildren [none, some new] with
      | error => rw [h] at he'; cases he'
      | ok e' => exact ⟨e', rfl, hcopy _ hnone e' h⟩

end Formula

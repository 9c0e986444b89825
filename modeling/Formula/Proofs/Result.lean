import Mathlib.Data.List.Basic

/-!
# Results of sequences

A sequence of computations that may fail has a result only through results of its parts. Two
results can be compared by what they are results of: `Result.Rel R` says that they fail alike, or
that their values are related.
-/

namespace Formula.Result

variable {ε α β : Type}

/-- A result of a sequence comes from a result of its first part. -/
theorem bind_ok {x : Except ε α} {f : α → Except ε β} {b : β} (h : x >>= f = .ok b) :
    ∃ a, x = .ok a ∧ f a = .ok b := by
  cases x with
  | error e => cases h
  | ok a => exact ⟨a, rfl, h⟩

/-- A sequence fails in its first part, or in what follows a result of it. -/
theorem bind_eq_error {x : Except ε α} {f : α → Except ε β} {e : ε} (h : x >>= f = .error e) :
    x = .error e ∨ ∃ a, x = .ok a ∧ f a = .error e := by
  cases x with
  | error e => cases h; exact .inl rfl
  | ok a => exact .inr ⟨a, rfl, h⟩

/-- A changed result comes from a result. -/
theorem map_ok {x : Except ε α} {f : α → β} {b : β} (h : f <$> x = .ok b) :
    ∃ a, x = .ok a ∧ f a = b := by
  cases x with
  | error e => cases h
  | ok a => cases h; exact ⟨a, rfl, rfl⟩

/-- A result that is there. -/
theorem ok_of_toOption {x : Except ε α} {a : α} (h : x.toOption = some a) : x = .ok a := by
  cases x <;> cases h
  rfl

/-- A result that is there and passes a test. -/
theorem ok_of_toOption_any {x : Except ε α} {test : α → Bool} (h : x.toOption.any test = true) :
    ∃ a, x = .ok a ∧ test a = true := by
  obtain ⟨a, ha, htest⟩ := (Option.any_eq_true _ _).1 h
  exact ⟨a, ok_of_toOption ha, htest⟩

/-- Where every element of a list is changed, each has a result. -/
theorem mapM_ok {f : α → Except ε β} :
    ∀ {as : List α} {bs : List β}, as.mapM f = .ok bs → ∀ a ∈ as, ∃ b, f a = .ok b
  | [], _, _ => nofun
  | a :: as, bs, h => by
    rw [List.mapM_cons] at h
    obtain ⟨b, hb, h⟩ := bind_ok h
    obtain ⟨rest, hrest, -⟩ := bind_ok h
    exact List.forall_mem_cons.2 ⟨⟨b, hb⟩, mapM_ok hrest⟩

/-- Where every element of a list is changed, there are as many results. -/
theorem mapM_length {f : α → Except ε β} :
    ∀ {as : List α} {bs : List β}, as.mapM f = .ok bs → bs.length = as.length
  | [], _, h => by
    cases h
    rfl
  | a :: as, bs, h => by
    rw [List.mapM_cons] at h
    obtain ⟨b, -, h⟩ := bind_ok h
    obtain ⟨rest, hrest, h⟩ := bind_ok h
    cases h
    exact congrArg Nat.succ (mapM_length hrest)

/-- Where every element of a list has a result, so has the list. -/
theorem mapM_eq_ok_map {f : α → Except ε β} {g : α → β} {as : List α}
    (h : ∀ a ∈ as, f a = .ok (g a)) : as.mapM f = .ok (as.map g) := by
  induction as with
  | nil => rfl
  | cons a as ih =>
    obtain ⟨ha, has⟩ := List.forall_mem_cons.1 h
    rw [List.mapM_cons, ha, ih has]
    rfl

/-- The same failure, or related values. -/
inductive Rel (R : α → β → Prop) : Except ε α → Except ε β → Prop
  | ok {a : α} {b : β} : R a b → Rel R (.ok a) (.ok b)
  | error (e : ε) : Rel R (.error e) (.error e)

/-- A result is related to itself. -/
theorem Rel.refl (x : Except ε α) : Rel Eq x x := by
  cases x with
  | ok a => exact .ok rfl
  | error e => exact .error e

/-- Where related values are the same, so are the results. -/
theorem Rel.eq {x y : Except ε α} (h : Rel Eq x y) : y = x := by
  cases h with
  | ok h => rw [h]
  | error => rfl

/-- Related results fail alike. -/
theorem Rel.error_iff {R : α → β → Prop} {x : Except ε α} {y : Except ε β} (h : Rel R x y)
    {e : ε} : x = .error e ↔ y = .error e := by
  cases h <;> simp

end Formula.Result

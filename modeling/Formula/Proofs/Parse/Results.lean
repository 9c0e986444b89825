import Formula.Proofs.Parse.Movement

/-!
# What parsers give

`Gives good p P` says that every result of the parser `p` meets the condition `P`, on every reader
whose tokens are `good`. There is one rule for each way to build a parser.
-/

namespace Formula.Parser

variable {K α β : Type} {good : Token K → Prop} {p : Parser K α} {f : α → Parser K β}
  {P : α → Prop} {Q : β → Prop}

/-- On good tokens every result of the parser meets the condition, and the tokens stay. -/
def Gives (good : Token K → Prop) (p : Parser K α) (P : α → Prop) : Prop :=
  ∀ r : Reader K, (∀ t ∈ r.tokens, good t.1) → ∀ a after, p.run r = (.ok a, after) →
    P a ∧ after.tokens = r.tokens

/-- A condition may be weakened. -/
theorem Gives.mono {P' : α → Prop} (hp : p.Gives good P) (h : ∀ a, P a → P' a) : p.Gives good P' :=
  fun r hr a after hrun => ⟨h a (hp r hr a after hrun).1, (hp r hr a after hrun).2⟩

theorem Gives.pure {a : α} (h : P a) : (pure a : Parser K α).Gives good P := by
  intro r _ a' after hrun
  cases hrun
  exact ⟨h, rfl⟩

/-- Nothing found. -/
theorem Gives.nothing {P : α → Prop} :
    (Pure.pure none : Parser K (Option α)).Gives good fun found => ∀ a, found = some a → P a :=
  .pure nofun

/-- Something found. -/
theorem Gives.found {P : α → Prop} {a : α} (h : P a) :
    (Pure.pure (some a) : Parser K (Option α)).Gives good fun found => ∀ a, found = some a → P a :=
  .pure fun a' ha => by cases ha; exact h

theorem Gives.failHere (error : Nat → ParseError) : (failHere error : Parser K α).Gives good P := by
  intro r _ a after hrun
  cases hrun

/-- A sequence gives what its second part gives behind a result of its first. -/
theorem Gives.bind (hp : p.Gives good P) (hf : ∀ a, P a → (f a).Gives good Q) :
    (p >>= f).Gives good Q := by
  intro r hr b after hrun
  rcases hfirst : p.run r with ⟨e | a, mid⟩
  · rw [run_bind_error hfirst] at hrun
    cases hrun
  · rw [run_bind_ok hfirst] at hrun
    obtain ⟨ha, hmid⟩ := hp r hr a mid hfirst
    obtain ⟨hb, hafter⟩ := hf a ha mid (hmid ▸ hr) b after hrun
    exact ⟨hb, hafter.trans hmid⟩

/-- A result that tells nothing. -/
theorem Gives.skip (hp : p.Gives good P) (hf : ∀ a, (f a).Gives good Q) : (p >>= f).Gives good Q :=
  hp.bind fun a _ => hf a

/-- A token that gives what is looked for is a good one. -/
theorem Gives.take? (find? : Token K → Option α) :
    (take? find?).Gives good fun found => ∀ a, found = some a → ∃ t, good t ∧ find? t = some a := by
  intro r hr found after hrun
  have hrun : (Except.ok (r.take? find?).1, (r.take? find?).2) = (.ok found, after) := hrun
  unfold Reader.take? at hrun
  cases h : r.peek?.bind find? with
  | none =>
    rw [h] at hrun
    cases hrun
    exact ⟨nofun, rfl⟩
  | some a =>
    rw [h] at hrun
    cases hrun
    refine ⟨fun a' ha' => ?_, rfl⟩
    cases ha'
    obtain ⟨t, ht, hfind⟩ := Option.bind_eq_some_iff.1 h
    obtain ⟨located, hlocated, rfl⟩ := Option.map_eq_some_iff.1 ht
    exact ⟨_, hr _ (Array.mem_of_getElem? hlocated), hfind⟩

/-- Tests tell nothing. -/
theorem Gives.accept (test : Token K → Bool) : (accept test).Gives good fun _ => True :=
  .bind (.take? _) fun _ _ => .pure trivial

/-- A look at the reader. -/
theorem Gives.inspect {f : Reader K → Parser K β} (hf : ∀ r, (f r).Gives good Q) :
    (do f (← get)).Gives good Q := by
  refine Gives.bind (P := fun _ => True) ?_ fun r _ => hf r
  intro r _ a after hrun
  cases hrun
  exact ⟨trivial, rfl⟩

theorem Gives.remaining : (remaining : Parser K Nat).Gives good fun _ => True :=
  .inspect fun _ => .pure trivial

/-- An expected symbol. -/
theorem Gives.expect (s : Symbol) (error : Nat → ParseError) :
    (expect s error : Parser K Unit).Gives good fun _ => True := by
  refine .bind (.accept _) fun found _ => ?_
  cases found with
  | false => exact .failHere error
  | true => exact .pure trivial

/-- A required result. -/
theorem Gives.require {p : Parser K (Option α)} {error : Nat → ParseError}
    (hp : p.Gives good fun found => ∀ a, found = some a → P a) :
    (require error p).Gives good P := by
  refine .bind hp fun found hfound => ?_
  cases found with
  | none => exact .failHere error
  | some a => exact .pure (hfound a rfl)

/-- The first of several results. -/
theorem Gives.firstOf : ∀ {ps : List (Parser K (Option α))},
    (∀ p ∈ ps, p.Gives good fun found => ∀ a, found = some a → P a) →
      (firstOf ps).Gives good fun found => ∀ a, found = some a → P a
  | [], _ => .nothing
  | p :: ps, h => by
    refine .bind (h p (.head _)) fun found hfound => ?_
    cases found with
    | none => exact Gives.firstOf fun q hq => h q (.tail _ hq)
    | some a => exact .pure hfound

/-- A checkpoint changes no result. -/
theorem Gives.speculate {p : Parser K (Option α)} {P : Option α → Prop} (hp : p.Gives good P) :
    (speculate p).Gives good P := by
  intro r hr found after hrun
  rcases hinner : p.run r.mark.2 with ⟨e | _ | a, s⟩
  · rw [run_speculate_error hinner] at hrun
    cases hrun
  · have h := hp r.mark.2 hr _ _ hinner
    rw [run_speculate_none hinner] at hrun
    cases hrun
    exact ⟨h.1, h.2⟩
  · have h := hp r.mark.2 hr _ _ hinner
    rw [run_speculate_some hinner] at hrun
    cases hrun
    exact ⟨h.1, h.2⟩

/-- A level of nesting changes no result. -/
theorem Gives.nested (hp : p.Gives good P) : (nested p).Gives good P := by
  intro r hr a after hrun
  cases hdescend : r.descend? with
  | none =>
    rw [run_nested_error hdescend] at hrun
    cases hrun
  | some inner =>
    have htokens : inner.tokens = r.tokens := by
      unfold Reader.descend? at hdescend
      split at hdescend
      · cases hdescend
        rfl
      · cases hdescend
    rw [run_nested hdescend] at hrun
    rcases hinner : p.run inner with ⟨e | a', s⟩
    · rw [hinner] at hrun
      cases hrun
    · obtain ⟨ha, hs⟩ := hp inner (htokens ▸ hr) _ _ hinner
      rw [hinner] at hrun
      cases hrun
      exact ⟨ha, hs.trans htokens⟩

/-- A list of items. -/
theorem Gives.moreItems {item : Parser K α} (hitem : item.Gives good P) :
    ∀ count, (moreItems item count).Gives good fun found => ∀ a ∈ found, P a
  | 0 => .pure nofun
  | count + 1 => by
    refine .bind (.accept _) fun comma _ => ?_
    cases comma with
    | false => exact .pure nofun
    | true =>
      refine .bind hitem fun a ha => .bind (Gives.moreItems hitem count) fun more hmore => .pure ?_
      exact List.forall_mem_cons.2 ⟨ha, hmore⟩

/-- What can be built. -/
theorem Gives.build (e : Except BuildError α) :
    (build e : Parser K α).Gives good fun a => e = .ok a := by
  cases e with
  | ok a => exact .pure rfl
  | error cause => exact .failHere _

end Formula.Parser

import Formula.Proofs.Parse.Congruence
import Formula.Proofs.Parse.Movement

/-!
# Two runs of one grammar

`TracksAt low high levels r p q` compares a run of `p` within the limit `low` on nesting with one of
`q` within the limit `high`, both from the reader `r`: they end alike, or the first one ends at its
limit. Every way to build a parser keeps this, because nothing takes up a parser that failed.

`Tracks` asks for it on the readers with few enough tokens left. A token that was consumed leaves
room for two levels of nesting more (`Tracks.bind_decisive`), so two grammars need to agree on their
nested constructs only as deep as the tokens reach.
-/

namespace Formula

/-! ## Limits of a reader -/

namespace Reader

variable {K : Type} {r s : Reader K}

/-- The reader with another limit on nesting. -/
def within (r : Reader K) (limit? : Option Nat) : Reader K := { r with maxDepth? := limit? }

/-- A movement consumes tokens, if anything. -/
theorem Moves.remaining_le (h : r.Moves s) : s.remaining ≤ r.remaining := by
  obtain ⟨n, -, rfl⟩ := h
  rw [skip_remaining]
  exact Nat.sub_le _ _

/-- An advance consumes a token. -/
theorem Advances.remaining_lt (h : r.Advances s) : s.remaining < r.remaining := by
  obtain ⟨n, hn, hpos, rfl⟩ := h
  rw [skip_remaining]
  omega

end Reader

/-! ## Runs within two limits -/

/-- The limit `low` is `high`, or it is a stricter one. -/
def Limits (low high : Option Nat) : Prop := low = high ∨ ∃ m, low = some m ∧ high.all (m ≤ ·) = true

namespace Parser

open Verdict (found)

variable {K α β : Type} {low high : Option Nat} {levels : Nat} {r : Reader K}

/-! ### Runs from one reader -/

/-- From the reader on, `p` ends within the limit `low` as `q` does within `high`, and not at a
limit if these are different, or it ends at `low`, which is then a limit below `levels`. -/
inductive TracksAt (low high : Option Nat) (levels : Nat) (r : Reader K) (p q : Parser K α) : Prop
  | same (result : Except ParseError α) (after : Reader K) :
    (low ≠ high → ∀ e, result = .error e → e.isNesting = false) →
    p.run (r.within low) = (result, after.within low) →
    q.run (r.within high) = (result, after.within high) → TracksAt low high levels r p q
  | limit {m : Nat} (position : Nat) (after : Reader K) : low ≠ high → low = some m → m < levels →
    p.run (r.within low) = (.error (.nestingTooDeep m position), after) →
    TracksAt low high levels r p q

section Sequences

variable {p q : Parser K α} {f g : α → Parser K β}

/-- Two results without reading. -/
theorem TracksAt.pure (a : α) : TracksAt low high levels r (pure a) (pure a) :=
  .same (.ok a) r nofun rfl rfl

/-- An error at the next token. -/
theorem TracksAt.failHere (error : Nat → ParseError) [Syntactic error] :
    TracksAt low high levels r (failHere error : Parser K α) (failHere error) := by
  refine .same (.error (error r.offset)) r (fun _ e he => ?_) rfl rfl
  cases he
  exact Syntactic.isNesting _

/-- A token that is consumed or not. -/
theorem TracksAt.take? (find? : Token K → Option α) :
    TracksAt low high levels r (take? find?) (take? find?) := by
  have hrun (limit? : Option Nat) : (Parser.take? find?).run (r.within limit?) =
      (.ok (r.take? find?).1, (r.take? find?).2.within limit?) := by
    have hpeek : (r.within limit?).peek? = r.peek? := rfl
    show (Except.ok ((r.within limit?).take? find?).1, ((r.within limit?).take? find?).2) = _
    rw [Reader.take?, Reader.take?, hpeek]
    cases r.peek?.bind find? <;> rfl
  exact .same (.ok _) _ nofun (hrun low) (hrun high)

/-- Sequences go on where their first parts ended alike. -/
theorem TracksAt.bind (hp : TracksAt low high levels r p q)
    (hf : ∀ a s, p.run (r.within low) = (.ok a, s.within low) →
      TracksAt low high levels s (f a) (g a)) :
    TracksAt low high levels r (p >>= f) (q >>= g) := by
  cases hp with
  | limit position s hne hm hlt hp => exact .limit position s hne hm hlt (run_bind_error hp)
  | same result s hsyntax hp hq =>
    cases result with
    | error e =>
      refine .same (.error e) s (fun hne e' he => ?_) (run_bind_error hp) (run_bind_error hq)
      cases he
      exact hsyntax hne e rfl
    | ok a =>
      cases hf a s hp with
      | same result after hsyntax hfa hga =>
        exact .same result after hsyntax ((run_bind_ok hp).trans hfa) ((run_bind_ok hq).trans hga)
      | limit position after hne hm hlt hfa =>
        exact .limit position after hne hm hlt ((run_bind_ok hp).trans hfa)

/-- Behind a token that gives what is looked for. -/
theorem TracksAt.bind_take? {find? : Token K → Option α} {f g : Option α → Parser K β} {a : α}
    (ha : r.peek?.bind find? = some a)
    (hf : ∀ s : Reader K, s.remaining < r.remaining → s.depth = r.depth →
      TracksAt low high levels s (f (some a)) (g (some a))) :
    TracksAt low high levels r (Parser.take? find? >>= f) (Parser.take? find? >>= g) := by
  have hrun (limit? : Option Nat) : (Parser.take? find?).run (r.within limit?) =
      (.ok (some a), (r.skip 1).within limit?) := by
    have hpeek : (r.within limit?).peek?.bind find? = some a := ha
    show (Except.ok ((r.within limit?).take? find?).1, ((r.within limit?).take? find?).2) = _
    rw [Reader.take?, hpeek]
    rfl
  have hpos : 0 < r.remaining := by
    obtain ⟨t, ht, -⟩ := Option.bind_eq_some_iff.1 ha
    exact Reader.remaining_pos_of_peek? ht
  cases hf (r.skip 1) (by rw [Reader.skip_remaining]; omega) rfl with
  | same result after hsyntax hp hq =>
    exact .same result after hsyntax ((run_bind_ok (hrun low)).trans hp)
      ((run_bind_ok (hrun high)).trans hq)
  | limit position after hne hm hlt hp =>
    exact .limit position after hne hm hlt ((run_bind_ok (hrun low)).trans hp)

/-- What goes on after a look at the reader. -/
theorem TracksAt.inspect {f g : Reader K → Parser K α}
    (hf : TracksAt low high levels r (f (r.within low)) (g (r.within high))) :
    TracksAt low high levels r (do f (← get)) (do g (← get)) := by
  cases hf with
  | same result after hsyntax hf hg => exact .same result after hsyntax hf hg
  | limit position after hne hm hlt hf => exact .limit position after hne hm hlt hf

/-- Two runs on a checkpoint. -/
theorem TracksAt.speculate {p q : Parser K (Option α)}
    (hp : TracksAt low high levels r.mark.2 p q) :
    TracksAt low high levels r (speculate p) (speculate q) := by
  cases hp with
  | limit position s hne hm hlt hp => exact .limit position s hne hm hlt (run_speculate_error hp)
  | same result s hsyntax hp hq =>
    match result with
    | .error e => exact .same (.error e) s hsyntax (run_speculate_error hp) (run_speculate_error hq)
    | .ok none =>
      refine .same (.ok none) (s.rollback r.mark.1) hsyntax ?_ ?_
      · exact run_speculate_none (r := r.within low) hp
      · exact run_speculate_none (r := r.within high) hq
    | .ok (some a) =>
      refine .same (.ok (some a)) (s.commit r.mark.1) hsyntax ?_ ?_
      · exact run_speculate_some (r := r.within low) hp
      · exact run_speculate_some (r := r.within high) hq

/-- A level that the limit forbids. -/
theorem run_nested_refused {limit? : Option Nat} (h : limit?.all (r.depth < ·) = false) :
    (nested p).run (r.within limit?) =
      (.error (.nestingTooDeep (limit?.getD 0) r.offset), r.within limit?) :=
  run_nested_error (by
    show (if limit?.all (r.depth < ·) = true then _ else _) = none
    rw [h]
    rfl)

/-- A level that the limit allows. -/
theorem run_nested_entered {limit? : Option Nat} (h : limit?.all (r.depth < ·) = true) :
    (nested p).run (r.within limit?) =
      ((p.run (Reader.within { r with depth := r.depth + 1 } limit?)).1,
        (p.run (Reader.within { r with depth := r.depth + 1 } limit?)).2.ascend) :=
  run_nested (by
    show (if limit?.all (r.depth < ·) = true then _ else _) = _
    rw [if_pos h]
    rfl)

/-- Two runs one level further in. The stricter limit may be reached alone. -/
theorem TracksAt.nested (hlimits : Limits low high) (hlevels : r.depth < levels)
    (hp : TracksAt low high levels { r with depth := r.depth + 1 } p q) :
    TracksAt low high levels r (nested p) (nested q) := by
  -- The first run enters the level only where the second one does.
  cases hlow : low.all (r.depth < ·) with
  | false =>
    rcases Decidable.em (low = high) with rfl | hne
    · exact .same _ r (absurd rfl) (run_nested_refused hlow) (run_nested_refused hlow)
    · obtain ⟨m, rfl, -⟩ := hlimits.resolve_left hne
      have hm : m ≤ r.depth := by simpa using hlow
      exact .limit r.offset (r.within (some m)) hne rfl (by omega) (run_nested_refused hlow)
  | true =>
    have hhigh : high.all (r.depth < ·) = true := by
      rcases hlimits with rfl | ⟨m, rfl, hm⟩
      · exact hlow
      · cases high with
        | none => rfl
        | some n =>
          simp only [Option.all_some, decide_eq_true_eq] at hlow hm ⊢
          omega
    cases hp with
    | limit position s hne hm hlt hp =>
      exact .limit position s.ascend hne hm hlt (by rw [run_nested_entered hlow, hp])
    | same result s hsyntax hp hq =>
      refine .same result s.ascend hsyntax ?_ ?_
      · rw [run_nested_entered hlow, hp]
        rfl
      · rw [run_nested_entered hhigh, hq]
        rfl

end Sequences

/-! ### Parsers without nested constructs -/

/-- The parser takes no notice of the limit. -/
def Limitless (p : Parser K α) : Prop := ∀ low high levels r, TracksAt low high levels r p p

section Limitless

variable {p : Parser K α} {f : α → Parser K β}

theorem Limitless.pure (a : α) : (pure a : Parser K α).Limitless := fun _ _ _ _ => .pure a

theorem Limitless.failHere (error : Nat → ParseError) [Syntactic error] :
    (failHere error : Parser K α).Limitless := fun _ _ _ _ => .failHere error

theorem Limitless.take? (find? : Token K → Option α) : (take? find?).Limitless :=
  fun _ _ _ _ => .take? find?

theorem Limitless.bind (hp : p.Limitless) (hf : ∀ a, (f a).Limitless) : (p >>= f).Limitless :=
  fun low high levels r => (hp low high levels r).bind fun a s _ => hf a low high levels s

/-- `Limitless.bind` behind an optional result. -/
theorem Limitless.bind_option {p : Parser K (Option α)} {f : Option α → Parser K β}
    (hp : p.Limitless) (hnone : (f none).Limitless) (hsome : ∀ a, (f (some a)).Limitless) :
    (p >>= f).Limitless := hp.bind fun | none => hnone | some a => hsome a

/-- `Limitless.bind` behind a test. -/
theorem Limitless.bind_bool {p : Parser K Bool} {f : Bool → Parser K β} (hp : p.Limitless)
    (hfalse : (f false).Limitless) (htrue : (f true).Limitless) : (p >>= f).Limitless :=
  hp.bind fun | false => hfalse | true => htrue

theorem Limitless.accept (test : Token K → Bool) : (accept test).Limitless :=
  .bind (.take? _) fun _ => .pure _

theorem Limitless.symbol (s : Symbol) : (symbol s : Parser K Bool).Limitless := .accept _

theorem Limitless.remaining : (remaining : Parser K Nat).Limitless :=
  fun _ _ _ r => .same (.ok r.remaining) r nofun rfl rfl

theorem Limitless.expect (s : Symbol) (error : Nat → ParseError) [Syntactic error] :
    (expect s error : Parser K Unit).Limitless :=
  .bind_bool (.symbol s) (.failHere error) (.pure ())

theorem Limitless.require {error : Nat → ParseError} [Syntactic error] {p : Parser K (Option α)}
    (hp : p.Limitless) : (require error p).Limitless :=
  .bind_option hp (.failHere error) .pure

theorem Limitless.map {g : α → β} {p : Parser K (Option α)} (hp : p.Limitless) :
    (do return (← p).map g).Limitless := hp.bind fun _ => .pure _

theorem Limitless.speculate {p : Parser K (Option α)} (hp : p.Limitless) :
    (speculate p).Limitless := fun low high levels r => .speculate (hp low high levels r.mark.2)

theorem Limitless.build : ∀ e : Except BuildError α, (build e : Parser K α).Limitless
  | .ok a => .pure a
  | .error _ => .failHere _

end Limitless

/-! ### Runs with few tokens left -/

/-- The runs of `p` and `q` agree in the sense of `TracksAt`, with `bound` levels of nesting in
front of them, from every reader whose tokens leave room for `offset` more, with two levels for each
token. -/
def Tracks (low high : Option Nat) (bound offset : Nat) (p q : Parser K α) : Prop :=
  ∀ r : Reader K, 2 * r.remaining + offset ≤ bound → TracksAt low high (r.depth + bound) r p q

section Rules

variable {bound offset : Nat} {p q : Parser K α} {f g : α → Parser K β}

/-- A parser that takes no notice of the limit agrees with itself. -/
theorem Limitless.tracks (hp : p.Limitless) : Tracks low high bound offset p p :=
  fun r _ => hp low high _ r

/-- More room may be asked for than is needed. -/
theorem Tracks.mono {offset' : Nat} (hp : Tracks low high bound offset p q)
    (h : offset ≤ offset') : Tracks low high bound offset' p q :=
  fun r hr => hp r (Nat.le_trans (Nat.add_le_add_left h _) hr)

theorem Tracks.pure (a : α) : Tracks low high bound offset (pure a : Parser K α) (pure a) :=
  fun _ _ => .pure a

theorem Tracks.failHere (error : Nat → ParseError) [Syntactic error] :
    Tracks low high bound offset (failHere error : Parser K α) (failHere error) :=
  fun _ _ => .failHere error

/-- Behind a steady parser there is as much room as before. -/
theorem Tracks.bind (hsteady : p.Steady) (hp : Tracks low high bound offset p q)
    (hf : ∀ a, Tracks low high bound offset (f a) (g a)) :
    Tracks low high bound offset (p >>= f) (q >>= g) := by
  intro r hr
  refine (hp r hr).bind fun a s hrun => ?_
  have hmoves := hsteady (r.within low)
  rw [hrun] at hmoves
  have hle : (s.within low).remaining ≤ (r.within low).remaining := hmoves.remaining_le
  have hdepth : s.depth = r.depth := hmoves.depth
  exact hdepth ▸ hf a s (Nat.le_trans (Nat.add_le_add_right (Nat.mul_le_mul_left 2 hle) offset) hr)

/-- A token that was consumed makes room for two levels of nesting. -/
theorem Tracks.bind_decisive [Verdict α] (hdecisive : p.Decisive)
    (hp : Tracks low high bound offset p q)
    (hno : ∀ a, found a = false → Tracks low high bound offset (f a) (g a))
    (hyes : ∀ a, found a → Tracks low high bound (offset + 2) (f a) (g a)) :
    Tracks low high bound offset (p >>= f) (q >>= g) := by
  intro r hr
  refine (hp r hr).bind fun a s hrun => ?_
  have hmoves := hdecisive (r.within low)
  rw [hrun] at hmoves
  cases ha : found a with
  | false =>
    have heq : s.within low = r.within low := by simpa [ha] using hmoves
    have hremaining : (s.within low).remaining = (r.within low).remaining :=
      congrArg Reader.remaining heq
    have hdepth : (s.within low).depth = (r.within low).depth := congrArg Reader.depth heq
    change s.depth = r.depth at hdepth
    exact hdepth ▸ hno a ha s (hremaining.symm ▸ hr)
  | true =>
    have hadvances : (r.within low).Advances (s.within low) := by simpa [ha] using hmoves
    have hlt : s.remaining < r.remaining := hadvances.remaining_lt
    have hdepth : s.depth = r.depth := hadvances.moves.depth
    exact hdepth ▸ hyes a ha s (by omega)

/-- `Tracks.bind_decisive` behind an optional result. -/
theorem Tracks.bind_option {p q : Parser K (Option α)} {f g : Option α → Parser K β}
    (hdecisive : p.Decisive) (hp : Tracks low high bound offset p q)
    (hnone : Tracks low high bound offset (f none) (g none))
    (hsome : ∀ a, Tracks low high bound (offset + 2) (f (some a)) (g (some a))) :
    Tracks low high bound offset (p >>= f) (q >>= g) :=
  .bind_decisive hdecisive hp (fun | none, _ => hnone) fun | some a, _ => hsome a

/-- `Tracks.bind_decisive` behind a test. -/
theorem Tracks.bind_bool {p q : Parser K Bool} {f g : Bool → Parser K β}
    (hdecisive : p.Decisive) (hp : Tracks low high bound offset p q)
    (hfalse : Tracks low high bound offset (f false) (g false))
    (htrue : Tracks low high bound (offset + 2) (f true) (g true)) :
    Tracks low high bound offset (p >>= f) (q >>= g) :=
  .bind_decisive hdecisive hp (fun | false, _ => hfalse) fun | true, _ => htrue

/-- What has to be found is found by both, or by neither. -/
theorem Tracks.require {error : Nat → ParseError} [Syntactic error] {p q : Parser K (Option α)}
    (hsteady : p.Steady) (hp : Tracks low high bound offset p q) :
    Tracks low high bound offset (require error p) (require error q) :=
  .bind hsteady hp fun | none => .failHere error | some a => .pure a

/-- A result that is changed. -/
theorem Tracks.map {g : α → β} {p q : Parser K (Option α)} (hsteady : p.Steady)
    (hp : Tracks low high bound offset p q) :
    Tracks low high bound offset (do return (← p).map g) (do return (← q).map g) :=
  .bind hsteady hp fun _ => .pure _

/-- Choices among no parsers. -/
theorem Tracks.firstOf_nil :
    Tracks low high bound offset (firstOf ([] : List (Parser K (Option α)))) (firstOf []) :=
  .pure none

/-- Choices among parsers that agree one by one. -/
theorem Tracks.firstOf_cons {p q : Parser K (Option α)} {ps qs : List (Parser K (Option α))}
    (hsteady : p.Steady) (hp : Tracks low high bound offset p q)
    (hps : Tracks low high bound offset (firstOf ps) (firstOf qs)) :
    Tracks low high bound offset (firstOf (p :: ps)) (firstOf (q :: qs)) :=
  .bind hsteady hp fun | none => hps | some a => .pure (some a)

/-- A checkpoint is no token. -/
theorem Tracks.speculate {p q : Parser K (Option α)} (hp : Tracks low high bound offset p q) :
    Tracks low high bound offset (speculate p) (speculate q) :=
  fun r hr => .speculate (hp r.mark.2 hr)

/-- A level of nesting takes the room of one. -/
theorem Tracks.nested (hlimits : Limits low high) (hp : Tracks low high bound offset p q) :
    Tracks low high (bound + 1) (offset + 1) (nested p) (nested q) := by
  intro r hr
  have hinner := hp { r with depth := r.depth + 1 } (Nat.le_of_succ_le_succ hr)
  rw [Nat.add_right_comm] at hinner
  exact .nested hlimits (by omega) hinner

/-- Lists of items with commas between them. -/
theorem Tracks.moreItems {item item' : Parser K α} (hsteady : item.Steady)
    (hitem : Tracks low high bound (offset + 2) item item') : ∀ count,
      Tracks low high bound offset (moreItems item count) (moreItems item' count)
  | 0 => .pure []
  | count + 1 => by
    refine .bind_bool (.symbol .comma) (Limitless.symbol _).tracks (.pure []) ?_
    refine .bind hsteady hitem fun _ => ?_
    have hmore := (Tracks.moreItems hsteady hitem count).mono (Nat.le_add_right offset 2)
    exact .bind (.moreItems hsteady count) hmore fun _ => .pure _

end Rules

end Parser

end Formula

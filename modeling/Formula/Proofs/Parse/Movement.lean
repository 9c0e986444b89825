import Formula.Parse.Parser

/-!
# What parsers do to the reader

A parser moves the reader ahead by some tokens, sets checkpoints and enters levels of nesting. The
rules below tell what is left of that behind a run. The condition on the parser of a construct is
`Decisive`: it tells from the result whether anything was found, and without a find the reader is
the one it was. Behind the token that decides for a construct its parser can only find it or fail
(`Finds`), and a parser on a checkpoint may have moved before it finds nothing (`Hesitant`). Each is
a condition of the form `Obeys`, and for each there is one rule for sequences.
-/

namespace Formula

/-! ## Movements of a reader -/

namespace Reader

variable {K : Type} {r s t : Reader K}

/-- The reader with `n` more tokens consumed. -/
def skip (r : Reader K) (n : Nat) : Reader K := { r with position := r.position + n }

/-- `s` is the reader `r` further on by tokens that are there. -/
def Moves (r s : Reader K) : Prop := ∃ n ≤ r.remaining, s = r.skip n

/-- `s` is the reader `r` further on by at least one token. -/
def Advances (r s : Reader K) : Prop := ∃ n ≤ r.remaining, 0 < n ∧ s = r.skip n

@[simp] theorem skip_zero (r : Reader K) : r.skip 0 = r := rfl
@[simp] theorem skip_skip (r : Reader K) (m n : Nat) : (r.skip m).skip n = r.skip (m + n) := by
  simp only [skip, Nat.add_assoc]
@[simp] theorem skip_position (r : Reader K) (n : Nat) : (r.skip n).position = r.position + n := rfl
@[simp] theorem skip_tokens (r : Reader K) (n : Nat) : (r.skip n).tokens = r.tokens := rfl
@[simp] theorem skip_depth (r : Reader K) (n : Nat) : (r.skip n).depth = r.depth := rfl
@[simp] theorem skip_checkpoints (r : Reader K) (n : Nat) :
    (r.skip n).checkpoints = r.checkpoints := rfl
@[simp] theorem skip_maxDepth? (r : Reader K) (n : Nat) : (r.skip n).maxDepth? = r.maxDepth? := rfl
@[simp] theorem skip_remaining (r : Reader K) (n : Nat) :
    (r.skip n).remaining = r.remaining - n := by
  simp only [remaining, skip]; omega

/-- Standing still is a movement. -/
theorem Moves.refl (r : Reader K) : r.Moves r := ⟨0, Nat.zero_le _, rfl⟩

/-- An advance is a movement. -/
theorem Advances.moves : r.Advances s → r.Moves s
  | ⟨n, hn, _, h⟩ => ⟨n, hn, h⟩

/-- A movement keeps the depth of nesting. -/
theorem Moves.depth : r.Moves s → s.depth = r.depth
  | ⟨_, _, h⟩ => h ▸ rfl

/-- Movements compose. -/
theorem Moves.trans : r.Moves s → s.Moves t → r.Moves t := by
  rintro ⟨m, hm, rfl⟩ ⟨n, hn, rfl⟩
  exact ⟨m + n, by simp at hn; omega, by simp⟩

/-- An advance before a movement is an advance. -/
theorem Advances.trans_moves : r.Advances s → s.Moves t → r.Advances t := by
  rintro ⟨m, hm, h0, rfl⟩ ⟨n, hn, rfl⟩
  exact ⟨m + n, by simp at hn; omega, by omega, by simp⟩

/-- An advance behind a movement is an advance. -/
theorem Moves.trans_advances : r.Moves s → s.Advances t → r.Advances t := by
  rintro ⟨m, hm, rfl⟩ ⟨n, hn, h0, rfl⟩
  exact ⟨m + n, by simp at hn; omega, by omega, by simp⟩

/-- A token that comes next is one that is left. -/
theorem remaining_pos_of_peek? {a : Token K} (h : r.peek? = some a) : 0 < r.remaining := by
  unfold peek? at h
  obtain ⟨_, h, -⟩ := Option.map_eq_some_iff.1 h
  have := (Array.getElem?_eq_some_iff.1 h).1
  unfold remaining; omega

end Reader

/-! ## What a parser does to the reader -/

/-- Results that tell whether anything was found. -/
class Verdict (α : Type) where
  found : α → Bool

instance : Verdict Bool := ⟨id⟩
instance {α : Type} : Verdict (Option α) := ⟨Option.isSome⟩

@[simp] theorem found_bool (b : Bool) : Verdict.found b = b := rfl
@[simp] theorem found_none {α : Type} : Verdict.found (none : Option α) = false := rfl
@[simp] theorem found_some {α : Type} (a : α) : Verdict.found (some a) = true := rfl

namespace Parser

open Verdict (found)

variable {K α β : Type}

/-- On every reader a result meets the condition, and an error leaves as many levels of nesting
open as there were. -/
def Obeys (p : Parser K α) (post : Reader K → α → Reader K → Prop) : Prop :=
  ∀ r, match p.run r with
    | (.ok a, after) => post r a after
    | (.error _, after) => after.depth = r.depth

/-- Whatever it finds, the parser only moves ahead. -/
def Steady (p : Parser K α) : Prop := p.Obeys fun r _ after => r.Moves after

/-- The parser consumes a token if it finds something and leaves the reader alone if not. -/
def Decisive [Verdict α] (p : Parser K α) : Prop :=
  p.Obeys fun r a after => if found a then r.Advances after else after = r

/-- The parser consumes a token if it finds something and may also move if not. -/
def Hesitant [Verdict α] (p : Parser K α) : Prop :=
  p.Obeys fun r a after => r.Moves after ∧ (found a → r.Advances after)

/-- The parser moves ahead and does find something. -/
def Finds [Verdict α] (p : Parser K α) : Prop :=
  p.Obeys fun r a after => found a ∧ r.Moves after

/-! ### Rules for sequences -/

section Rules

variable {p : Parser K α} {f : α → Parser K β}

/-- A sequence goes on where its first part ends. -/
theorem run_bind_ok {r s : Reader K} {a : α} (h : p.run r = (.ok a, s)) :
    (p >>= f).run r = (f a).run s := by
  show (ExceptT.bindCont f (p.run r).1) (p.run r).2 = _
  rw [h]
  rfl

/-- A sequence ends with an error of its first part. -/
theorem run_bind_error {r s : Reader K} {e : ParseError} (h : p.run r = (.error e, s)) :
    (p >>= f).run r = (.error e, s) := by
  show (ExceptT.bindCont f (p.run r).1) (p.run r).2 = _
  rw [h]
  rfl

/-- A condition may be weakened. -/
theorem Obeys.mono {post post' : Reader K → α → Reader K → Prop} (hp : p.Obeys post)
    (h : ∀ r a after, post r a after → post' r a after) : p.Obeys post' := by
  intro r
  have hr := hp r
  split <;> rename_i heq <;> rw [heq] at hr
  · exact h _ _ _ hr
  · exact hr

/-- A sequence obeys what its second part adds to a movement of its first. -/
theorem Obeys.bind {mid : Reader K → α → Reader K → Prop} {post : Reader K → β → Reader K → Prop}
    (hp : p.Obeys mid) (hmoves : ∀ r a after, mid r a after → r.Moves after)
    (hf : ∀ a, (f a).Obeys fun s b after => ∀ r, mid r a s → post r b after) :
    (p >>= f).Obeys post := by
  intro r
  have h := hp r
  rcases hr : p.run r with ⟨e | a, s⟩ <;> rw [hr] at h
  · rw [run_bind_error hr]
    exact h
  · rw [run_bind_ok hr]
    have h' := hf a s
    dsimp only at h ⊢
    split <;> rename_i heq <;> rw [heq] at h'
    · exact h' r h
    · exact h'.trans (hmoves _ _ _ h).depth

/-- A result without reading. -/
theorem Steady.pure (a : α) : (pure a : Parser K α).Steady := fun r => .refl r

/-- An error at the next token. -/
theorem Steady.failHere (error : Nat → ParseError) : (failHere error : Parser K α).Steady :=
  fun _ => rfl

/-- A look at the reader does not move it. -/
theorem Steady.get : (get : Parser K (Reader K)).Steady := fun r => .refl r

/-- Steady parsers in sequence are steady. -/
theorem Steady.bind (hp : p.Steady) (hf : ∀ a, (f a).Steady) : (p >>= f).Steady :=
  Obeys.bind hp (fun _ _ _ h => h) fun a => (hf a).mono fun _ _ _ h _ h' => h'.trans h

variable [Verdict α] [Verdict β]

/-- A decisive parser is steady. -/
theorem Decisive.steady (hp : p.Decisive) : p.Steady := hp.mono fun r a after h => by
  split at h
  · exact h.moves
  · exact h ▸ .refl r

/-- A decisive parser does not hesitate. -/
theorem Decisive.hesitant (hp : p.Decisive) : p.Hesitant := hp.mono fun r a after h => by
  split at h
  · exact ⟨h.moves, fun _ => h⟩
  · next hn => exact ⟨h ▸ .refl r, fun hf => absurd hf hn⟩

/-- A parser that finds something is steady. -/
theorem Finds.steady (hp : p.Finds) : p.Steady := hp.mono fun _ _ _ h => h.2

/-- A result that tells of something found. -/
theorem Finds.pure {a : α} (h : found a) : (pure a : Parser K α).Finds := fun r => ⟨h, .refl r⟩

/-- A result that tells of nothing found. -/
theorem Decisive.pure {a : α} (h : found a = false) : (pure a : Parser K α).Decisive := fun r => by
  show if found a then _ else _
  simp [h]

omit [Verdict α] in
/-- What is found behind a steady parser is found by the sequence. -/
theorem Finds.bind (hp : p.Steady) (hf : ∀ a, (f a).Finds) : (p >>= f).Finds :=
  Obeys.bind hp (fun _ _ _ h => h) fun a => (hf a).mono fun _ _ _ h _ h' => ⟨h.1, h'.trans h.2⟩

/-- Behind a decisive parser only what finds something follows what was found, and only a decisive
parser follows nothing. -/
theorem Decisive.bind (hp : p.Decisive) (hno : ∀ a, found a = false → (f a).Decisive)
    (hyes : ∀ a, found a → (f a).Finds) : (p >>= f).Decisive := by
  refine Obeys.bind hp (fun r a after h => ?_) fun a => ?_
  · split at h
    · exact h.moves
    · exact h ▸ .refl r
  · cases ha : found a with
    | true =>
      refine (hyes a ha).mono fun s b after ⟨hb, hm⟩ r h => ?_
      rw [if_pos rfl] at h
      rw [if_pos hb]
      exact h.trans_moves hm
    | false =>
      refine (hno a ha).mono fun s b after h' r h => ?_
      obtain rfl : s = r := by simpa using h
      exact h'

/-- Nothing found, on a checkpoint. -/
theorem Hesitant.pure {a : α} (h : found a = false) : (pure a : Parser K α).Hesitant :=
  (Decisive.pure h).hesitant

omit [Verdict α] in
/-- A look at the reader in front of a decisive parser. -/
theorem Decisive.get_bind {f : Reader K → Parser K β} (hf : ∀ r, (f r).Decisive) :
    (get >>= f).Decisive := by
  intro r
  have hget : (get : Parser K (Reader K)).run r = (.ok r, r) := rfl
  rw [run_bind_ok hget]
  exact hf r r

omit [Verdict α] in
/-- A steady parser in front of a hesitant one. -/
theorem Hesitant.bind (hp : p.Steady) (hf : ∀ a, (f a).Hesitant) : (p >>= f).Hesitant :=
  Obeys.bind hp (fun _ _ _ h => h) fun a => (hf a).mono fun _ _ _ h _ h' =>
    ⟨h'.trans h.1, fun hb => h'.trans_advances (h.2 hb)⟩

/-- Behind a token that was consumed a hesitant parser goes on steadily. -/
theorem Hesitant.bind_decisive (hp : p.Decisive) (hno : ∀ a, found a = false → (f a).Hesitant)
    (hyes : ∀ a, found a → (f a).Steady) : (p >>= f).Hesitant := by
  refine Obeys.bind hp (fun r a after h => ?_) fun a => ?_
  · split at h
    · exact h.moves
    · exact h ▸ .refl r
  · cases ha : found a with
    | true =>
      refine (hyes a ha).mono fun s b after hm r h => ?_
      rw [if_pos rfl] at h
      exact ⟨h.moves.trans hm, fun _ => h.trans_moves hm⟩
    | false =>
      refine (hno a ha).mono fun s b after h' r h => ?_
      obtain rfl : s = r := by simpa using h
      exact h'

end Rules

/-! ### Rules for a decision -/

section Decisions

variable {f : Option α → Parser K β} {g : Bool → Parser K β}

/-- `Steady.bind` behind an optional result. -/
theorem Steady.bind_option {p : Parser K (Option α)} (hp : p.Steady) (hnone : (f none).Steady)
    (hsome : ∀ a, (f (some a)).Steady) : (p >>= f).Steady :=
  hp.bind fun | none => hnone | some a => hsome a

/-- `Steady.bind` behind a test. -/
theorem Steady.bind_bool {p : Parser K Bool} (hp : p.Steady) (hfalse : (g false).Steady)
    (htrue : (g true).Steady) : (p >>= g).Steady :=
  hp.bind fun | false => hfalse | true => htrue

variable [Verdict β]

/-- `Decisive.bind` behind an optional result. -/
theorem Decisive.bind_option {p : Parser K (Option α)} (hp : p.Decisive)
    (hnone : (f none).Decisive) (hsome : ∀ a, (f (some a)).Finds) : (p >>= f).Decisive :=
  hp.bind (fun | none, _ => hnone) fun | some a, _ => hsome a

/-- `Decisive.bind` behind a test. -/
theorem Decisive.bind_bool {p : Parser K Bool} (hp : p.Decisive) (hfalse : (g false).Decisive)
    (htrue : (g true).Finds) : (p >>= g).Decisive :=
  hp.bind (fun | false, _ => hfalse) fun | true, _ => htrue

/-- `Hesitant.bind_decisive` behind an optional result. -/
theorem Hesitant.bind_option {p : Parser K (Option α)} (hp : p.Decisive)
    (hnone : (f none).Hesitant) (hsome : ∀ a, (f (some a)).Steady) : (p >>= f).Hesitant :=
  .bind_decisive hp (fun | none, _ => hnone) fun | some a, _ => hsome a

/-- `Hesitant.bind_decisive` behind a test. -/
theorem Hesitant.bind_bool {p : Parser K Bool} (hp : p.Decisive) (hfalse : (g false).Hesitant)
    (htrue : (g true).Steady) : (p >>= g).Hesitant :=
  .bind_decisive hp (fun | false, _ => hfalse) fun | true, _ => htrue

end Decisions

/-! ### Building blocks -/

/-- A token is consumed exactly if it gives what is looked for. -/
theorem Decisive.take? (find? : Token K → Option α) : (take? find?).Decisive := by
  intro r
  show if found (r.take? find?).1 then r.Advances (r.take? find?).2 else (r.take? find?).2 = r
  unfold Reader.take?
  cases h : r.peek?.bind find? with
  | none => simp
  | some a =>
    obtain ⟨t, ht, -⟩ := Option.bind_eq_some_iff.1 h
    exact ⟨1, Reader.remaining_pos_of_peek? ht, Nat.one_pos, rfl⟩

/-- A token is consumed exactly if it passes the test. -/
theorem Decisive.accept (test : Token K → Bool) : (accept test).Decisive :=
  .bind_option (.take? _) (.pure rfl) fun _ => .pure rfl

/-- A symbol is consumed exactly if it comes next. -/
theorem Decisive.symbol (s : Symbol) : (symbol s : Parser K Bool).Decisive := .accept _

/-- A keyword is consumed exactly if it comes next. -/
theorem Decisive.keyword (k : Keyword) : (keyword k : Parser K Bool).Decisive := .accept _

/-- An expected symbol is consumed, or its absence is an error. -/
theorem Steady.expect (s : Symbol) (error : Nat → ParseError) :
    (expect s error : Parser K Unit).Steady :=
  .bind_bool (Decisive.symbol s).steady (.failHere error) (.pure ())

/-- What has to be found is found, or its absence is an error. -/
theorem Steady.require {error : Nat → ParseError} {p : Parser K (Option α)} (hp : p.Steady) :
    (require error p).Steady :=
  .bind_option hp (.failHere error) .pure

/-- The number of tokens left is read off. -/
theorem Steady.remaining : (remaining : Parser K Nat).Steady := .bind .get fun _ => .pure _

/-- A list of items with commas between them. -/
theorem Steady.moreItems {item : Parser K α} (hitem : item.Steady) :
    ∀ count, (moreItems item count).Steady
  | 0 => .pure []
  | count + 1 => .bind_bool (Decisive.symbol .comma).steady (.pure []) <|
      hitem.bind fun _ => (Steady.moreItems hitem count).bind fun _ => .pure _

/-- What cannot be built is an error. -/
theorem Steady.build : ∀ e : Except BuildError α, (build e : Parser K α).Steady
  | .ok a => .pure a
  | .error _ => .failHere _

/-- The first among decisive parsers that finds something. -/
theorem Decisive.firstOf : ∀ {ps : List (Parser K (Option α))},
    (∀ p ∈ ps, p.Decisive) → (firstOf ps).Decisive
  | [], _ => .pure rfl
  | p :: _, h => .bind_option (h p (.head _)) (Decisive.firstOf fun q hq => h q (.tail _ hq))
      fun _ => .pure rfl

/-- A change to what a decisive parser finds. -/
theorem Decisive.map {g : α → β} {p : Parser K (Option α)} (hp : p.Decisive) :
    (do return (← p).map g).Decisive :=
  .bind_option hp (.pure rfl) fun _ => .pure rfl

/-- A checkpoint is set in front of the run and closed behind it. -/
theorem run_speculate (p : Parser K (Option α)) (r : Reader K) :
    (speculate p).run r = (p >>= fun a? => do
      match a? with
      | some a => do modify (Reader.commit r.mark.1); return some a
      | none => do modify (Reader.rollback r.mark.1); return none).run r.mark.2 := rfl

/-- A run on a checkpoint that finds something drops the checkpoint. -/
theorem run_speculate_some {p : Parser K (Option α)} {r s : Reader K} {a : α}
    (h : p.run r.mark.2 = (.ok (some a), s)) :
    (speculate p).run r = (.ok (some a), s.commit r.mark.1) := by
  rw [run_speculate, run_bind_ok h]
  rfl

/-- A run on a checkpoint that finds nothing goes back to it. -/
theorem run_speculate_none {p : Parser K (Option α)} {r s : Reader K}
    (h : p.run r.mark.2 = (.ok none, s)) :
    (speculate p).run r = (.ok none, s.rollback r.mark.1) := by
  rw [run_speculate, run_bind_ok h]
  rfl

/-- A run on a checkpoint that fails leaves it open. -/
theorem run_speculate_error {p : Parser K (Option α)} {r s : Reader K} {e : ParseError}
    (h : p.run r.mark.2 = (.error e, s)) : (speculate p).run r = (.error e, s) := by
  rw [run_speculate, run_bind_error h]

/-- A run one level further in. -/
theorem run_nested {p : Parser K α} {r inner : Reader K} (h : r.descend? = some inner) :
    (nested p).run r = ((p.run inner).1, (p.run inner).2.ascend) := by
  unfold nested
  simp only [ExceptT.run_mk, h]
  rfl

/-- A run that may not go one level further in. -/
theorem run_nested_error {p : Parser K α} {r : Reader K} (h : r.descend? = none) :
    (nested p).run r = (.error (.nestingTooDeep (r.maxDepth?.getD 0) r.offset), r) := by
  unfold nested
  simp only [ExceptT.run_mk, h]

/-- A checkpoint makes a hesitant parser decisive: what it consumed before it found nothing is
given back, and every checkpoint is closed. -/
theorem Decisive.speculate {p : Parser K (Option α)} (hp : p.Hesitant) :
    (speculate p).Decisive := by
  intro r
  have hmark : r.mark.2.checkpoints.take r.mark.1.count = r.checkpoints := by simp [Reader.mark]
  have h := hp r.mark.2
  rcases hr : p.run r.mark.2 with ⟨e | _ | a, s⟩ <;> rw [hr] at h
  · rw [run_speculate_error hr]
    exact h
  · obtain ⟨⟨n, hn, rfl⟩, -⟩ := h
    rw [run_speculate_none hr]
    show Reader.rollback _ _ = r
    rw [Reader.rollback, Reader.skip_checkpoints, hmark]
    rfl
  · obtain ⟨n, hn, h0, rfl⟩ := h.2 rfl
    rw [run_speculate_some hr]
    refine ⟨n, hn, h0, ?_⟩
    rw [Reader.commit, Reader.skip_checkpoints, hmark]
    rfl

/-- A level of nesting around a decisive parser is left on every way out. -/
theorem Decisive.nested [Verdict α] {p : Parser K α} (hp : p.Decisive) : (nested p).Decisive := by
  intro r
  cases hd : r.maxDepth?.all (r.depth < ·) with
  | false => rw [run_nested_error (by rw [Reader.descend?, hd]; rfl)]
  | true =>
    rw [run_nested (by rw [Reader.descend?, hd]; rfl)]
    have h := hp { r with depth := r.depth + 1 }
    rcases hr : p.run { r with depth := r.depth + 1 } with ⟨e | a, s⟩ <;> rw [hr] at h
    · have : s.depth = r.depth + 1 := h
      show s.depth - 1 = r.depth
      omega
    · dsimp only at h ⊢
      split at h
      · next hf =>
        rw [if_pos hf]
        obtain ⟨n, hn, h0, rfl⟩ := h
        exact ⟨n, hn, h0, rfl⟩
      · next hf =>
        rw [if_neg hf, h]
        rfl

end Parser

end Formula

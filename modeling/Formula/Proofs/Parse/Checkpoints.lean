import Formula.Binary64.Basic
import Formula.Proofs.Parse.Movement

/-!
# Checkpoints under any use of a reader

A `Session` is a reader in use, together with the checkpoints that were made since the use began.
Its operations may go back to these or drop them, in any order, more than once or never; checkpoints
from before are out of reach.

The checkpoints that were open when a session began, and the one that was made last before it, stay
at the bottom of the stack, and each checkpoint of the session counts more open ones than there were
then (`Session.Above`). One operation keeps this, and so does a whole session, so that after it the
one from before still leads back to where it was made (`checkpoint_restores`).
-/

namespace Formula.Reader

variable {K : Type} {r : Reader K} {c : Checkpoint}

/-! ## Sessions -/

/-- What can be done with a reader. Checkpoints are given by the order in which the session made
them. Questions that leave the reader as it is are no operations. -/
inductive Operation (K : Type) : Type 1 where
  /-- Consumes the next token if it gives what is looked for. -/
  | take {α : Type} (find? : Token K → Option α)
  | mark
  | rollback (index : Nat)
  | commit (index : Nat)
  | descend
  | ascend

/-- A reader in use. -/
structure Session (K : Type) where
  reader : Reader K
  /-- The checkpoints made since the use began, the oldest first. -/
  made : List Checkpoint

namespace Session

/-- The beginning of a session. -/
def start (r : Reader K) : Session K := ⟨r, []⟩

/-- One operation. There is nothing to resolve at an index without a checkpoint. -/
def apply (s : Session K) : Operation K → Session K
  | .take find? => { s with reader := (s.reader.take? find?).2 }
  | .mark => ⟨s.reader.mark.2, s.made ++ [s.reader.mark.1]⟩
  | .rollback index => s.made[index]?.elim s fun c => { s with reader := s.reader.rollback c }
  | .commit index => s.made[index]?.elim s fun c => { s with reader := s.reader.commit c }
  | .descend => { s with reader := s.reader.descend?.getD s.reader }
  | .ascend => { s with reader := s.reader.ascend }

/-- Operations one after the other. -/
def run (s : Session K) (operations : List (Operation K)) : Session K := operations.foldl apply s

end Session

/-! ## One operation -/

/-- No token is consumed past the last one. -/
theorem take?_position_le {α : Type} (find? : Token K → Option α)
    (h : r.position ≤ r.tokens.size) : (r.take? find?).2.position ≤ r.tokens.size := by
  unfold take?
  split
  · next a hfound =>
    obtain ⟨token, hpeek, -⟩ := Option.bind_eq_some_iff.1 hfound
    have hleft : 0 < r.tokens.size - r.position := remaining_pos_of_peek? hpeek
    exact Nat.lt_of_sub_pos hleft
  · exact h

namespace Session

variable {s t : Session K}

/-- All that one operation can do: it moves the reader and leaves its checkpoints alone, or it makes
a checkpoint, or it goes back to one of the session or drops it. -/
inductive Step (s : Session K) : Session K → Prop
  | moves {after : Reader K} (htokens : after.tokens = s.reader.tokens)
    (hcheckpoints : after.checkpoints = s.reader.checkpoints)
    (hposition : s.reader.position ≤ s.reader.tokens.size →
      after.position ≤ s.reader.tokens.size) : Step s ⟨after, s.made⟩
  | mark : Step s ⟨s.reader.mark.2, s.made ++ [s.reader.mark.1]⟩
  | rollback {c : Checkpoint} (hc : c ∈ s.made) : Step s ⟨s.reader.rollback c, s.made⟩
  | commit {c : Checkpoint} (hc : c ∈ s.made) : Step s ⟨s.reader.commit c, s.made⟩

/-- An operation is a step. -/
theorem apply_step (s : Session K) (operation : Operation K) : s.Step (s.apply operation) := by
  -- No checkpoint at the index, or no room for another level: nothing happens.
  have hstay : s.Step s := .moves rfl rfl id
  cases operation with
  | take find? =>
    have hkept : (s.reader.take? find?).2.tokens = s.reader.tokens ∧
        (s.reader.take? find?).2.checkpoints = s.reader.checkpoints := by
      unfold take?
      split <;> exact ⟨rfl, rfl⟩
    exact .moves hkept.1 hkept.2 (take?_position_le find?)
  | mark => exact .mark
  | rollback index =>
    rw [apply]
    cases hc : s.made[index]? with
    | none => exact hstay
    | some c => exact .rollback (List.mem_of_getElem? hc)
  | commit index =>
    rw [apply]
    cases hc : s.made[index]? with
    | none => exact hstay
    | some c => exact .commit (List.mem_of_getElem? hc)
  | descend =>
    rw [apply, descend?]
    split
    · exact .moves rfl rfl id
    · exact hstay
  | ascend => exact .moves rfl rfl id

/-- What every step keeps, a session keeps. -/
theorem run_keeps {P : Session K → Prop} (hstep : ∀ {s t}, Step s t → P s → P t) (h : P s)
    (operations : List (Operation K)) : P (s.run operations) := by
  induction operations generalizing s with
  | nil => exact h
  | cons operation operations ih => exact ih (hstep (s.apply_step operation) h)

/-! ## The stack of checkpoints -/

/-- The stack of a session that began behind the checkpoint made on `r`: that checkpoint and the
older ones are at its bottom, and those of the session count all of these. -/
structure Above (r : Reader K) (s : Session K) : Prop where
  bottom : r.checkpoints ++ [r.position] <+: s.reader.checkpoints
  counts : ∀ c ∈ s.made, r.checkpoints.length < c.count

/-- A stack that is cut back to a checkpoint of the session. The checkpoint may count more open ones
than there are by now, and then nothing is cut off. -/
theorem Above.take (h : Above r s) (hc : c ∈ s.made) :
    r.checkpoints ++ [r.position] <+: s.reader.checkpoints.take c.count := by
  refine List.prefix_take_iff.2 ⟨h.bottom, ?_⟩
  rw [List.length_append, List.length_singleton]
  exact h.counts c hc

/-- One step. -/
theorem Above.step (hstep : Step s t) (h : Above r s) : Above r t := by
  cases hstep with
  | moves _ hcheckpoints _ => exact ⟨hcheckpoints ▸ h.bottom, h.counts⟩
  | mark =>
    -- The new checkpoint counts the whole stack, and the bottom is part of that.
    have hlength := h.bottom.length_le
    rw [List.length_append, List.length_singleton] at hlength
    exact ⟨h.bottom.trans (List.prefix_append _ _),
      List.forall_mem_append.2 ⟨h.counts, List.forall_mem_singleton.2 hlength⟩⟩
  | rollback hc | commit hc => exact ⟨h.take hc, h.counts⟩

/-- **The bottom of the stack stays** during a session. -/
theorem above_run (r : Reader K) (operations : List (Operation K)) :
    Above r ((start r.mark.2).run operations) :=
  run_keeps (P := Above r) Above.step ⟨List.prefix_rfl, List.forall_mem_nil _⟩ operations

/-- The stack cut back to what it was before the session. -/
theorem Above.take_eq (h : Above r s) :
    s.reader.checkpoints.take r.checkpoints.length = r.checkpoints :=
  (List.prefix_iff_eq_take.1 ((List.prefix_append _ _).trans h.bottom)).symm

/-! ## Positions -/

/-- The reader and the checkpoints of the session are not past the last of the tokens, which are
those of `r`. -/
structure Within (r : Reader K) (s : Session K) : Prop where
  tokens : s.reader.tokens = r.tokens
  position : s.reader.position ≤ r.tokens.size
  made : ∀ c ∈ s.made, c.position ≤ r.tokens.size

/-- One step. -/
theorem Within.step (hstep : Step s t) (h : Within r s) : Within r t := by
  cases hstep with
  | moves htokens _ hposition =>
    rw [h.tokens] at htokens hposition
    exact ⟨htokens, hposition h.position, h.made⟩
  | mark =>
    exact ⟨h.tokens, h.position,
      List.forall_mem_append.2 ⟨h.made, List.forall_mem_singleton.2 h.position⟩⟩
  | rollback hc => exact ⟨h.tokens, h.made _ hc, h.made⟩
  | commit hc => exact ⟨h.tokens, h.position, h.made⟩

/-- **No session comes past the last token.** -/
theorem within_run (operations : List (Operation K)) (h : r.position ≤ r.tokens.size) :
    Within r ((start r).run operations) :=
  run_keeps (P := Within r) Within.step ⟨rfl, h, List.forall_mem_nil _⟩ operations

end Session

/-- **A checkpoint leads back to where it was made**, whatever was done with the reader since, as
long as only later checkpoints were resolved: going back to it restores the position and the open
checkpoints, and dropping it keeps the position and restores the open checkpoints. No use of a
reader leads past the last token. -/
theorem checkpoint_restores :
    (∀ (r : Reader K) (operations : List (Operation K)),
      let after := ((Session.start r.mark.2).run operations).reader
      (after.rollback r.mark.1).position = r.position ∧
      (after.rollback r.mark.1).checkpoints = r.checkpoints ∧
      (after.commit r.mark.1).position = after.position ∧
      (after.commit r.mark.1).checkpoints = r.checkpoints ∧
      (r.position ≤ r.tokens.size →
        after.tokens = r.tokens ∧ after.position ≤ after.tokens.size)) ∧
    ∀ (tokens : List (Token K × Nat)) (maxDepth? : Option Nat) (operations : List (Operation K)),
      ((Session.start (ofTokens tokens maxDepth?)).run operations).reader.position ≤
        tokens.length := by
  constructor
  · intro r operations after
    have hbottom : after.checkpoints.take r.checkpoints.length = r.checkpoints :=
      (Session.above_run r operations).take_eq
    refine ⟨rfl, hbottom, rfl, hbottom, fun hr => ?_⟩
    have hwithin : Session.Within r.mark.2 _ := Session.within_run operations hr
    exact ⟨hwithin.tokens, hwithin.tokens ▸ hwithin.position⟩
  · intro tokens maxDepth? operations
    exact (Session.within_run operations (Nat.zero_le _)).position

/-- Two later checkpoints are resolved in the order in which they were made, so that the second one
counts more open ones than there are, and a third one is abandoned. -/
theorem checkpoint_restores_crossed :
    let r : Reader Binary64 := ⟨#[(.identifier "a", 0), (.symbol .plus, 2), (.identifier "b", 4)],
      1, [0], 0, none⟩
    let operations : List (Operation Binary64) := [.mark, .take fun t => some t, .mark,
      .take Token.identifier?, .rollback 0, .commit 1, .take fun t => some t, .mark]
    let after := ((Session.start r.mark.2).run operations).reader
    r.position ≤ r.tokens.size ∧ after.position = 2 ∧ after.checkpoints = [0, 1, 2] ∧
      after.position ≤ after.tokens.size ∧ (after.rollback r.mark.1).position = 1 ∧
      (after.rollback r.mark.1).checkpoints = [0] ∧ (after.commit r.mark.1).checkpoints = [0] := by
  intro r operations after
  have hr : r.position ≤ r.tokens.size := by decide
  obtain ⟨hposition, hcheckpoints, -, hcommit, hwithin⟩ :=
    (checkpoint_restores (K := Binary64)).1 r operations
  exact ⟨hr, rfl, rfl, (hwithin hr).2, hposition, hcheckpoints, hcommit⟩

end Formula.Reader

import Formula.Proofs.Parse.Congruence
import Formula.Proofs.Parse.Limits
import Formula.Proofs.Parse.Reads

/-!
# Parsers see the tokens ahead

`SameRuns p q` says that `p` and `q` run alike on any two readers with the same tokens ahead: they
give the same and consume as many tokens, or both fail. What was consumed before, where the tokens
stand in the text and which checkpoints are open makes no difference, and `SameRuns` is a relation
that the grammar keeps (`sameRuns_congruence`, `Nest.parserWithin_sameRuns`).

So in front of given tokens a parser of the grammar reads something or fails
(`SameRuns.reads_or_fails`), and one run tells about all others. In particular, what is read from
tokens without a limit on nesting is what the grammar reads in front of nothing else
(`parseTokens_iff`).
-/

namespace Formula

open Formula.Parser

variable {K : Type}

namespace Parser

variable {α β : Type}

/-! ## Runs on different readers -/

/-- Both runs fail, or they give the same and consume as many tokens. -/
inductive SameRun (r s : Reader K) (p q : Parser K α) : Prop
  | found (a : α) (n : Nat) : n ≤ r.remaining → p.run r = (.ok a, r.skip n) →
    q.run s = (.ok a, s.skip n) → SameRun r s p q
  | failed {e e' : ParseError} {after after' : Reader K} : p.run r = (.error e, after) →
    q.run s = (.error e', after') → SameRun r s p q

/-- The one parser runs on readers with a limit and a depth of this sort as the other one does on
readers without a limit that have the same tokens ahead. -/
def SameRunsAt (sort : Option Nat → Nat → Prop) {α : Type} (p q : Parser K α) : Prop :=
  ∀ r s : Reader K, sort r.maxDepth? r.depth → s.maxDepth? = none → r.ahead = s.ahead →
    SameRun r s p q

/-- The parsers run alike on readers without a limit that have the same tokens ahead. -/
def SameRuns (p q : Parser K α) : Prop := SameRunsAt (fun limit? _ => limit? = none) p q

variable {sort : Option Nat → Nat → Prop} {p q : Parser K α} {f g : α → Parser K β} {r s : Reader K}

/-- Runs that go on alike behind runs that ended alike. -/
theorem SameRun.bind (hp : SameRun r s p q)
    (hf : ∀ a n, n ≤ r.remaining → SameRun (r.skip n) (s.skip n) (f a) (g a)) :
    SameRun r s (p >>= f) (q >>= g) := by
  cases hp with
  | failed hp hq => exact .failed (run_bind_error hp) (run_bind_error hq)
  | found a n hn hp hq =>
    cases hf a n hn with
    | failed hfa hga => exact .failed ((run_bind_ok hp).trans hfa) ((run_bind_ok hq).trans hga)
    | found b m hm hfa hga =>
      rw [Reader.skip_skip] at hfa hga
      rw [Reader.skip_remaining] at hm
      exact .found b (n + m) (by omega) ((run_bind_ok hp).trans hfa) ((run_bind_ok hq).trans hga)

theorem SameRunsAt.bind (hp : SameRunsAt sort p q) (hf : ∀ a, SameRunsAt sort (f a) (g a)) :
    SameRunsAt sort (p >>= f) (q >>= g) := fun r s hr hs hahead =>
  (hp r s hr hs hahead).bind fun a n _ => by
    refine hf a (r.skip n) (s.skip n) hr hs ?_
    rw [Reader.ahead_skip, Reader.ahead_skip, hahead]

/-- On a checkpoint the runs are given back alike. -/
theorem SameRunsAt.speculate {p q : Parser K (Option α)} (hp : SameRunsAt sort p q) :
    SameRunsAt sort (speculate p) (speculate q) := by
  intro r s hr hs hahead
  cases hp r.mark.2 s.mark.2 hr hs hahead with
  | failed hp hq => exact .failed (run_speculate_error hp) (run_speculate_error hq)
  | found found? n hn hp hq =>
    cases found? with
    | none =>
      refine .found none 0 (Nat.zero_le _) ?_ ?_
      · rw [run_speculate_none hp]
        simp [Reader.rollback, Reader.mark, Reader.skip]
      · rw [run_speculate_none hq]
        simp [Reader.rollback, Reader.mark, Reader.skip]
    | some a =>
      refine .found (some a) n hn ?_ ?_
      · rw [run_speculate_some hp]
        simp [Reader.commit, Reader.mark, Reader.skip]
      · rw [run_speculate_some hq]
        simp [Reader.commit, Reader.mark, Reader.skip]

/-- Without a limit there is always a level more. -/
theorem descend?_of_maxDepth? (hr : r.maxDepth? = none) :
    r.descend? = some { r with depth := r.depth + 1 } := by
  rw [Reader.descend?, hr]
  rfl

/-- A level of nesting makes no difference where there is no limit. -/
theorem SameRuns.nested (hp : SameRuns p q) : SameRuns (nested p) (nested q) := by
  intro r s hr hs hahead
  have hrp := run_nested (p := p) (descend?_of_maxDepth? hr)
  have hsq := run_nested (p := q) (descend?_of_maxDepth? hs)
  cases hp { r with depth := r.depth + 1 } { s with depth := s.depth + 1 } hr hs hahead with
  | failed hp hq =>
    rw [hp] at hrp
    rw [hq] at hsq
    exact .failed hrp hsq
  | found a n hn hp hq =>
    rw [hp] at hrp
    rw [hq] at hsq
    exact .found a n hn hrp hsq

/-- **The grammar keeps it that parsers see nothing but the tokens ahead**, with whatever limit the
one of them runs. -/
theorem sameRunsAt_congruence (sort : Option Nat → Nat → Prop) :
    Congruence (@SameRunsAt K sort) where
  pure a r s _ _ _ := .found a 0 (Nat.zero_le _) rfl rfl
  failHere error _ r s _ _ _ := .failed rfl rfl
  take? find? r s _ _ hahead := by
    have hpeek : s.peek? = r.peek? := by rw [r.peek?_eq, s.peek?_eq, hahead]
    have hrun (u : Reader K) : (take? find?).run u = (.ok (u.take? find?).1, (u.take? find?).2) :=
      rfl
    cases hfound : r.peek?.bind find? with
    | none =>
      refine .found none 0 (Nat.zero_le _) ?_ ?_
      · rw [hrun, Reader.take?, hfound]
        rfl
      · rw [hrun, Reader.take?, hpeek, hfound]
        rfl
    | some a =>
      obtain ⟨t, ht, -⟩ := Option.bind_eq_some_iff.1 hfound
      refine .found (some a) 1 (Reader.remaining_pos_of_peek? ht) ?_ ?_
      · rw [hrun, Reader.take?, hfound]
        rfl
      · rw [hrun, Reader.take?, hpeek, hfound]
        rfl
  remaining r s _ _ hahead := by
    have hrun (u : Reader K) : (remaining : Parser K Nat).run u = (.ok u.remaining, u) := rfl
    refine .found r.remaining 0 (Nat.zero_le _) (hrun r) ?_
    rw [hrun s, r.remaining_eq, s.remaining_eq, hahead]
    rfl
  look hf r s hr hs hahead := by
    have hpeek : r.peek? = s.peek? := by rw [r.peek?_eq, s.peek?_eq, hahead]
    cases hf r s hpeek r s hr hs hahead with
    | failed hp hq => exact .failed hp hq
    | found a n hn hp hq => exact .found a n hn hp hq
  bind := .bind
  speculate := .speculate

theorem sameRuns_congruence : Congruence (@SameRuns K) :=
  sameRunsAt_congruence fun limit? _ => limit? = none

/-! ## What one run tells about the others -/

/-- In front of the tokens the parser fails. -/
def Fails (p : Parser K α) (ts : List (Token K)) : Prop :=
  ∀ r : Reader K, r.maxDepth? = none → r.ahead = ts → ∃ e after, p.run r = (.error e, after)

variable {ts us vs ws rest : List (Token K)} {a b : α}

/-- A reader in front of the tokens. -/
theorem exists_reader (ts : List (Token K)) : ∃ r : Reader K, r.maxDepth? = none ∧ r.ahead = ts :=
  ⟨.ofTokens (ts.map (·, 0)) none, rfl, by
    rw [Reader.ahead_ofTokens, List.map_map]
    exact List.map_id ts⟩

/-- **A parser that sees the tokens ahead alone reads some of them or fails.** -/
theorem SameRuns.reads_or_fails (hp : SameRuns p p) (ts : List (Token K)) :
    (∃ vs ws a, ts = vs ++ ws ∧ Reads p vs ws a) ∨ Fails p ts := by
  obtain ⟨r, hr, hahead⟩ := exists_reader ts
  rcases hrun : p.run r with ⟨e | a, after⟩
  · refine .inr fun s hs hs' => ?_
    cases hp r s hr hs (hahead.trans hs'.symm) with
    | failed _ hq => exact ⟨_, _, hq⟩
    | found a n _ hp => rw [hp] at hrun; cases hrun
  · left
    cases hp r r hr hr rfl with
    | failed hp => rw [hp] at hrun; cases hrun
    | found b n hn hp' =>
      refine ⟨ts.take n, ts.drop n, b, (List.take_append_drop n ts).symm, fun s hs hs' => ?_⟩
      rw [List.take_append_drop] at hs'
      have hlength : (ts.take n).length = n := by
        rw [List.length_take, ← hahead, ← r.remaining_eq, Nat.min_eq_left hn]
      cases hp r s hr hs (hahead.trans hs'.symm) with
      | failed hp => rw [hp] at hp'; cases hp'
      | found c m _ hp hq =>
        rw [hp, Prod.mk.injEq, Except.ok.injEq] at hp'
        have hposition : r.position + m = r.position + n := congrArg Reader.position hp'.2
        rw [hq, hp'.1, hlength, Nat.add_left_cancel hposition]

/-- What a parser reads is determined by the tokens. -/
theorem Reads.unique (h : Reads p ts us a) (h' : Reads p vs ws b) (heq : ts ++ us = vs ++ ws) :
    ts = vs ∧ us = ws ∧ a = b := by
  obtain ⟨r, hr, hahead⟩ := exists_reader (ts ++ us)
  have hrun := h r hr hahead
  rw [h' r hr (hahead.trans heq), Prod.mk.injEq, Except.ok.injEq] at hrun
  have hposition : r.position + vs.length = r.position + ts.length :=
    congrArg Reader.position hrun.2
  obtain ⟨rfl, rfl⟩ := List.append_inj heq (Nat.add_left_cancel hposition).symm
  exact ⟨rfl, rfl, hrun.1.symm⟩

/-- A parser that reads something does not fail. -/
theorem Reads.not_fails (h : Reads p ts rest a) : ¬Fails p (ts ++ rest) := by
  intro hfails
  obtain ⟨r, hr, hahead⟩ := exists_reader (ts ++ rest)
  obtain ⟨e, after, hrun⟩ := hfails r hr hahead
  rw [h r hr hahead] at hrun
  cases hrun

/-- Without a find nothing is consumed. -/
theorem Reads.eq_nil {p : Parser K (Option α)} (hp : p.Decisive) (h : Reads p ts rest none) :
    ts = [] := by
  obtain ⟨r, hr, hahead⟩ := exists_reader (ts ++ rest)
  have hstill := hp r
  rw [h r hr hahead] at hstill
  have hposition : r.position + ts.length = r.position + 0 := congrArg Reader.position hstill
  exact List.eq_nil_of_length_eq_zero (Nat.add_left_cancel hposition)

/-! ## Parsers that fail -/

/-- A sequence fails with its first part. -/
theorem Fails.bind (h : Fails p ts) : Fails (p >>= f) ts := fun r hr hahead =>
  have ⟨e, after, hrun⟩ := h r hr hahead
  ⟨e, after, run_bind_error hrun⟩

/-- A parser that goes on as one that fails. -/
theorem GoesOn.fails (h : GoesOn p ts rest q) (hq : Fails q rest) : Fails p (ts ++ rest) :=
  fun r hr hahead => by
    rw [h r hr hahead]
    exact hq (r.skip ts.length) hr (Reader.ahead_skip_append hahead)

/-- A sequence fails with its second part. -/
theorem Reads.fails (hp : Reads p ts rest a) (hf : Fails (f a) rest) :
    Fails (p >>= f) (ts ++ rest) := hp.goesOn.fails hf

theorem Fails.failHere (error : Nat → ParseError) : Fails (failHere error : Parser K α) ts :=
  fun _ _ _ => ⟨_, _, rfl⟩

theorem Fails.speculate {p : Parser K (Option α)} (h : Fails p ts) : Fails (speculate p) ts :=
  fun r hr hahead =>
    have ⟨e, after, hrun⟩ := h r.mark.2 hr hahead
    ⟨e, after, run_speculate_error hrun⟩

theorem Fails.nested (h : Fails p ts) : Fails (nested p) ts := fun r hr hahead => by
  obtain ⟨e, after, hrun⟩ := h { r with depth := r.depth + 1 } hr hahead
  rw [run_nested (descend?_of_maxDepth? hr), hrun]
  exact ⟨_, _, rfl⟩

/-! ## Parsers that go on -/

/-- A sequence goes on as what a look at the next token chooses. -/
theorem GoesOn.inspect {k : Reader K → Parser K α} (hk : ∀ r, r.peek? = rest.head? → k r = q) :
    GoesOn (do k (← get)) [] rest q := by
  intro r _ hr
  have hget : (get : Parser K (Reader K)).run r = (.ok r, r) := rfl
  rw [run_bind_ok hget, hk r (by rw [r.peek?_eq, hr]; rfl)]
  rfl

/-- A parser in front of which nothing is consumed goes on where the other does. -/
theorem GoesOn.reads_append (h : GoesOn p ts (us ++ rest) q) (hq : Reads q us rest a) :
    Reads p (ts ++ us) rest a := fun r hr hahead => by
  rw [List.append_assoc] at hahead
  rw [h r hr hahead, hq (r.skip ts.length) hr (Reader.ahead_skip_append hahead), Reader.skip_skip,
    List.length_append]

/-- What is read beyond the tokens is read by the parser that goes on behind them. -/
theorem GoesOn.exists_reads (hq : SameRuns q q) (h : GoesOn p ts rest q) (hp : Reads p vs ws a)
    (heq : ts ++ rest = vs ++ ws) : ∃ us, vs = ts ++ us ∧ rest = us ++ ws ∧ Reads q us ws a := by
  rcases hq.reads_or_fails rest with ⟨us, us', b, rfl, hreads⟩ | hfails
  · have hread := h.reads_append hreads
    rw [← List.append_assoc] at heq
    obtain ⟨rfl, rfl, rfl⟩ := hread.unique hp heq
    exact ⟨us, rfl, rfl, hreads⟩
  · exact absurd (heq ▸ h.fails hfails) hp.not_fails

theorem GoesOn.nested (h : GoesOn p ts rest q) : GoesOn (nested p) ts rest (nested q) := by
  intro r hr hahead
  have hskip : (r.skip ts.length).maxDepth? = none := hr
  rw [run_nested (descend?_of_maxDepth? hr), run_nested (descend?_of_maxDepth? hskip),
    h { r with depth := r.depth + 1 } hr hahead]
  rfl

/-- What is read one level further in. -/
theorem Reads.of_nested (hp : SameRuns p p) (h : Reads (Parser.nested p) ts rest a) :
    Reads p ts rest a := by
  rcases hp.reads_or_fails (ts ++ rest) with ⟨vs, ws, b, heq, hreads⟩ | hfails
  · obtain ⟨rfl, rfl, rfl⟩ := h.unique hreads.nested heq
    exact hreads
  · exact absurd hfails.nested h.not_fails

/-- In front of `ts` and of `us`, each with `rest` behind it, the parser goes on alike. -/
def GoesAlike (p : Parser K α) (ts us rest : List (Token K)) : Prop :=
  ∃ q : Parser K α, SameRuns q q ∧ GoesOn p ts rest q ∧ GoesOn p us rest q

theorem GoesAlike.symm (h : GoesAlike p ts us rest) : GoesAlike p us ts rest :=
  have ⟨q, hq, hts, hus⟩ := h
  ⟨q, hq, hus, hts⟩

theorem GoesAlike.bind (h : GoesAlike p ts us rest) (hf : ∀ a, SameRuns (f a) (f a)) :
    GoesAlike (p >>= f) ts us rest :=
  have ⟨_, hq, hts, hus⟩ := h
  ⟨_, hq.bind hf, hts.bind, hus.bind⟩

theorem GoesAlike.nested (h : GoesAlike p ts us rest) : GoesAlike (nested p) ts us rest :=
  have ⟨_, hq, hts, hus⟩ := h
  ⟨_, hq.nested, hts.nested, hus.nested⟩

/-- What is read behind the ones is read behind the others. -/
theorem GoesAlike.reads (h : GoesAlike p ts us rest) (hp : Reads p vs ws a)
    (heq : ts ++ rest = vs ++ ws) :
    ∃ xs, vs = ts ++ xs ∧ rest = xs ++ ws ∧ Reads p (us ++ xs) ws a := by
  obtain ⟨q, hq, hts, hus⟩ := h
  obtain ⟨xs, rfl, rfl, hreads⟩ := hts.exists_reads hq hp heq
  exact ⟨xs, rfl, rfl, hus.reads_append hreads⟩

/-- Whether everything is read is the same. -/
theorem GoesAlike.reads_all (h : GoesAlike p ts us rest) (hp : Reads p (ts ++ rest) [] a) :
    Reads p (us ++ rest) [] a := by
  obtain ⟨xs, -, rfl, hreads⟩ := h.reads hp (List.append_nil _).symm
  rwa [List.append_nil]

end Parser

/-! ## The whole grammar -/

/-- With enough room for the tokens two grammars read the same. -/
theorem Parser.Tracks.reads {α : Type} {p q : Parser K α} {bound offset : Nat}
    {ts rest : List (Token K)} {a : α} (h : Tracks none none bound offset p q)
    (hlength : 2 * (ts ++ rest).length + offset ≤ bound) (hp : Reads p ts rest a) :
    Reads q ts rest a := by
  intro r hr hahead
  have hwithin : r.within none = r := by rw [Reader.within, ← hr]
  have hrun := hp r hr hahead
  cases h r (by rwa [r.remaining_eq, hahead]) with
  | limit _ _ hne => exact absurd rfl hne
  | same result after _ hp hq =>
    rw [hwithin] at hp hq
    exact (hq.trans hp.symm).trans hrun

variable [Scalar K]

/-- Nested constructs agree where there are enough levels for the tokens. -/
theorem Nest.parserWithin_selfTracks {bound levels levels' : Nat} (h : bound ≤ levels)
    (h' : bound ≤ levels') : Grammar.SelfTracks none none bound
      (Nest.parserWithin levels : Nest → Parser K _) (Nest.parserWithin levels') := by
  refine ⟨Nest.parserWithin_decisive levels, fun n => ?_⟩
  rw [← Nest.unrolled_nothing levels']
  exact Nest.parserWithin_tracks (.inl rfl) bound h h' n

/-- The parsers of nested constructs see nothing but the tokens ahead. -/
theorem Nest.parserWithin_sameRuns (levels : Nat) (n : Nest) :
    SameRuns (n.parserWithin levels : Parser K (Option (Expr K))) (n.parserWithin levels) := by
  induction levels generalizing n with
  | zero => exact sameRuns_congruence.pure none
  | succ levels ih => exact (Grammar.nest_related sameRuns_congruence ih n).nested

/-- A grammar that runs on the tokens as the parser of formulas does tells what is read from
them. -/
theorem parseTokens_iff_reads {located : List (Token K × Nat)} {maxDepth? : Option Nat} {e : Expr K}
    {q : Parser K (Option (Expr K))} (hq : SameRuns q q)
    (h : SameRun (.ofTokens located maxDepth?) (.ofTokens located none) Nest.statement.parser q) :
    parseTokens located maxDepth? = .ok e ↔ Reads q (located.map (·.1)) [] (some e) := by
  have hahead (limit? : Option Nat) := Reader.ahead_ofTokens located limit?
  rw [parseTokens]
  cases h with
  | failed hp hqrun =>
    simp only [hp]
    refine iff_of_false (fun h => by cases h) fun hreads => ?_
    rw [hreads _ rfl ((hahead none).trans (List.append_nil _).symm)] at hqrun
    cases hqrun
  | found a n hn hp hqrun =>
    rcases hq.reads_or_fails (located.map (·.1)) with ⟨ts, rest, found, heq, hreads⟩ | hfails
    · rw [hreads _ rfl ((hahead none).trans heq), Prod.mk.injEq, Except.ok.injEq] at hqrun
      obtain ⟨rfl, hskip⟩ := hqrun
      obtain rfl : ts.length = n := Nat.add_left_cancel (congrArg Reader.position hskip)
      have hpeek : ((Reader.ofTokens located maxDepth?).skip ts.length).peek? = rest.head? := by
        rw [Reader.peek?_eq, Reader.ahead_skip_append ((hahead _).trans heq)]
      rw [heq, hp]
      constructor
      · intro h
        cases found with
        | none => dsimp only at h; split at h <;> cases h
        | some e' =>
          cases rest with
          | cons => simp only [hpeek, List.head?_cons] at h; cases h
          | nil =>
            simp only [hpeek, List.head?_nil, Except.ok.injEq] at h
            rw [List.append_nil, ← h]
            exact hreads
      · intro h
        obtain ⟨-, rfl, rfl⟩ := hreads.unique h (List.append_nil _).symm
        simp only [hpeek, List.head?_nil]
    · obtain ⟨cause, after, hrun⟩ := hfails _ rfl (hahead none)
      rw [hrun] at hqrun
      cases hqrun

/-- **A formula is read from its tokens** without a limit on nesting exactly if the grammar reads it
in front of nothing else, with any number of levels that is enough for the tokens. -/
theorem parseTokens_iff {located : List (Token K × Nat)} {e : Expr K} (levels : Nat)
    (hlevels : 2 * located.length + 3 ≤ levels) : parseTokens located none = .ok e ↔
      Reads (Nest.statement.parserWithin levels) (located.map (·.1)) [] (some e) := by
  have hsame := Nest.parserWithin_sameRuns (K := K) levels .statement
  have hrun : (Nest.statement.parser : Parser K (Option (Expr K))).run (.ofTokens located none) =
      (Nest.statement.parserWithin levels).run (.ofTokens located none) := by
    rw [Nest.run_parser, ← Nest.unrolled_nothing levels]
    have hlimits : Limits none none := .inl rfl
    cases Nest.parser_tracksAt hlimits (fun _ => return none) located hlevels with
    | limit _ _ hne => exact absurd rfl hne
    | same result after _ hgrammar hunrolled => exact hgrammar.trans hunrolled.symm
  refine parseTokens_iff_reads hsame ?_
  cases hsame (.ofTokens located none) (.ofTokens located none) rfl rfl rfl with
  | failed hp hq => exact .failed (hrun.trans hp) hq
  | found a n hn hp hq => exact .found a n hn (hrun.trans hp) hq

end Formula

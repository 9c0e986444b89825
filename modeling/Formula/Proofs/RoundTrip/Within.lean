import Formula.Proofs.Parse.Yields
import Formula.Proofs.RoundTrip.Direct
import Formula.Proofs.WellFormed

/-!
# The text of a tree within the limit of its source

Reading a direct source enters at least the levels of nesting of the tree that is found: redundant
parentheses and plus signs only nest deeper. So a direct source is read as a plain tree only if there
is room for these levels (`levels_of_limited`), and with this room the text of the tree is read too.
-/

namespace Formula

open Formula.Grammar Formula.Parser Formula.Expr

variable {K : Type} {ts us : List (Token K)}

/-! ## Constructs that find no operation -/

/-- Whatever the parser finds is no number, no variable, no operator and no call. -/
def FindsOther (p : Parser K (Option (Expr K))) : Prop :=
  ∀ ts e us, Yields p ts (some e) us → e.isOperation = false

namespace FindsOther

variable {α : Type} {f : α → Parser K (Option (Expr K))} {p : Parser K α} {e : Expr K}

theorem nothing : FindsOther (pure none : Parser K (Option (Expr K))) := fun _ _ _ h => by
  cases h.pure.1

theorem found (he : e.isOperation = false) : FindsOther (pure (some e)) := fun _ _ _ h => by
  cases h.pure.1
  exact he

theorem behind (h : ∀ a, FindsOther (f a)) : FindsOther (p >>= f) := fun _ _ _ hyields => by
  obtain ⟨a, _, -, hfound⟩ := hyields.bind
  exact h a _ _ _ hfound

theorem behind_option {p : Parser K (Option α)} {f : Option α → Parser K (Option (Expr K))}
    (hnone : FindsOther (f none)) (hsome : ∀ a, FindsOther (f (some a))) :
    FindsOther (p >>= f) := by
  refine .behind fun a => ?_
  cases a with
  | none => exact hnone
  | some a => exact hsome a

theorem behind_bool {p : Parser K Bool} {f : Bool → Parser K (Option (Expr K))}
    (hfalse : FindsOther (f false)) (htrue : FindsOther (f true)) : FindsOther (p >>= f) := by
  refine .behind fun b => ?_
  cases b with
  | false => exact hfalse
  | true => exact htrue

/-- A tree that could be built. -/
theorem built {cause : Except BuildError (Expr K)} (h : ∀ e, cause = .ok e → e.isOperation = false) :
    FindsOther (do return some (← build cause)) := fun _ _ _ hyields => by
  obtain ⟨e, _, hbuild, hpure⟩ := hyields.bind
  cases hpure.pure.1
  cases cause with
  | error cause => exact absurd hbuild Yields.not_failHere
  | ok e' => exact h _ (congrArg _ hbuild.pure.1)

theorem defined {k value : Expr K} :
    FindsOther (do return some (← build (Expr.mkDefine k value))) := by
  refine .built fun e he => ?_
  unfold Expr.mkDefine at he
  split at he <;> cases he
  rfl

variable {self : Nest → Parser K (Option (Expr K))}

theorem stepOf (e : Expr K) : FindsOther (stepOf e) := by
  cases e with
  | var name => exact .behind_option .nothing fun _ => .found rfl
  | _ => exact .nothing

theorem vector : FindsOther (vector self) := .behind_option .nothing fun _ => .found rfl

theorem matrix : FindsOther (matrix self) := by
  refine .behind_option .nothing fun _ => .behind fun _ => .behind fun _ => .behind fun _ => ?_
  refine .built fun e he => ?_
  rw [mkMatrix_eq he]
  rfl

theorem compoundAssignment : FindsOther (compoundAssignment self) :=
  .behind_option .nothing fun _ => .behind fun _ => .found rfl

theorem truth : FindsOther (truth : Parser K (Option (Expr K))) :=
  .behind_option .nothing fun _ => .found rfl

theorem text : FindsOther (text : Parser K (Option (Expr K))) :=
  .behind_option .nothing fun _ => .found rfl

theorem definition : FindsOther (definition self) :=
  .behind_option .nothing fun _ => .behind fun _ => defined

theorem define : FindsOther (define self) :=
  .behind_bool .nothing <| .behind fun _ => .behind fun _ => .behind fun _ => .behind fun _ => defined

theorem undefine : FindsOther (undefine : Parser K (Option (Expr K))) := by
  refine .behind_bool .nothing <| .behind fun _ => .behind fun _ => .built fun e he => ?_
  unfold Expr.mkUndefine at he
  split at he <;> cases he
  rfl

variable [Scalar K]

theorem complexNumber : FindsOther (complexNumber : Parser K (Option (Expr K))) :=
  .behind_option .nothing fun _ => .behind fun _ => .behind fun _ => .behind fun _ => .found rfl

theorem ifStatement : FindsOther (ifStatement self) :=
  .behind_bool .nothing <| .behind fun _ => .behind fun _ => .behind fun _ =>
    .behind_bool (.behind fun _ => .found rfl) (.behind fun _ => .behind fun _ => .found rfl)

theorem forStatement : FindsOther (forStatement self) :=
  .behind_bool .nothing <| .behind fun _ => .behind fun _ => .behind fun _ => .behind fun _ =>
    .behind fun _ => .behind fun _ => .behind fun _ => .behind fun _ => .found rfl

theorem whileStatement : FindsOther (whileStatement self) :=
  .behind_bool .nothing <| .behind fun _ => .behind fun _ => .behind fun _ => .behind fun _ =>
    .found rfl

end FindsOther

/-! ## What is found in a direct source -/

/-- A plain tree found in a direct source has its levels of nesting within the room, and what it
leaves is a direct source behind an operand. -/
def Fits [Scalar K] (p : Parser K (Option (Expr K))) (place : Place) (strength room : Nat) : Prop :=
  ∀ ts e us, Yields p ts (some e) us → isDirectFrom place ts = true → e.Everywhere IsPlain →
    e.levelsAt strength ≤ room ∧ isDirectFrom .operand us = true

variable [Scalar K]

namespace Fits

variable {p : Parser K (Option (Expr K))} {ps : List (Parser K (Option (Expr K)))}
  {place : Place} {strength strength' room room' : Nat}

/-- More room does no harm, and a looser place asks for less. -/
theorem mono (h : Fits p place strength room) (hstrength : strength' ≤ strength)
    (hroom : room ≤ room') : Fits p place strength' room' := by
  intro ts e us hyields hdirect hplain
  obtain ⟨hlevels, hbehind⟩ := h ts e us hyields hdirect hplain
  exact ⟨Nat.le_trans (levelsAt_mono hstrength) (Nat.le_trans hlevels hroom), hbehind⟩

theorem of_findsOther (h : FindsOther p) : Fits p place strength room := by
  intro ts e us hyields _ hplain
  exact absurd hplain.root.operation (Bool.eq_false_iff.1 (h ts e us hyields))

theorem firstOf (hps : ∀ p ∈ ps, p.Decisive) (h : ∀ p ∈ ps, Fits p place strength room) :
    Fits (firstOf ps) place strength room := by
  intro ts e us hyields
  obtain ⟨p, hp, hfound⟩ := hyields.firstOf hps
  exact h p hp ts e us hfound

theorem nested (h : Fits p place strength room) : Fits (nested p) place strength room :=
  fun ts e us hyields => h ts e us hyields.nested

end Fits

/-- The parser of the nested constructs has room for so many levels in direct sources. Where it
finds nothing it has entered levels too. -/
structure HasRoom (nested : Nest → Parser K (Option (Expr K))) (room : Nat) : Prop where
  decisive : ∀ n, (nested n).Decisive
  expression : Fits (nested .expression) .start 0 room
  prefixed : ∀ place : Place, place.isOpen = true →
    Fits (nested .prefixed) place place.strength (room + 1)
  expression_none : ∀ ts us, Yields (nested .expression) ts none us → 2 ≤ room
  prefixed_none : ∀ ts us, Yields (nested .prefixed) ts none us → 1 ≤ room

namespace HasRoom

variable {self : Nest → Parser K (Option (Expr K))} {room : Nat} {place : Place} {e b : Expr K}
  {as : List (Expr K)} {k : Nat}

/-! ### Operands -/

omit [Scalar K] in
/-- A number without a unit. -/
theorem number_yields (h : Yields number ts (some e) us) (he : e.isOperation = true) :
    ∃ x, ts = .number x :: us ∧ e = .number x := by
  obtain ⟨value?, vs, hvalue, hrest⟩ := h.bind
  rcases hvalue.take? with ⟨rfl, -⟩ | ⟨t, x, rfl, ht, rfl⟩
  · cases hrest.pure.1
  · obtain rfl : t = .number x := by cases t <;> cases ht; rfl
    obtain ⟨unit?, ws, hunit, hpure⟩ := hrest.bind
    rcases hunit.take? with ⟨rfl, -, rfl⟩ | ⟨_, unit, rfl, -⟩
    · obtain ⟨hfound, rfl⟩ := hpure.pure
      exact ⟨x, rfl, (Option.some.inj hfound).symm⟩
    · obtain rfl := Option.some.inj hpure.pure.1
      cases he

/-- A call has its arguments for children. -/
theorem makeCall_yields (h : Yields (makeCall name as) ts e us) :
    ts = us ∧ e.children = as ∧ e.levelsAt atomPrecedence = levelsList as + 2 := by
  unfold makeCall at h
  split at h
  · next f _ =>
    cases hbuilt : mkBuiltin f as with
    | error cause =>
      rw [hbuilt] at h
      exact absurd h Yields.not_failHere
    | ok e' =>
      rw [hbuilt] at h
      obtain ⟨rfl, rfl⟩ := h.pure
      obtain ⟨rfl, -⟩ := mkBuiltin_eq_ok.1 hbuilt
      exact ⟨rfl, rfl, (levelsAt_of_le (Nat.le_refl _)).trans levels_builtin⟩
  · obtain ⟨rfl, rfl⟩ := h.pure
    exact ⟨rfl, rfl, (levelsAt_of_le (Nat.le_refl _)).trans levels_call⟩

/-- The expressions behind commas. -/
theorem moreItems_fits (h : HasRoom self room) {error : Nat → ParseError} (count : Nat)
    (hyields : Yields (moreItems (require error (self .expression)) count) ts as us)
    (hdirect : isDirectFrom .operand ts = true) (hplain : ∀ a ∈ as, a.Everywhere IsPlain) :
    (∀ a ∈ as, a.levels ≤ room) ∧ isDirectFrom .operand us = true := by
  induction count generalizing ts as with
  | zero =>
    obtain ⟨rfl, rfl⟩ := hyields.pure
    exact ⟨List.forall_mem_nil _, hdirect⟩
  | succ count ih =>
    obtain ⟨comma, vs, hcomma, hrest⟩ := hyields.bind
    rcases hcomma.symbol with ⟨rfl, rfl⟩ | ⟨rfl, rfl⟩
    · obtain ⟨rfl, rfl⟩ := hrest.pure
      exact ⟨List.forall_mem_nil _, hdirect⟩
    · obtain ⟨a, ws, hitem, htail⟩ := hrest.bind
      obtain ⟨more, xs, hmore, hpure⟩ := htail.bind
      obtain ⟨rfl, rfl⟩ := hpure.pure
      have hitem := h.expression _ _ _ hitem.require hdirect (hplain a (.head _))
      obtain ⟨hlevels, hbehind⟩ := ih hmore hitem.2 fun a ha => hplain a (.tail _ ha)
      have ha : a.levels ≤ room := a.levelsAt_zero ▸ hitem.1
      exact ⟨List.forall_mem_cons.2 ⟨ha, hlevels⟩, hbehind⟩

/-- The expressions in the parentheses of a call. -/
theorem expressions_fits (h : HasRoom self room) {construct : String}
    (hyields : Yields (expressions self construct) ts as us)
    (hdirect : isDirectFrom .start ts = true) (hplain : ∀ a ∈ as, a.Everywhere IsPlain) :
    levelsList as ≤ room ∧ (isDirectFrom .start us = true ∨ isDirectFrom .operand us = true) := by
  obtain ⟨first?, vs, hfirst, hrest⟩ := hyields.bind
  cases first? with
  | none =>
    obtain ⟨rfl, rfl⟩ := hrest.pure
    obtain rfl := hfirst.of_decisive (h.decisive _)
    exact ⟨h.expression_none _ _ hfirst, .inl hdirect⟩
  | some a =>
    obtain ⟨_, _, hremaining, htail⟩ := hrest.bind
    obtain rfl := hremaining.remaining
    obtain ⟨more, xs, hmore, hpure⟩ := htail.bind
    obtain ⟨rfl, rfl⟩ := hpure.pure
    have hfirst := h.expression _ _ _ hfirst hdirect (hplain a (.head _))
    have ha : a.levels ≤ room := a.levelsAt_zero ▸ hfirst.1
    obtain ⟨hlevels, hbehind⟩ :=
      h.moreItems_fits _ hmore hfirst.2 fun a ha => hplain a (.tail _ ha)
    have hroom : 2 ≤ room := Nat.le_trans a.two_le_levels ha
    exact ⟨levelsList_le hroom (List.forall_mem_cons.2 ⟨ha, hlevels⟩), .inr hbehind⟩

/-- The arguments of a call. -/
theorem arguments_fits (h : HasRoom self room)
    (hyields : Yields (arguments self) ts (some as) us)
    (hdirect : isDirectFrom .operand ts = true) (hplain : ∀ a ∈ as, a.Everywhere IsPlain) :
    levelsList as ≤ room ∧ isDirectFrom .operand us = true := by
  obtain ⟨opened, vs, hopen, hrest⟩ := hyields.bind
  rcases hopen.symbol with ⟨rfl, rfl⟩ | ⟨rfl, rfl⟩
  · cases hrest.pure.1
  · obtain ⟨found, ws, hfound, htail⟩ := hrest.bind
    obtain ⟨_, xs, hclose, hpure⟩ := htail.bind
    obtain ⟨hsome, rfl⟩ := hpure.pure
    obtain rfl := Option.some.inj hsome
    obtain rfl := hclose.expect
    obtain ⟨hlevels, hbehind⟩ := h.expressions_fits hfound hdirect hplain
    -- A closing parenthesis stands behind an operand, and also where there is no argument.
    exact ⟨hlevels, hbehind.elim id id⟩

/-- A call or a variable. -/
theorem functionOrVariable_fits (h : HasRoom self room) (hplace : place.isOpen = true) :
    Fits (functionOrVariable self) place atomPrecedence (room + 2) := by
  intro ts e us hyields hdirect hplain
  obtain ⟨name?, vs, hname, hrest⟩ := hyields.bind
  rcases hname.take? with ⟨rfl, -⟩ | ⟨t, name, rfl, ht, rfl⟩
  · cases hrest.pure.1
  · obtain rfl : t = .identifier name := by cases t <;> cases ht; rfl
    rw [isDirectFrom_identifier hplace] at hdirect
    obtain ⟨arguments?, ws, harguments, hfound⟩ := hrest.bind
    cases arguments? with
    | none =>
      obtain ⟨hvar, rfl⟩ := hfound.pure
      obtain rfl := Option.some.inj hvar
      obtain rfl := harguments.of_decisive (arguments_decisive h.decisive)
      exact ⟨Nat.le_add_left _ _, hdirect⟩
    | some as =>
      obtain ⟨e', xs, hcall, hpure⟩ := hfound.bind
      obtain ⟨hsome, rfl⟩ := hpure.pure
      obtain rfl := Option.some.inj hsome
      obtain ⟨rfl, hchildren, hlevels⟩ := makeCall_yields hcall
      obtain ⟨hle, hbehind⟩ :=
        h.arguments_fits harguments hdirect fun a ha => hplain.child a (hchildren ▸ ha)
      exact ⟨hlevels ▸ Nat.add_le_add_right hle 2, hbehind⟩

/-- Parentheses cost as much in the source as they do in the text. -/
theorem parentheses_fits (h : HasRoom self room) (hplace : place.isOpen = true) :
    Fits (parentheses self) place atomPrecedence (room + 2) := by
  intro ts e us hyields hdirect hplain
  obtain ⟨opened, vs, hopen, hrest⟩ := hyields.bind
  rcases hopen.symbol with ⟨rfl, rfl⟩ | ⟨rfl, rfl⟩
  · cases hrest.pure.1
  · obtain ⟨inner, ws, hinner, htail⟩ := hrest.bind
    obtain ⟨_, xs, hclose, hpure⟩ := htail.bind
    obtain ⟨hsome, rfl⟩ := hpure.pure
    obtain rfl := Option.some.inj hsome
    obtain rfl := hclose.expect
    obtain ⟨hlevels, hbehind⟩ :=
      h.expression _ _ _ hinner.require (isDirectFrom_parenthesis hplace ▸ hdirect) hplain
    rw [levelsAt_zero] at hlevels
    exact ⟨Nat.le_trans (levelsAt_le _ _) (Nat.add_le_add_right hlevels 2), hbehind⟩

/-- What operators apply to. -/
theorem operand_fits (h : HasRoom self room) (hplace : place.isOpen = true) :
    Fits (operand self) place atomPrecedence (room + 2) := by
  refine .firstOf (operands_decisive h.decisive) fun p hp => ?_
  simp only [List.mem_cons, List.not_mem_nil, or_false] at hp
  rcases hp with rfl | rfl | rfl | rfl | rfl | rfl | rfl | rfl
  · exact .of_findsOther .complexNumber
  · intro ts e us hyields hdirect hplain
    obtain ⟨x, rfl, rfl⟩ := number_yields hyields hplain.root.operation
    have hnumber : (number x).levelsAt atomPrecedence = 2 := by
      refine levelsAt_of_le ?_
      rw [precedence, hplain.root.unsigned x rfl]
      exact Nat.le_refl _
    exact ⟨hnumber ▸ Nat.le_add_left _ _, isDirectFrom_operand (isDirectFrom_number hplace ▸ hdirect)⟩
  · exact h.functionOrVariable_fits hplace
  · exact .of_findsOther .truth
  · exact .of_findsOther .text
  · exact h.parentheses_fits hplace
  · exact .of_findsOther .matrix
  · exact .of_findsOther .vector

/-! ### Operators of one operand and powers -/

/-- A factorial stands behind its operand without parentheses. -/
theorem factorials_yields (count : Nat) (h : Yields (factorials count e) ts b us)
    (hplain : b.Everywhere IsPlain) :
    e.Everywhere IsPlain ∧ b.levelsAt postfixedPrecedence = e.levelsAt postfixedPrecedence ∧
      (isDirectFrom .operand ts = true → isDirectFrom .operand us = true) := by
  induction count generalizing e ts with
  | zero =>
    obtain ⟨rfl, rfl⟩ := h.pure
    exact ⟨hplain, rfl, id⟩
  | succ count ih =>
    obtain ⟨sign, vs, hsign, hrest⟩ := h.bind
    rcases hsign.symbol with ⟨rfl, rfl⟩ | ⟨rfl, rfl⟩
    · obtain ⟨rfl, rfl⟩ := hrest.pure
      exact ⟨hplain, rfl, id⟩
    · obtain ⟨hfactorial, hlevels, hbehind⟩ := ih hrest
      refine ⟨hfactorial.child e (.head _), hlevels.trans ?_, hbehind⟩
      exact (levelsAt_of_le (Nat.le_refl _)).trans levels_factorial

/-- An operand with postfixed operators. -/
theorem postfixed_fits (h : HasRoom self room) (hplace : place.isOpen = true) :
    Fits (postfixed self) place postfixedPrecedence (room + 2) := by
  intro ts e us hyields hdirect hplain
  obtain ⟨operand?, vs, hoperand, hrest⟩ := hyields.bind
  cases operand? with
  | none => cases hrest.pure.1
  | some a =>
    obtain ⟨step?, ws, hstep, hbehind⟩ := hrest.bind
    cases step? with
    | some step =>
      obtain rfl := Option.some.inj hbehind.pure.1
      exact absurd hplain.root.operation (Bool.eq_false_iff.1 (FindsOther.stepOf a _ _ _ hstep))
    | none =>
      obtain rfl := hstep.of_decisive (stepOf_decisive a)
      obtain ⟨_, _, hremaining, htail⟩ := hbehind.bind
      obtain rfl := hremaining.remaining
      obtain ⟨b, xs, hfactorials, hpure⟩ := htail.bind
      obtain ⟨hsome, rfl⟩ := hpure.pure
      obtain rfl := Option.some.inj hsome
      obtain ⟨ha, hlevels, hbehind⟩ := factorials_yields _ hfactorials hplain
      obtain ⟨hoperand, hdirect⟩ := h.operand_fits hplace _ _ _ hoperand hdirect ha
      exact ⟨hlevels ▸ Nat.le_trans (levelsAt_mono (by decide)) hoperand, hbehind hdirect⟩

/-- A postfixed operand, and an exponent that has no prefixed operator but plus signs. -/
theorem power_fits (h : HasRoom self room) (hplace : place.isOpen = true) :
    Fits (power self) place 14 (room + 2) := by
  intro ts e us hyields hdirect hplain
  obtain ⟨base?, vs, hbase, hrest⟩ := hyields.bind
  cases base? with
  | none => cases hrest.pure.1
  | some a =>
    obtain ⟨caret, ws, hcaret, hexponent⟩ := hrest.bind
    rcases hcaret.symbol with ⟨rfl, rfl⟩ | ⟨rfl, rfl⟩
    · obtain ⟨hsome, rfl⟩ := hexponent.pure
      obtain rfl := Option.some.inj hsome
      exact (h.postfixed_fits hplace).mono (by decide) (Nat.le_refl _) _ _ _ hbase hdirect hplain
    · obtain ⟨b, xs, hb, hpure⟩ := hexponent.bind
      obtain ⟨hsome, rfl⟩ := hpure.pure
      obtain rfl := Option.some.inj hsome
      obtain ⟨ha, hdirect⟩ :=
        h.postfixed_fits hplace _ _ _ hbase hdirect (hplain.child a (.head _))
      obtain ⟨hb, hbehind⟩ :=
        h.prefixed .signed rfl _ _ _ hb.require hdirect (hplain.child b (.tail _ (.head _)))
      have hlevels : (binary .pow a b).levelsAt 14 = max (a.levelsAt 15) (b.levelsAt 14 + 1) :=
        (levelsAt_of_le (Nat.le_refl _)).trans levels_pow
      exact ⟨hlevels ▸ Nat.max_le.2 ⟨ha, Nat.add_le_add_right hb 1⟩, hbehind⟩

/-- A prefixed operator with its operand, or a power. -/
theorem prefixed_fits (h : HasRoom self room) (hplace : place.isOpen = true) :
    Fits (Grammar.prefixed self) place place.strength (room + 2) := by
  intro ts e us hyields hdirect hplain
  obtain ⟨r, hpeek, hrest⟩ := hyields.inspect
  rw [hpeek] at hrest
  cases happly : ts.head?.bind prefixed? with
  | none =>
    rw [happly] at hrest
    have hstrength : place.strength ≤ 14 := by cases place <;> decide
    exact (h.power_fits hplace).mono hstrength (Nat.le_refl _) _ _ _ hrest hdirect hplain
  | some apply =>
    rw [happly] at hrest
    obtain ⟨sign?, vs, hsign, hrest⟩ := hrest.speculate.bind
    obtain ⟨a?, ws, ha, hpure⟩ := hrest.bind
    obtain ⟨hsome, rfl⟩ := hpure.pure
    obtain ⟨a, rfl, rfl⟩ := Option.map_eq_some_iff.1 hsome
    obtain ⟨t, hhead, ht⟩ := Option.bind_eq_some_iff.1 happly
    obtain ⟨tail, rfl⟩ := List.head?_eq_some_iff.1 hhead
    obtain rfl : tail = vs := by
      rcases hsign.take? with ⟨-, hnone, -⟩ | ⟨_, _, -, -, hcons⟩
      · cases hnone.symm.trans ht
      · exact (List.cons.inj hcons).2
    rcases isDirectFrom_sign hplace ht hdirect with
      ⟨rfl, hoperand⟩ | ⟨op, hop, rfl, rfl, hoperand⟩
    · exact (h.prefixed place hplace).mono (Nat.le_refl _) (by omega) _ _ _ ha hoperand hplain
    · obtain ⟨ha, hbehind⟩ :=
        h.prefixed .signed rfl _ _ _ ha hoperand (hplain.child a (.head _))
      have hprecedence : prefixedPrecedence ≤ (unary op a).precedence := by
        cases op <;> first | exact Nat.le_refl _ | cases hop
      have hlevels : (unary op a).levelsAt prefixedPrecedence = a.levelsAt 14 + 1 :=
        (levelsAt_of_le hprecedence).trans (levels_prefixed hop)
      exact ⟨hlevels ▸ Nat.add_le_add_right ha 1, hbehind⟩

/-! ### The ladder of binary operators -/

/-- A name or a parenthesis opens the right factor of an implicit product. -/
theorem factor_opens (h : HasRoom self room)
    (hyields : Yields (firstOf [namedFactor self, parentheses self, matrix self, vector self]) ts
      (some e) us) (he : e.isOperation = true) : ts.head?.any opensFactor = true := by
  obtain ⟨p, hp, hfound⟩ := hyields.firstOf (factors_decisive h.decisive)
  simp only [List.mem_cons, List.not_mem_nil, or_false] at hp
  rcases hp with rfl | rfl | rfl | rfl
  · obtain ⟨base?, vs, hbase, hrest⟩ := hfound.bind
    cases base? with
    | none => cases hrest.pure.1
    | some base =>
      obtain ⟨name?, ws, hname, hcall⟩ := hbase.bind
      rcases hname.take? with ⟨rfl, -⟩ | ⟨t, name, rfl, ht, rfl⟩
      · cases hcall.pure.1
      · cases t <;> cases ht
        rfl
  · obtain ⟨opened, vs, hopen, hrest⟩ := hfound.bind
    rcases hopen.symbol with ⟨rfl, rfl⟩ | ⟨rfl, rfl⟩
    · cases hrest.pure.1
    · rfl
  · exact absurd he (Bool.eq_false_iff.1 (FindsOther.matrix _ _ _ hfound))
  · exact absurd he (Bool.eq_false_iff.1 (FindsOther.vector _ _ _ hfound))

/-- A direct source has no implicit product. -/
theorem numberTimes_fits {strength : Nat} (h : HasRoom self room) :
    Fits (numberTimes self) .start strength room := by
  intro ts e us hyields hdirect hplain
  obtain ⟨negative, vs, hminus, hrest⟩ := hyields.speculate.bind
  obtain ⟨factor?, ws, hfactor, hrest⟩ := hrest.bind
  cases factor? with
  | none => cases hrest.pure.1
  | some f =>
    obtain ⟨right?, xs, hright, hpure⟩ := hrest.bind
    cases right? with
    | none => cases hpure.pure.1
    | some b =>
      obtain rfl := Option.some.inj hpure.pure.1
      obtain ⟨place, hplace, hdirect, hf⟩ : ∃ place : Place, place.isOpen = true ∧
          isDirectFrom place vs = true ∧ f.isOperation = true := by
        have hleft := hplain.child _ (.head _)
        rcases hminus.symbol with ⟨rfl, rfl⟩ | ⟨rfl, rfl⟩
        · exact ⟨.start, rfl, hdirect, hleft.root.operation⟩
        · exact ⟨.signed, rfl, hdirect, (hleft.child f (.head _)).root.operation⟩
      obtain ⟨x, rfl, rfl⟩ := number_yields hfactor hf
      exact absurd (h.factor_opens hright (hplain.child b (.tail _ (.head _))).root.operation)
        (Bool.eq_false_iff.1 (not_opensFactor (isDirectFrom_number hplace ▸ hdirect)))

/-- An implicit product or a prefixed operand. -/
theorem implicitProduct_fits (h : HasRoom self room) :
    Fits (implicitProduct self) .start prefixedPrecedence (room + 1) := by
  refine .firstOf (products_decisive h.decisive) fun p hp => ?_
  simp only [List.mem_cons, List.not_mem_nil, or_false] at hp
  rcases hp with rfl | rfl
  · exact h.numberTimes_fits.mono (Nat.le_refl _) (Nat.le_succ _)
  · exact h.prefixed .start rfl

/-- The operators of a rung behind a left operand. -/
theorem chain_fits {next : Parser K (Option (Expr K))} {p : Nat} (hp : p ∈ rungs)
    (hnext : Fits next .start (p + 1) k) (count : Nat)
    (h : Yields (chain p next count e) ts b us) (hplain : b.Everywhere IsPlain) :
    e.Everywhere IsPlain ∧ (isDirectFrom .operand ts = true → e.levelsAt p ≤ k →
      b.levelsAt p ≤ k ∧ isDirectFrom .operand us = true) := by
  induction count generalizing e ts with
  | zero =>
    obtain ⟨rfl, rfl⟩ := h.pure
    exact ⟨hplain, fun hdirect he => ⟨he, hdirect⟩⟩
  | succ count ih =>
    obtain ⟨op?, vs, hop, hrest⟩ := h.bind
    rcases hop.take? with ⟨rfl, -, rfl⟩ | ⟨t, op, rfl, ht, rfl⟩
    · obtain ⟨rfl, rfl⟩ := hrest.pure
      exact ⟨hplain, fun hdirect he => ⟨he, hdirect⟩⟩
    · obtain ⟨right, ws, hright, htail⟩ := hrest.bind
      obtain ⟨hoperation, hrest⟩ := ih htail
      refine ⟨hoperation.child e (.head _), fun hdirect he => ?_⟩
      obtain ⟨hbinary, hprecedence⟩ := Option.filter_eq_some_iff.1 ht
      obtain rfl := eq_of_beq hprecedence
      obtain ⟨hright, hbehind⟩ := hnext _ _ _ hright.require (isDirectFrom_binary hbinary hp hdirect)
        (hoperation.child right (.tail _ (.head _)))
      have hlevels : (binary op e right).levelsAt op.precedence =
          max (e.levelsAt op.precedence) (right.levelsAt (op.precedence + 1)) :=
        (levelsAt_of_le (Nat.le_refl _)).trans (levels_rung hp)
      exact hrest hbehind (hlevels ▸ Nat.max_le.2 ⟨he, hright⟩)

/-- Operators of a rung and of all tighter ones. -/
theorem ladder_fits (h : HasRoom self room) (n : Nat) : ∀ p, p + n = prefixedPrecedence → 2 ≤ p →
    Fits (ladder self (List.range' p n)) .start p (room + 1) := by
  induction n with
  | zero =>
    rintro p rfl -
    exact h.implicitProduct_fits
  | succ n ih =>
    intro p hn hp ts e us hyields hdirect hplain
    have hnext := ih (p + 1) (Nat.succ_add_eq_add_succ p n ▸ hn) (Nat.le_succ_of_le hp)
    have hlt : p < 2 + 11 := by
      rw [prefixedPrecedence] at hn
      omega
    have hrung : p ∈ rungs := (List.mem_range'_1 : p ∈ List.range' 2 11 ↔ _).2 ⟨hp, hlt⟩
    obtain ⟨left?, vs, hleft, hrest⟩ := hyields.bind
    cases left? with
    | none => cases hrest.pure.1
    | some left =>
      obtain ⟨_, _, hremaining, htail⟩ := hrest.bind
      obtain rfl := hremaining.remaining
      obtain ⟨b, xs, hchain, hpure⟩ := htail.bind
      obtain ⟨hsome, rfl⟩ := hpure.pure
      obtain rfl := Option.some.inj hsome
      obtain ⟨hplain, hrest⟩ := chain_fits hrung hnext _ hchain hplain
      obtain ⟨hleft, hdirect⟩ := hnext _ _ _ hleft hdirect hplain
      exact hrest hdirect (Nat.le_trans (levelsAt_mono (Nat.le_succ p)) hleft)

/-- A condition without branches. -/
theorem conditional_fits (h : HasRoom self room) :
    Fits (conditional self) .start 0 (room + 1) := by
  intro ts e us hyields hdirect hplain
  obtain ⟨condition?, vs, hcondition, hrest⟩ := hyields.bind
  cases condition? with
  | none => cases hrest.pure.1
  | some c =>
    obtain ⟨question, ws, hquestion, hbehind⟩ := hrest.bind
    rcases hquestion.symbol with ⟨rfl, rfl⟩ | ⟨rfl, rfl⟩
    · obtain ⟨hsome, rfl⟩ := hbehind.pure
      obtain rfl := Option.some.inj hsome
      exact (h.ladder_fits 11 2 rfl (Nat.le_refl _)).mono (Nat.zero_le _) (Nat.le_refl _) _ _ _
        hcondition hdirect hplain
    · obtain ⟨yes, xs, -, hrest⟩ := hbehind.bind
      obtain ⟨_, ys, -, hrest⟩ := hrest.bind
      obtain ⟨no, zs, -, hrest⟩ := hrest.bind
      obtain rfl := Option.some.inj hrest.pure.1
      cases hplain.root.operation

/-! ### One level further in -/

/-- Where there is no expression a prefixed operand has been looked for. -/
theorem ladder_none (h : HasRoom self room) (precedences : List Nat)
    (hyields : Yields (ladder self precedences) ts none us) : 1 ≤ room := by
  induction precedences generalizing ts us with
  | nil =>
    exact h.prefixed_none _ _
      (hyields.firstOf_none (products_decisive h.decisive) _ (.tail _ (.head _)))
  | cons p tighter ih =>
    obtain ⟨left?, vs, hleft, hrest⟩ := hyields.bind
    cases left? with
    | none => exact ih hleft
    | some left =>
      obtain ⟨_, _, -, htail⟩ := hrest.bind
      obtain ⟨_, _, -, hpure⟩ := htail.bind
      cases hpure.pure.1

theorem conditional_none (h : HasRoom self room) (hyields : Yields (conditional self) ts none us) :
    1 ≤ room := by
  obtain ⟨condition?, vs, hcondition, hrest⟩ := hyields.bind
  cases condition? with
  | none => exact h.ladder_none _ hcondition
  | some c =>
    obtain ⟨question, ws, hquestion, hbehind⟩ := hrest.bind
    cases question with
    | false => cases hbehind.pure.1
    | true =>
      obtain ⟨_, _, -, hrest⟩ := hbehind.bind
      obtain ⟨_, _, -, hrest⟩ := hrest.bind
      obtain ⟨_, _, -, hrest⟩ := hrest.bind
      cases hrest.pure.1

/-- Each level of nesting adds to the room. -/
theorem nest (h : HasRoom self room) : HasRoom (fun n => nested (Grammar.nest self n)) (room + 1) where
  decisive n := .nested (nest_decisive h.decisive n)
  expression := by
    refine .nested (.firstOf (expressions_decisive h.decisive) fun p hp => ?_)
    simp only [List.mem_cons, List.not_mem_nil, or_false] at hp
    rcases hp with rfl | rfl
    · exact .of_findsOther .compoundAssignment
    · exact h.conditional_fits
  prefixed place hplace := .nested (h.prefixed_fits hplace)
  expression_none ts us hyields := by
    have hnone := hyields.nested.firstOf_none (expressions_decisive h.decisive) _ (.tail _ (.head _))
    exact Nat.succ_le_succ (h.conditional_none hnone)
  prefixed_none ts us _ := Nat.succ_pos _

/-- What stands in the place of a statement. -/
theorem statement_fits (h : HasRoom self room) : Fits (Grammar.nest self .statement) .start 0 room := by
  refine .firstOf (statements_decisive h.decisive) fun p hp => ?_
  simp only [List.mem_cons, List.not_mem_nil, or_false] at hp
  rcases hp with rfl | rfl | rfl | rfl | rfl | rfl | rfl | rfl
  · exact .of_findsOther .compoundAssignment
  · exact .of_findsOther .definition
  · exact .of_findsOther .define
  · exact .of_findsOther .undefine
  · exact .of_findsOther .ifStatement
  · exact .of_findsOther .forStatement
  · exact .of_findsOther .whileStatement
  · exact h.expression

end HasRoom

/-- The grammar that is cut below so many levels has room for them. -/
theorem Nest.limited_hasRoom (room : Nat) : HasRoom (Nest.limited (K := K) room) room := by
  induction room with
  | zero =>
    exact {
      decisive := fun _ _ => rfl
      expression := fun _ _ _ h => absurd h Yields.not_failHere
      prefixed := fun _ _ _ _ _ h => absurd h Yields.not_failHere
      expression_none := fun _ _ h => absurd h Yields.not_failHere
      prefixed_none := fun _ _ h => absurd h Yields.not_failHere }
  | succ room ih => exact ih.nest

/-- **A direct source** is read as a plain tree only with more levels of nesting than the tree has. -/
theorem levels_of_limited {m : Nat} {e : Expr K}
    (h : Yields (Nest.statement.limited m) ts (some e) us) (hdirect : isDirect ts = true)
    (hplain : e.Everywhere IsPlain) : e.levels < m := by
  cases m with
  | zero => exact absurd h Yields.not_failHere
  | succ m =>
    have hlevels := ((Nest.limited_hasRoom m).statement_fits _ _ _ h.nested hdirect hplain).1
    rw [levelsAt_zero] at hlevels
    exact Nat.lt_succ_of_le hlevels

/-! ## Texts -/

variable {s : Bool} {e : Expr K}

/-- A tree of numbers, variables, operators and calls that was read is plain. -/
theorem Grammatical.isPlain (h : Grammatical Token.IsLexed s e)
    (hplain : e.occurs (fun e => !e.isOperation) = false) : e.Everywhere IsPlain := by
  refine h.everywhere.imp₂ (fun e hnode hoperation => ?_) (everywhere_of_occurs hplain)
  refine ⟨?_, Bool.not_eq_eq_eq_not.1 hoperation⟩
  rintro x rfl
  exact hnode.unsigned

/-- What is read within a limit is read within a laxer one. -/
theorem parseTokens_raise {located : List (Token K × Nat)} {m m' : Nat} (hle : m ≤ m')
    (h : parseTokens located (some m) = .ok e) : parseTokens located (some m') = .ok e := by
  have hlimits : Limits (some m) (some m') := .inr ⟨m, rfl, decide_eq_true hle⟩
  rcases parseTokens_limits hlimits located with ⟨hsame, -⟩ | ⟨_, _, _, -, herror⟩
  · exact hsame ▸ h
  · cases h.symm.trans herror

/-- The tokens of a plain tree are read within a limit exactly if it leaves room for the levels of
nesting of the tree, and they are read as the tree. -/
theorem Grammatical.parseTokens_iff (h : Grammatical Token.IsLexed s e) (he : e.Everywhere IsPlain)
    {located : List (Token K × Nat)} (hlocated : located.map (·.1) = e.tokens) {m : Nat}
    {e' : Expr K} : parseTokens located (some m) = .ok e' ↔ e' = e ∧ e.levels < m := by
  have hreads {m : Nat} (hm : e.levels < m) : parseTokens located (some m) = .ok e :=
    parseTokens_limited_iff.2 (hlocated ▸ h.reads_limited he hm)
  refine ⟨fun hparse => ?_, fun ⟨heq, hm⟩ => heq ▸ hreads hm⟩
  obtain rfl : e' = e := by
    have hlax := parseTokens_raise (Nat.le_max_left m (e.levels + 1)) hparse
    exact Except.ok.inj (hlax.symm.trans (hreads (Nat.le_max_right m (e.levels + 1))))
  have hyields := (parseTokens_limited_iff.1 hparse).yields
  rw [hlocated, List.append_nil] at hyields
  exact ⟨rfl, levels_of_limited hyields (isDirect_tokens he) he⟩

namespace Expr

/-- **A text within the limit of its source.** Let a source be read within a limit on nesting as a
tree of finite numbers, variables, operators and calls. Its text is read within a limit exactly if
the levels of nesting of the tree are fewer, and then as the tree. If the source is direct, so that
it has no product without a sign, and no prefixed operator but plus signs directly behind another
one or a caret, then its own limit is enough. -/
theorem parse_text_within {m : Nat} {source : String} {t : Expr Binary64}
    (h : parseWithin (some m) source = .ok t) (hfinite : t.occurs isUnbounded = false)
    (hplain : t.occurs (fun e => !e.isOperation) = false) :
    (∀ m' e, parseWithin (some m') t.text = .ok e ↔ e = t ∧ t.levels < m') ∧
      ∀ located : List (Token Binary64 × Nat), tokenize source = .ok located →
        isDirect (located.map (·.1)) = true → parseWithin (some m) t.text = .ok t := by
  have hgrammatical := grammatical_of_parse h
  have htree := hgrammatical.isPlain hplain
  obtain ⟨tokens, htokens, hparse⟩ :=
    hgrammatical.tokenize_text (fun _ => Binary64.readsBack) hfinite
  refine ⟨fun m' e => ?_, fun located hlocated hdirect => ?_⟩
  · rw [hparse]
    exact hgrammatical.parseTokens_iff htree htokens
  · have hsource : parseTokens located (some m) = .ok t := by
      rw [parseWithin, hlocated] at h
      split at h
      · cases h
      · exact h
    have hyields := (parseTokens_limited_iff.1 hsource).yields
    rw [List.append_nil] at hyields
    rw [hparse]
    exact (hgrammatical.parseTokens_iff htree htokens).2
      ⟨rfl, levels_of_limited hyields hdirect htree⟩

/-- Whether the text is read within the limit as a tree that passes the test. -/
def isReadWithin (m : Nat) (source : String) (test : Expr Binary64 → Bool) : Bool :=
  (parseWithin (some m) source : Except ParseError (Expr Binary64)).toOption.any test

/-- A text that is read within a limit has a tree. -/
theorem exists_of_isReadWithin {m : Nat} {source : String} {test : Expr Binary64 → Bool}
    (h : isReadWithin m source test = true) :
    ∃ t, parseWithin (some m) source = .ok t ∧ test t = true :=
  Result.ok_of_toOption_any h

/-- Whether the source is direct. -/
def hasDirectTokens (source : String) : Bool :=
  (tokenize source : Except ParseError (List (Token Binary64 × Nat))).toOption.any fun located =>
    isDirect (located.map (·.1))

/-- A direct source is cut into tokens. -/
theorem exists_of_hasDirectTokens {source : String} (h : hasDirectTokens source = true) :
    ∃ located : List (Token Binary64 × Nat), tokenize source = .ok located ∧
      isDirect (located.map (·.1)) = true :=
  Result.ok_of_toOption_any h

/-- Parentheses that are needed and others that are not, and a minus sign in front of another one. -/
theorem sample_sources :
    hasDirectTokens "-max((x), 2) * (y + 3!) ^ +z" = true ∧
      isReadWithin 8 "-max((x), 2) * (y + 3!) ^ +z" (fun t =>
        !t.occurs isUnbounded && !t.occurs fun e => !e.isOperation) = true ∧
      isReadWithin 5 "- -x" (fun t => !t.occurs isUnbounded && (!t.occurs fun e => !e.isOperation) &&
        !isReadWithin 5 t.text fun _ => true) = true := by
  decide +kernel

/-- A product with parentheses that the text does not have. -/
theorem parse_text_within_product : ∃ t : Expr Binary64,
    parseWithin (some 8) "-max((x), 2) * (y + 3!) ^ +z" = .ok t ∧ t.occurs isUnbounded = false ∧
      t.occurs (fun e => !e.isOperation) = false ∧
        (∀ m' e, parseWithin (some m') t.text = .ok e ↔ e = t ∧ t.levels < m') ∧
          parseWithin (some 8) t.text = .ok t := by
  obtain ⟨located, hlocated, hdirect⟩ := exists_of_hasDirectTokens sample_sources.1
  obtain ⟨t, hparse, ht⟩ := exists_of_isReadWithin sample_sources.2.1
  rw [Bool.and_eq_true, Bool.not_eq_true', Bool.not_eq_true'] at ht
  obtain ⟨hiff, hwithin⟩ := parse_text_within hparse ht.1 ht.2
  exact ⟨t, hparse, ht.1, ht.2, hiff, hwithin located hlocated hdirect⟩

/-- A minus sign in front of another one gets parentheses, and these need two levels more. -/
theorem parse_text_signs : ¬∀ (m : Nat) (source : String) (t : Expr Binary64),
    parseWithin (some m) source = .ok t → t.occurs isUnbounded = false →
      t.occurs (fun e => !e.isOperation) = false →
        ∃ e : Expr Binary64, parseWithin (some m) t.text = .ok e := by
  intro h
  obtain ⟨t, hparse, ht⟩ := exists_of_isReadWithin sample_sources.2.2
  simp only [Bool.and_eq_true, Bool.not_eq_true'] at ht
  obtain ⟨⟨hfinite, hplain⟩, hunread⟩ := ht
  obtain ⟨e, he⟩ := h 5 "- -x" t hparse hfinite hplain
  rw [isReadWithin, he] at hunread
  cases hunread

end Expr

end Formula

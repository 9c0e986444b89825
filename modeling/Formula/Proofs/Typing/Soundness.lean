import Formula.Proofs.Eval
import Formula.Proofs.Scalar.Order
import Formula.Proofs.Typing.Functions

/-!
# Predicted types are the types of values

`Expr.type?` looks at a tree alone, `Expr.evalWithin` runs it in an environment that binds its
variables to anything. Two theorems relate them, for every tree and every environment.

* A predicted type is the type of every value the tree evaluates to, unless a root or a logarithm
  is overlooked: where the type of an argument is unknown, `Typing.callUnknown` lets `root` and
  `log` be numbers without asking for a base that is not negative. `Expr.overlooks` says when the
  value of a tree can be reached by such a call.
* A tree that is evaluated as a whole, without a condition or a loop, and has no type, has no value.

Both come from one induction over the tree. For a tree and one of its values it shows that the
analysis succeeds if the tree is evaluated as a whole, and that in any case a type that the analysis
gives admits the value. `Judged` packs the two together and composes along the steps of the
analysis.
-/

namespace Formula

namespace Typing

variable {p q : Bool} {s t u actual : ValueType} {guess g : TypeGuess}

/-! ## Judgements -/

/-- The analysis `x` succeeds if `strict`, and what it finds satisfies `P`. -/
def Judged {α : Type} (strict : Bool) (x : Except TypeError α) (P : α → Prop) : Prop :=
  (strict = true → ∃ a, x = .ok a) ∧ ∀ a, x = .ok a → P a

section

variable {α β : Type} {strict strict' : Bool} {x : Except TypeError α} {P : α → Prop}

/-- An analysis that succeeds. -/
theorem Judged.ok {a : α} (h : P a) : Judged strict (.ok a) P :=
  ⟨fun _ => ⟨a, rfl⟩, fun _ ha => by cases ha; exact h⟩

/-- An analysis that is known to succeed. -/
theorem Judged.of_exists (h : ∃ a, x = .ok a ∧ P a) : Judged strict x P := by
  obtain ⟨a, rfl, ha⟩ := h
  exact .ok ha

/-- An analysis that nothing is asked of. -/
theorem Judged.any : Judged false x fun _ => True := ⟨nofun, fun _ _ => trivial⟩

/-- Less may be asked of an analysis. -/
theorem Judged.weaken (h : Judged strict x P) (hs : strict' = true → strict = true) :
    Judged strict' x P := ⟨fun h' => h.1 (hs h'), h.2⟩

/-- An analysis that need not succeed. -/
theorem Judged.partially (h : Judged strict x P) : Judged false x P := h.weaken nofun

/-- A sequence of analyses. -/
theorem Judged.bind {f : α → Except TypeError β} {Q : β → Prop} (h : Judged strict x P)
    (hf : ∀ a, x = .ok a → P a → Judged strict (f a) Q) : Judged strict (x >>= f) Q := by
  cases x with
  | error e => exact ⟨fun hs => (by obtain ⟨a, ha⟩ := h.1 hs; cases ha), nofun⟩
  | ok a => exact hf a rfl (h.2 a rfl)

end

/-! ## Nodes without functions -/

/-- A result of operators that fits the value is admitted by what the results have in common. -/
theorem orMismatch_admits {cause : TypeError} {results : List ValueType} (hs : s ∈ results)
    (h : Fits p s actual) : ∃ g, Expr.orMismatch cause results = .ok g ∧ Admits p g actual := by
  obtain ⟨g, hg⟩ := unify_isSome hs
  refine ⟨g, by rw [Expr.orMismatch, hg], fun t ht => ?_⟩
  subst ht
  exact eq_of_unify hg hs ▸ h

/-- What results of one type have in common is that type. -/
theorem orMismatch_same {cause : TypeError} {results : List ValueType} (h : ∀ r ∈ results, r = t) :
    Judged false (Expr.orMismatch cause results) (Admits p · t) := by
  refine ⟨nofun, fun g hg s hs => ?_⟩
  subst hs
  cases results with
  | nil => cases hg
  | cons r rs =>
    rw [Expr.orMismatch] at hg
    split at hg
    · next hunify =>
      cases hg
      exact .inl ((h r (.head _)).symm.trans (eq_of_unify hunify (.head _)))
    · cases hg

/-- An element or a condition of the right type passes the check. -/
theorem checkType_of_admits {kind : Kind} (h : Admits p guess actual) (ht : actual ≠ .complex) :
    Expr.checkType kind actual guess = .ok () := by
  refine if_pos ?_
  cases guess with
  | none => exact .inl rfl
  | some s => exact .inr (by rw [(h s rfl).eq_of_ne ht])

/-- A guess that is given up where it is not certain needs no excuse for being uncertain. -/
theorem Admits.provided {certain : Bool} (h : Admits (p || q) guess actual)
    (hq : certain = true → q = false) : Admits p (provided certain guess) actual := by
  unfold Typing.provided
  split
  · exact .unknown
  · next hcertain =>
    intro t ht
    refine (h t ht).imp_right fun ⟨hpq, hnumber, hcomplex⟩ => ⟨?_, hnumber, hcomplex⟩
    subst ht hnumber
    simpa [hq (by simpa using hcertain)] using hpq

/-- Where the table of a unary operator takes a complex number it takes a number. -/
theorem unary?_fits {op : UnaryOp} (h : Fits p t u) (hu : unary? op u = some actual) :
    ∃ s, unary? op t = some s ∧ Fits (p && unary? op .complex = some .complex) s actual := by
  rcases h with rfl | ⟨rfl, rfl, rfl⟩
  · exact ⟨_, hu, .refl⟩
  · cases op <;> cases hu
    exact ⟨_, rfl, by decide⟩

/-- Where the table of a binary operator takes complex numbers it takes numbers. -/
theorem binary?_fits {op : BinaryOp} {t' u' : ValueType} (h : Fits p t u) (h' : Fits q t' u')
    (hu : binary? op u u' = some actual) :
    ∃ s, binary? op t t' = some s ∧
      Fits ((p || q) && binary? op .complex .complex = some .complex) s actual := by
  obtain rfl | ⟨rfl, rfl, rfl⟩ := h <;> obtain rfl | ⟨rfl, rfl, rfl⟩ := h'
  · exact ⟨_, hu, .refl⟩
  · cases op <;> cases u <;> cases hu <;> exact ⟨_, rfl, by simp [Fits, binary?, arithmetic?]⟩
  · cases op <;> cases u' <;> cases hu <;> exact ⟨_, rfl, by simp [Fits, binary?, arithmetic?]⟩
  · cases op <;> cases hu <;> exact ⟨_, rfl, by simp [Fits, binary?, arithmetic?]⟩

/-! ## Calls with unknown arguments -/

/-- If the types of all arguments are known, they stand in for themselves. -/
theorem known?_eq_some {types : List ValueType} :
    ∀ {guesses : List TypeGuess}, known? guesses = some types →
      ∀ c, guesses.map (·.getD c) = types
  | [], h, _ => by cases h; rfl
  | none :: _, h, _ => by simp [known?] at h
  | some t :: guesses, h, c => by
    obtain ⟨rest, hrest, rfl⟩ : ∃ rest, known? guesses = some rest ∧ t :: rest = types := by
      simpa [known?, Option.bind_eq_some_iff] using h
    rw [List.map_cons, known?_eq_some hrest c]; rfl

/-- A guess that admits a type is tried as a type that stands in for it. -/
theorem Admits.substitutes {c : ValueType} (h : Admits p guess actual) :
    Substitutes p c (guess.getD c) actual := by
  cases guess with
  | none => exact .inr rfl
  | some t => exact .inl (h t rfl)

/-- A call that the table accepts with some type for all unknown arguments is accepted, and its
prediction admits what the table admits there. -/
theorem callUnknown_admits {f : Builtin} {guesses : List TypeGuess} {c : ValueType}
    (ht : builtin f (guesses.map (·.getD c)) = .ok t) (h : Fits p t actual) :
    ∃ g, callUnknown f guesses = .ok g ∧ Admits p g actual := by
  have hmem : t ∈ (attempts f guesses).filterMap Except.toOption := by
    refine List.mem_filterMap.2 ⟨.ok t, List.mem_map.2 ⟨c, ?_, ht⟩, rfl⟩
    cases c <;> decide
  obtain ⟨g, hg⟩ := unify_isSome hmem
  refine ⟨g, by rw [callUnknown, hg], fun t' ht' => ?_⟩
  subst ht'
  exact eq_of_unify hg hmem ▸ h

end Typing

namespace Expr

open Typing Eval

variable {K : Type} [Scalar K]

/-! ## Overlooked calls -/

/-- Whether a call is taken for a number although it may leave the reals: an argument is of unknown
type, and nothing is asked of the first argument. -/
def overlooksCall (f : Builtin) (arguments : List (Expr K)) (guesses : List TypeGuess) : Bool :=
  f.mayLeaveReals && !arguments.head?.any isNonNegative && (known? guesses).isNone &&
    callType f arguments guesses matches .ok (some .number)

mutual

/-- Whether the value of the tree may be complex because of an overlooked call: it is the value of
such a call or made from one by operations that give complex numbers. -/
def overlooks : Expr K → Bool
  | unary op a => overlooks a && unary? op .complex = some .complex
  | binary op a b => (overlooks a || overlooks b) && binary? op .complex .complex = some .complex
  | builtin f as =>
    !f.isSymbolic && (overlooksAny as && keepsComplex f ||
      match types? none as with
      | .ok guesses => overlooksCall f as guesses
      | .error _ => false)
  | ifThenElse _ a b => overlooks a || overlooks b
  | assign op _ value => overlooks value && binary? op.binary .complex .complex = some .complex
  | _ => false

/-- Whether one of the trees overlooks a call. -/
def overlooksAny : List (Expr K) → Bool
  | [] => false
  | a :: as => overlooks a || overlooksAny as

end

mutual

/-- Whether the tree is evaluated as a whole: it contains no `&&`, no `||`, no conditional and no
loop. -/
def isStraightLine : Expr K → Bool
  | number _ | bool _ | polar _ _ | string _ | angle _ | var _ | step _ _ => true
  | unary _ a | undefine a | assign _ _ a => isStraightLine a
  | binary op a b => op.decidedBy?.isNone && isStraightLine a && isStraightLine b
  | builtin _ as | call _ as | vector as => isStraightLineList as
  | matrix rows => isStraightLineRows rows
  | ifThen _ _ | ifThenElse _ _ _ | forLoop _ _ _ _ | whileLoop _ _ => false
  | define key value => isStraightLine key && isStraightLine value

/-- `isStraightLine` for every tree of a list. -/
def isStraightLineList : List (Expr K) → Bool
  | [] => true
  | a :: as => isStraightLine a && isStraightLineList as

/-- `isStraightLine` for every tree of some rows. -/
def isStraightLineRows : List (List (Expr K)) → Bool
  | [] => true
  | row :: rows => isStraightLineList row && isStraightLineRows rows

end

/-! ## Nodes -/

variable {p q : Bool} {guess guess' : TypeGuess} {v w u : Value K}

/-- A unary operator on a value that the guess admits. -/
theorem unary_admits {op : UnaryOp} (hg : Admits p guess v.type) (h : v.applyUnary op = .ok w) :
    ∃ g, orMismatch (.operand (.unary op) guess) ((candidates guess).filterMap (unary? op)) = .ok g
      ∧ Admits (p && unary? op .complex = some .complex) g w.type := by
  obtain ⟨t, ht, hfit⟩ := hg.candidate
  obtain ⟨s, hs, hfit⟩ := unary?_fits hfit (Value.applyUnary_type h)
  exact orMismatch_admits (List.mem_filterMap.2 ⟨t, ht, hs⟩) hfit

/-- A binary operator on values that the guesses admit. -/
theorem binary_admits {op : BinaryOp} (cause : TypeError) (hg : Admits p guess v.type)
    (hg' : Admits q guess' u.type) (h : v.applyBinary op u = .ok w) :
    ∃ g, orMismatch cause
        ((candidates guess).flatMap fun l => (candidates guess').filterMap (binary? op l)) = .ok g
      ∧ Admits ((p || q) && binary? op .complex .complex = some .complex ||
          Value.powerLeaves op v u) g w.type := by
  obtain ⟨t, ht, hfit⟩ := hg.candidate
  obtain ⟨t', ht', hfit'⟩ := hg'.candidate
  obtain ⟨r, hr, hr'⟩ := Value.applyBinary_type h
  obtain ⟨s, hs, hs'⟩ := binary?_fits hfit hfit' hr
  exact orMismatch_admits
    (List.mem_flatMap.2 ⟨t, ht, List.mem_filterMap.2 ⟨t', ht', hs⟩⟩) (hs'.trans hr')

/-- A compound assignment to a number of a value that the guess admits. -/
theorem assign_admits {op : AssignOp} {cause : TypeError} {a : K} (hg : Admits p guess v.type)
    (h : (Value.number a).applyBinary op.binary v = .ok w) :
    ∃ g, orMismatch cause ((candidates guess).filterMap (binary? op.binary .number)) = .ok g
      ∧ Admits (p && binary? op.binary .complex .complex = some .complex) g w.type := by
  have hnumber : Admits false (some .number) (Value.number a).type := .known .refl
  obtain ⟨g, hg, hadmits⟩ := binary_admits cause hnumber hg h
  refine ⟨g, by simpa [candidates] using hg, hadmits.mono fun hexcuse => ?_⟩
  have hpow : Value.powerLeaves op.binary (.number a) v = false := by
    cases op <;> cases v <;> rfl
  simpa [hpow] using hexcuse

/-- A built-in call on values that the guesses admit. -/
theorem callType_admits {f : Builtin} {as : List (Expr K)} {guesses : List TypeGuess}
    {vs : List (Value K)} (hlen : f.arity.accepts vs.length)
    (hg : List.Forall₂ (fun g v => Admits p g (Value.type v)) guesses vs)
    (hreal : as.head?.any isNonNegative → ∀ v ∈ vs.head?, Value.isBelowZero v = false)
    (h : Value.applyBuiltin f vs = .ok w) :
    ∃ g, callType f as guesses = .ok g ∧
      Admits (p && keepsComplex f || overlooksCall f as guesses) g w.type := by
  cases hg with
  | nil => cases h
  | @cons g v gs vs hg hgs =>
    have hs : Fits p (g.getD v.type) v.type := by
      cases g with
      | none => exact .refl
      | some t => exact hg t rfl
    have hss : List.Forall₂ (Substitutes p v.type) (gs.map (·.getD v.type)) (vs.map Value.type) :=
      List.forall₂_map_left_iff.2 <|
        List.forall₂_map_right_iff.2 (hgs.imp fun _ _ h => h.substitutes)
    obtain ⟨t, ht, hfit⟩ := Value.callWith_fits hs hss hlen h
    have hbelow : as.head?.any isNonNegative → v.isBelowZero = false := fun h => hreal h v rfl
    have ht : Typing.builtin f ((g :: gs).map (·.getD v.type)) = .ok t := ht
    cases hknown : known? (g :: gs) with
    | some types =>
      rw [known?_eq_some hknown] at ht
      refine ⟨provided (!f.mayLeaveReals || as.head?.any isNonNegative) (some t),
        by simp only [callType, hknown, ht], ?_⟩
      have hfit :
          Admits (p && keepsComplex f || f.mayLeaveReals && v.isBelowZero) (some t) w.type :=
        .known hfit
      refine (hfit.provided fun hcertain => ?_).mono (by simp +contextual)
      rcases Bool.or_eq_true_iff.1 hcertain with hnever | hhead
      · rw [Bool.not_eq_true'] at hnever
        simp [hnever]
      · simp [hbelow hhead]
    | none =>
      obtain ⟨guess, hguess, hadmits⟩ := callUnknown_admits ht hfit
      refine ⟨guess, by rw [callType, hknown]; exact hguess, fun t' ht' => ?_⟩
      refine (hadmits t' ht').imp_right fun ⟨hexcuse, hnumber, hcomplex⟩ => ⟨?_, hnumber, hcomplex⟩
      rcases Bool.or_eq_true_iff.1 hexcuse with hkeeps | hleaves
      · simp [hkeeps]
      · obtain ⟨hmay, hneg⟩ := Bool.and_eq_true_iff.1 hleaves
        have hhead : as.head?.any isNonNegative = false := by
          by_contra hhead
          simp [hbelow (by simpa using hhead)] at hneg
        subst ht' hnumber
        simp [overlooksCall, hmay, hhead, hknown, callType, hguess]

/-- Whether unknown arguments let a call be a number. -/
def looksReal (f : Builtin) (guesses : List TypeGuess) : Bool :=
  (known? guesses).isNone && callUnknown f guesses matches .ok (some .number)

/-- An overlooked call looks real and need not be. -/
theorem overlooksCall_eq {f : Builtin} {as : List (Expr K)} {guesses : List TypeGuess} :
    overlooksCall f as guesses =
      (f.mayLeaveReals && looksReal f guesses && !as.head?.any isNonNegative) := by
  unfold overlooksCall looksReal callType
  cases hknown : known? guesses with
  | some types => simp
  | none => simp only [Option.isNone_none, Bool.and_true, Bool.true_and]; ac_rfl

/-- A root looks real if both arguments may be numbers and one is unknown. -/
theorem looksReal_root (a b : TypeGuess) : looksReal .root [a, b] = true ↔
    [a, b] ∈ [[none, none], [none, some .number], [some .number, none]] := by
  rcases a with _ | a <;> rcases b with _ | b <;> (try cases a) <;> (try cases b) <;> decide

/-- A logarithm looks real if its argument is a number and its base is unknown. -/
theorem looksReal_log (a b : TypeGuess) :
    looksReal .log [a, b] = true ↔ [a, b] = [some .number, none] := by
  rcases a with _ | a <;> rcases b with _ | b <;> (try cases a) <;> (try cases b) <;> decide

/-- A square root or a logarithm of an unknown argument may be complex. -/
theorem looksReal_single {f : Builtin} (hf : f ∈ [.sqrt, .ln, .lg, .lb]) (a : TypeGuess) :
    looksReal f [a] = false := by
  simp only [List.mem_cons, List.not_mem_nil, or_false] at hf
  rcases hf with rfl | rfl | rfl | rfl <;> cases a <;> rfl

/-- **The overlooked calls**: every root with an argument of unknown type, and every logarithm of a
number to an unknown base, unless the first argument is a literal that is not negative. -/
theorem overlooksCall_iff {f : Builtin} {as : List (Expr K)} {guesses : List TypeGuess}
    (hlen : f.arity.accepts guesses.length) :
    overlooksCall f as guesses = true ↔ as.head?.any isNonNegative = false ∧
      (f = .root ∧ guesses ∈ [[none, none], [none, some .number], [some .number, none]] ∨
        f = .log ∧ guesses = [some .number, none]) := by
  rw [overlooksCall_eq]
  cases f with
  | root =>
    obtain ⟨a, b, rfl⟩ := List.length_eq_two.1 (Arity.accepts_exactly.1 hlen)
    simp [Builtin.mayLeaveReals, looksReal_root, and_comm]
  | log =>
    obtain ⟨a, b, rfl⟩ := List.length_eq_two.1 (Arity.accepts_exactly.1 hlen)
    simp [Builtin.mayLeaveReals, looksReal_log, and_comm]
  | sqrt | ln | lg | lb =>
    obtain ⟨a, rfl⟩ := List.length_eq_one_iff.1 (Arity.accepts_exactly.1 hlen)
    simp [looksReal_single]
  | _ => simp [Builtin.mayLeaveReals]

/-! ## Literals as operands -/

variable {enter : Expr K → Eval K (Value K)} {loops : Nat}

/-- A number literal evaluates to its number. -/
theorem eval_of_number? {e : Expr K} {a : K} (he : e.number? = some a)
    (h : (eval enter loops e).Yields v) : v = .number a := by
  cases e <;> cases he
  exact h.eq_of_pure

/-- A literal that is not negative is not below zero. -/
theorem isBelowZero_of_isNonNegative [Scalar.LawfulOrder K] {e : Expr K} (he : isNonNegative e)
    (h : (eval enter loops e).Yields v) : v.isBelowZero = false := by
  obtain ⟨a, ha, hle⟩ := (Option.any_eq_true _ _).1 he
  rw [eval_of_number? ha h]
  exact Scalar.LawfulOrder.not_lt_of_le hle

/-- A power that the trees show to be real does not leave the reals. -/
theorem powerLeaves_of_isRealPower [Scalar.LawfulOrder K] {op : BinaryOp} {a b : Expr K}
    (hreal : op != .pow || isRealPower a b) (ha : (eval enter loops a).Yields v)
    (hb : (eval enter loops b).Yields u) : Value.powerLeaves op v u = false := by
  unfold Value.powerLeaves
  split
  · next x y =>
    rcases Bool.or_eq_true_iff.1 hreal with hop | hreal
    · simp [bne_iff_ne.1 hop]
    rcases Bool.or_eq_true_iff.1 hreal with hint | hneg
    · obtain ⟨y', hy', hint⟩ := (Option.any_eq_true _ _).1 hint
      cases eval_of_number? hy' hb
      simp [Value.leavesReals, hint]
    · have hx : Scalar.lt x Scalar.zero = false := isBelowZero_of_isNonNegative hneg ha
      simp [Value.leavesReals, hx]
  · rfl

/-! ## Trees -/

/-- The operators that one operand may decide give truth values. -/
theorem type_of_decidedBy? {op : BinaryOp} {decisive : Bool} {s t r : ValueType}
    (hop : op.decidedBy? = some decisive) (h : binary? op s t = some r) : r = .boolean := by
  cases op <;> cases hop <;>
    (simp only [binary?] at h; split at h <;> cases h; rfl)

/-- The first value of a list of trees is that of its first tree. -/
theorem head_of_evalList {as : List (Expr K)} {vs : List (Value K)}
    (h : (evalList enter loops as).Yields vs) :
    ∀ a ∈ as.head?, ∀ v ∈ vs.head?, (eval enter loops a).Yields v := by
  rintro a ha v hv
  obtain ⟨as, rfl⟩ := List.head?_eq_some_iff.1 ha
  obtain ⟨x, hx, h⟩ := h.of_bind
  obtain ⟨xs, -, h⟩ := h.of_bind
  cases h.eq_of_pure
  cases hv
  exact hx

/-- A symbolic function makes a function, unless it has a point to evaluate that at. -/
theorem type_of_isSymbolic {f : Builtin} (hf : f.isSymbolic) {as : List (Expr K)}
    (h : (eval enter loops (.builtin f as)).Yields v) : as.length = 3 ∨ v.type = .function := by
  cases f with
  | simplify =>
    obtain ⟨_, -, h⟩ := h.of_bind
    match as, h with
    | _ :: _, h =>
      obtain ⟨env, -, h⟩ := h.of_bind
      cases h.eq_of_pure
      exact .inr rfl
    | [], h => exact absurd h not_yields_fail
  | derivative =>
    match as, h with
    | [_], h | [_, _], h =>
      obtain ⟨_, -, h⟩ := h.of_bind
      obtain ⟨_, -, h⟩ := h.of_bind
      cases h.eq_of_pure
      exact .inr rfl
    | [_, _, _], _ => exact .inl rfl
    | [], h | _ :: _ :: _ :: _ :: _, h =>
      obtain ⟨_, -, h⟩ := h.of_bind
      exact absurd h not_yields_fail
  | _ => cases hf

omit [Scalar K] in
/-- An operator that its left operand may decide gives a truth value. -/
theorem type_of_decided {operation : String} {x : Value K} {decisive : Bool} {b : Eval K (Value K)}
    (h : Yields (do
      let left ← ofResult (x.asBool operation)
      if left = decisive then return .bool decisive
      else return .bool (← ofResult ((← b).asBool operation))) v) : v.type = .boolean := by
  obtain ⟨left, -, h⟩ := h.of_bind
  split at h
  · cases h.eq_of_pure
    rfl
  · obtain ⟨y, -, h⟩ := h.of_bind
    obtain ⟨right, -, h⟩ := h.of_bind
    cases h.eq_of_pure
    rfl

/-- A definition of a variable reports itself. -/
theorem type_of_defineVariable {name : String} {x : Value K}
    (h : (defineVariable name x).Yields v) : v.type = .string := by
  obtain ⟨_, -, h⟩ := h.of_bind
  cases h.eq_of_pure
  rfl

/-- A definition of a function reports itself. -/
theorem type_of_defineFunction {name : String} {arguments : List (Expr K)} {body : Expr K}
    (h : (defineFunction name arguments body).Yields v) : v.type = .string := by
  unfold defineFunction at h
  split at h
  · obtain ⟨_, -, h⟩ := h.of_bind
    cases h.eq_of_pure
    rfl
  · exact absurd h not_yields_fail

/-- A removal reports itself. -/
theorem type_of_remove {key : Expr K} (h : (remove key).Yields v) : v.type = .string := by
  unfold remove at h
  split at h
  · obtain ⟨env, -, h⟩ := h.of_bind
    obtain ⟨removed, -, h⟩ := h.of_bind
    obtain ⟨_, -, h⟩ := h.of_bind
    cases h.eq_of_pure
    rfl
  · obtain ⟨env, -, h⟩ := h.of_bind
    obtain ⟨_, -, h⟩ := h.of_bind
    cases h.eq_of_pure
    rfl
  · obtain ⟨_, h, -⟩ := h.of_bind
    exact absurd h not_yields_fail

/-- A stepped variable is a number. -/
theorem type_of_applyStep {op : StepOp} {name : String}
    (h : (applyStep op name : Eval K _).Yields v) : v.type = .number := by
  obtain ⟨old, -, h⟩ := h.of_bind
  obtain ⟨x, -, h⟩ := h.of_bind
  obtain ⟨_, -, h⟩ := h.of_bind
  cases h.eq_of_pure
  rfl

/-! ## Nodes with operands

What holds of the operands holds of a node. -/

/-- The analysis of the tree is right about the value: it succeeds if the tree is evaluated as a
whole, and the type that it finds admits the value. -/
abbrev Foretells (e : Expr K) (v : Value K) : Prop :=
  Judged e.isStraightLine (e.type? none) (Admits e.overlooks · v.type)

/-- The analysis of the trees is right about the values. -/
abbrev ForetellsAll (as : List (Expr K)) (vs : List (Value K)) : Prop :=
  Judged (isStraightLineList as) (types? none as)
    fun gs => List.Forall₂ (fun g v => Admits (overlooksAny as) g (Value.type v)) gs vs

section

variable {a b c : Expr K} {as : List (Expr K)}

/-- A binary operator. -/
theorem binary_judged [Scalar.LawfulOrder K] {op : BinaryOp}
    (iha : ∀ {x}, (eval enter loops a).Yields x → Foretells a x)
    (ihb : ∀ {y}, (eval enter loops b).Yields y → Foretells b y)
    (h : (eval enter loops (binary op a b)).Yields v) : Foretells (binary op a b) v := by
  rw [eval] at h
  split at h
  · next decisive hop =>
    obtain ⟨x, -, h⟩ := h.of_bind
    have hv : v.type = .boolean := type_of_decided h
    have hstrict : (binary op a b).isStraightLine = false := by simp [isStraightLine, hop]
    rw [Foretells, hstrict, hv]
    refine Judged.any.bind fun s _ _ => Judged.any.bind fun t _ _ => ?_
    refine (orMismatch_same fun r hr => ?_).bind fun g _ hg => .ok (hg.provided fun _ => rfl)
    obtain ⟨l, -, hr⟩ := List.mem_flatMap.1 hr
    obtain ⟨r', -, hr⟩ := List.mem_filterMap.1 hr
    exact type_of_decidedBy? hop hr
  · next hop =>
    obtain ⟨x, hx, h⟩ := h.of_bind
    obtain ⟨y, hy, h⟩ := h.of_bind
    have hstrict : (binary op a b).isStraightLine = (a.isStraightLine && b.isStraightLine) := by
      simp [isStraightLine, hop]
    rw [Foretells, hstrict]
    refine ((iha hx).weaken (by simp +contextual)).bind fun s _ hs => ?_
    refine ((ihb hy).weaken (by simp +contextual)).bind fun t _ ht => ?_
    refine (Judged.of_exists (binary_admits _ hs ht h.of_ofResult)).bind fun g _ hg => ?_
    exact .ok (hg.provided fun hreal => powerLeaves_of_isRealPower hreal hx hy)

/-- A built-in function. -/
theorem builtin_judged [Scalar.LawfulOrder K] {f : Builtin}
    (ih : ∀ {vs}, (evalList enter loops as).Yields vs → ForetellsAll as vs)
    (h : (eval enter loops (builtin f as)).Yields v) : Foretells (builtin f as) v := by
  rw [Foretells, type?]
  split
  · next hf =>
    refine .ok ?_
    rcases type_of_isSymbolic hf h with hlen | hv
    · rw [if_pos hlen]
      exact .unknown
    · split
      · exact .unknown
      · exact .known (.inl hv)
  · next hf =>
    rw [Bool.not_eq_true] at hf
    rw [eval_builtin hf] at h
    obtain ⟨_, hlen, h⟩ := h.of_bind
    obtain ⟨vs, hvs, h⟩ := h.of_bind
    refine (ih hvs).bind fun gs hgs hadmits => ?_
    have hreal : as.head?.any isNonNegative → ∀ v ∈ vs.head?, v.isBelowZero = false := by
      intro hhead v hv
      obtain ⟨a, ha, hneg⟩ := (Option.any_eq_true _ _).1 hhead
      exact isBelowZero_of_isNonNegative hneg (head_of_evalList hvs a ha v hv)
    have hcall := callType_admits (evalList_length hvs ▸ accepts_of_checkArity hlen) hadmits hreal
      h.of_ofResult
    simpa [overlooks, hf, hgs] using Judged.of_exists hcall

/-- A choice: the type of both values is that of the one that is taken. -/
theorem ifThenElse_judged (iha : ∀ {x}, (eval enter loops a).Yields x → Foretells a x)
    (ihb : ∀ {x}, (eval enter loops b).Yields x → Foretells b x)
    (h : (eval enter loops (ifThenElse c a b)).Yields v) : Foretells (ifThenElse c a b) v := by
  obtain ⟨x, -, h⟩ := h.of_bind
  obtain ⟨holds, -, h⟩ := h.of_bind
  refine Judged.any.bind fun _ _ _ => Judged.any.bind fun _ _ _ => ?_
  cases holds with
  | true =>
    refine (iha h).partially.bind fun s _ hs => ?_
    refine Judged.any.bind fun t _ _ => .ok ?_
    split
    · exact hs.mono (by simp +contextual [overlooks])
    · exact .unknown
  | false =>
    refine Judged.any.bind fun s _ _ => ?_
    refine (ihb h).partially.bind fun t _ ht => .ok ?_
    split
    · next hst => exact hst ▸ ht.mono (by simp +contextual [overlooks])
    · exact .unknown

end

mutual

/-- **The induction over the tree.** A tree that is evaluated as a whole has a type if it has a
value, and any type that it has admits its values. -/
theorem eval_judged [Scalar.LawfulOrder K] : ∀ {e : Expr K} {v : Value K},
    (eval enter loops e).Yields v → Foretells e v
  | .number _, _, h | .bool _, _, h | .polar _ _, _, h | .string _, _, h | .angle _, _, h => by
    cases h.eq_of_pure
    exact .ok (.known .refl)
  | .var _, _, _ => .ok .unknown
  | .unary op a, v, h => by
    obtain ⟨x, hx, h⟩ := h.of_bind
    refine (eval_judged hx).bind fun g _ hg => ?_
    exact .of_exists (unary_admits hg h.of_ofResult)
  | .binary op a b, v, h => binary_judged eval_judged eval_judged h
  | .builtin f as, v, h => builtin_judged evalList_judged h
  | .call name as, v, h => by
    obtain ⟨_, -, h⟩ := h.of_bind
    obtain ⟨vs, hvs, -⟩ := h.of_bind
    exact (evalList_judged hvs).bind fun _ _ _ => .ok .unknown
  | .vector as, v, h => by
    obtain ⟨xs, hxs, h⟩ := h.of_bind
    cases h.eq_of_pure
    exact (evalNumbers_judged hxs).bind fun _ _ _ => .ok (.known .refl)
  | .matrix rows, v, h => by
    obtain ⟨xs, hxs, h⟩ := h.of_bind
    cases h.eq_of_pure
    exact (evalRows_judged hxs).bind fun _ _ _ => .ok (.known .refl)
  | .ifThen c a, v, h =>
    Judged.any.bind fun _ _ _ => Judged.any.bind fun _ _ _ => Judged.any.bind fun _ _ _ =>
      .ok .unknown
  | .ifThenElse c a b, v, h => ifThenElse_judged eval_judged eval_judged h
  | .forLoop body init condition iteration, v, h => by
    obtain ⟨_, -, h⟩ := h.of_bind
    obtain ⟨_, -, h⟩ := h.of_bind
    cases h.eq_of_pure
    exact Judged.any.bind fun _ _ _ => Judged.any.bind fun _ _ _ => Judged.any.bind fun _ _ _ =>
      Judged.any.bind fun _ _ _ => Judged.any.bind fun _ _ _ => .ok (.known .refl)
  | .whileLoop body condition, v, h => by
    obtain ⟨_, -, h⟩ := h.of_bind
    cases h.eq_of_pure
    exact Judged.any.bind fun _ _ _ => Judged.any.bind fun _ _ _ => Judged.any.bind fun _ _ _ =>
      .ok (.known .refl)
  | .define key value, v, h => by
    cases key with
    | var name =>
      obtain ⟨x, hx, h⟩ := h.of_bind
      refine ((eval_judged hx).weaken (by simp +contextual [isStraightLine])).bind fun _ _ _ => ?_
      exact .ok (.known (.inl (type_of_defineVariable h)))
    | call name arguments => exact .ok (.known (.inl (type_of_defineFunction h)))
    | _ => exact absurd h not_yields_fail
  | .undefine key, v, h => .ok (.known (.inl (type_of_remove h)))
  | .assign op name value, v, h => by
    obtain ⟨old, -, h⟩ := h.of_bind
    obtain ⟨x, hx, h⟩ := h.of_bind
    obtain ⟨right, hright, h⟩ := h.of_bind
    obtain ⟨result, hresult, h⟩ := h.of_bind
    obtain ⟨_, -, h⟩ := h.of_bind
    cases h.eq_of_pure
    obtain rfl := Value.asNumber_type hx.of_ofResult
    refine (eval_judged hright).bind fun t _ ht => ?_
    exact .of_exists (assign_admits ht hresult.of_ofResult)
  | .step op name, v, h => .ok (.known (.inl (type_of_applyStep h)))

/-- The induction over a list of trees. -/
theorem evalList_judged [Scalar.LawfulOrder K] : ∀ {as : List (Expr K)} {vs : List (Value K)},
    (evalList enter loops as).Yields vs → ForetellsAll as vs
  | [], vs, h => by
    cases h.eq_of_pure
    exact .ok .nil
  | a :: as, vs, h => by
    obtain ⟨x, hx, h⟩ := h.of_bind
    obtain ⟨xs, hxs, h⟩ := h.of_bind
    cases h.eq_of_pure
    rw [ForetellsAll, isStraightLineList]
    refine ((eval_judged hx).weaken (by simp +contextual)).bind fun g _ hg => ?_
    refine ((evalList_judged hxs).weaken (by simp +contextual)).bind fun gs _ hgs => .ok ?_
    refine .cons (hg.mono ?_) (hgs.imp fun _ _ h => h.mono ?_) <;>
      simp +contextual [overlooksAny]

/-- The induction over a list of numbers. -/
theorem evalNumbers_judged [Scalar.LawfulOrder K] {operation : String} {kind : Kind} :
    ∀ {as : List (Expr K)} {xs : List K}, (evalNumbers enter loops operation as).Yields xs →
      Judged (isStraightLineList as) (checkElements kind none as) fun _ => True
  | [], xs, h => .ok trivial
  | a :: as, xs, h => by
    obtain ⟨v, hv, h⟩ := h.of_bind
    obtain ⟨x, hx, h⟩ := h.of_bind
    obtain ⟨xs, hxs, -⟩ := h.of_bind
    obtain rfl := Value.asNumber_type hx.of_ofResult
    rw [isStraightLineList]
    refine ((eval_judged hv).weaken (by simp +contextual)).bind fun g _ hg => ?_
    have hcheck : checkType kind .number g = .ok () := checkType_of_admits hg nofun
    rw [hcheck]
    exact (evalNumbers_judged hxs).weaken (by simp +contextual)

/-- The induction over the rows of a matrix. -/
theorem evalRows_judged [Scalar.LawfulOrder K] : ∀ {rows : List (List (Expr K))}
    {xs : List (List K)}, (evalRows enter loops rows).Yields xs →
      Judged (isStraightLineRows rows) (checkRows none rows) fun _ => True
  | [], xs, h => .ok trivial
  | row :: rows, xs, h => by
    obtain ⟨x, hx, h⟩ := h.of_bind
    obtain ⟨xs, hxs, -⟩ := h.of_bind
    rw [isStraightLineRows]
    refine ((evalNumbers_judged hx).weaken (by simp +contextual)).bind fun _ _ _ => ?_
    exact (evalRows_judged hxs).weaken (by simp +contextual)

end

/-! ## Predictions and values -/

/-- What holds of the values of one evaluation holds of the values with any fuel. -/
theorem evalWithin_judged [Scalar.LawfulOrder K] {t : Expr K} {v : Value K} {fuel : Nat}
    {env env' : Environment K} (h : (t.evalWithin fuel).run env = (.ok v, env')) :
    Judged t.isStraightLine (t.type? none) (Admits t.overlooks · v.type) := by
  cases fuel with
  | zero => cases h
  | succ fuel => exact eval_judged ⟨env, env', h⟩

/-- **A predicted type is the type of every value**, in every environment and with any fuel, but
that an overlooked call may make a value complex where a number is predicted. -/
theorem type?_sound [Scalar.LawfulOrder K] {t : Expr K} {T : ValueType}
    (hT : t.type? none = .ok (some T)) {fuel : Nat} {env env' : Environment K} {v : Value K}
    (hv : (t.evalWithin fuel).run env = (.ok v, env')) :
    v.type = T ∨ t.overlooks = true ∧ T = .number ∧ v.type = .complex :=
  (evalWithin_judged hv).2 _ hT T rfl

/-- The comparison `x < 3` is a truth value where `x` is one. -/
theorem type?_sound_comparison :
    (Value.bool true : Value Binary64).type = .boolean ∨
      (binary .lt (var "x") (number (Scalar.ofInt 3)) : Expr Binary64).overlooks = true ∧
        ValueType.boolean = .number ∧ (Value.bool true : Value Binary64).type = .complex :=
  type?_sound (t := binary .lt (var "x") (number (Scalar.ofInt 3))) rfl
    (show (evalWithin 1 _).run (Environment.initial.push (.ofList [("x", .number Scalar.one)])) =
      (.ok (.bool true), _) from rfl)

/-- The square root `root(x, 2)` is predicted to be a number and is complex where `x` is `-4`. -/
theorem type?_overlooks_root : ¬∀ (t : Expr Binary64) (T : ValueType)
    (env env' : Environment Binary64) (v : Value Binary64),
    t.type? none = .ok (some T) → t.execute env = (.ok v, env') → v.type = T := by
  intro h
  have hroot := h (builtin .root [var "x", number (Scalar.ofInt 2)]) .number
    (Environment.initial.push (.ofList [("x", .number (Scalar.ofInt (-4)))])) _ _ rfl rfl
  cases hroot

/-- **A tree that is evaluated as a whole and has no type has no value**, in any environment and
with any fuel. -/
theorem type?_rejects [Scalar.LawfulOrder K] {t : Expr K} (ht : t.isStraightLine = true)
    {cause : TypeError} (h : t.type? none = .error cause) (fuel : Nat)
    (env env' : Environment K) (v : Value K) : (t.evalWithin fuel).run env ≠ (.ok v, env') := by
  intro hv
  obtain ⟨g, hg⟩ := (evalWithin_judged hv).1 ht
  rw [h] at hg
  cases hg

/-- The negative of a comparison has no value. -/
theorem type?_rejects_negative :
    ((unary .minus (binary .lt (var "x") (number Scalar.one)) : Expr Binary64).evalWithin 1).run
      .initial ≠ (.ok (.bool true), .initial) :=
  type?_rejects rfl rfl _ _ _ _

end Expr

end Formula

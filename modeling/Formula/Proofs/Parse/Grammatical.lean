import Formula.Parse
import Formula.Proofs.Expr
import Formula.Proofs.Parse.Results
import Formula.Proofs.Token.Lexed

/-!
# The trees that the grammar builds

`Grammatical good statement e` says that the grammar can build the tree `e` from tokens that are
`good`, in the place of a statement or in that of an expression. Whatever a parser gives is of this
sort (`Nest.parserWithin_builds`), so what holds of all grammatical trees holds of all trees read.
-/

namespace Formula

variable {K : Type}

/-! ## Grammatical trees -/

/-- The trees that the grammar builds from good tokens, in the place of a statement or of an
expression. -/
inductive Grammatical [Scalar K] (good : Token K → Prop) : (statement : Bool) → Expr K → Prop
  | number {s : Bool} {x : K} : good (.number x) → Grammatical good s (.number x)
  | angle {s : Bool} {x : K} (unit : AngleUnit) : good (.number x) →
    Grammatical good s (.angle ⟨x, unit⟩)
  | polar {s : Bool} {magnitude phase : K} (negative : Bool) : good (.number magnitude) →
    good (.number phase) →
    Grammatical good s (.polar magnitude (if negative then -phase else phase))
  | bool {s : Bool} (value : Bool) : Grammatical good s (.bool value)
  | string {s : Bool} {value : String} : good (.string value) → Grammatical good s (.string value)
  | var {s : Bool} {name : String} : good (.identifier name) → Grammatical good s (.var name)
  | unary {s : Bool} {a : Expr K} (op : UnaryOp) : Grammatical good false a →
    Grammatical good s (.unary op a)
  | binary {s : Bool} {a b : Expr K} (op : BinaryOp) : Grammatical good false a →
    Grammatical good false b → Grammatical good s (.binary op a b)
  | builtin {s : Bool} {f : Builtin} {as : List (Expr K)} : f.arity.accepts as.length = true →
    (∀ a ∈ as, Grammatical good false a) → Grammatical good s (.builtin f as)
  | call {s : Bool} {name : String} {as : List (Expr K)} : good (.identifier name) →
    Builtin.ofName? name = none → (∀ a ∈ as, Grammatical good false a) →
    Grammatical good s (.call name as)
  | vector {s : Bool} {a : Expr K} {as : List (Expr K)} :
    (∀ e ∈ a :: as, Grammatical good false e) → Grammatical good s (.vector (a :: as))
  | matrix {s : Bool} {rows : List (List (Expr K))} : Expr.mkMatrix rows = .ok (.matrix rows) →
    (∀ row ∈ rows, ∀ a ∈ row, Grammatical good false a) → Grammatical good s (.matrix rows)
  | ifThenElse {s : Bool} {c a b : Expr K} : Grammatical good false c → Grammatical good false a →
    Grammatical good false b → Grammatical good s (.ifThenElse c a b)
  | assign {s : Bool} {name : String} {value : Expr K} (op : AssignOp) : good (.identifier name) →
    Grammatical good false value → Grammatical good s (.assign op name value)
  | step {s : Bool} {name : String} (op : StepOp) : good (.identifier name) →
    Grammatical good s (.step op name)
  | ifThen {c a : Expr K} : Grammatical good false c → Grammatical good false a →
    Grammatical good true (.ifThen c a)
  | forLoop {body init c iteration : Expr K} : Grammatical good true body →
    Grammatical good true init → Grammatical good false c → Grammatical good true iteration →
    Grammatical good true (.forLoop body init c iteration)
  | whileLoop {body c : Expr K} : Grammatical good true body → Grammatical good false c →
    Grammatical good true (.whileLoop body c)
  | define {key value : Expr K} : Expr.checkKey key = .ok () → Grammatical good false key →
    Grammatical good false value → Grammatical good true (.define key value)
  | undefine {key : Expr K} : Expr.checkKey key = .ok () → Grammatical good false key →
    Grammatical good true (.undefine key)

/-- A tree in the place of an expression is one in the place of a statement. -/
theorem Grammatical.statement [Scalar K] {good : Token K → Prop} {e : Expr K}
    (h : Grammatical good false e) : Grammatical good true e := by
  cases h with
  | number hx => exact .number hx
  | angle unit hx => exact .angle unit hx
  | polar negative hm hp => exact .polar negative hm hp
  | bool value => exact .bool value
  | string hvalue => exact .string hvalue
  | var hname => exact .var hname
  | unary op ha => exact .unary op ha
  | binary op ha hb => exact .binary op ha hb
  | builtin harity has => exact .builtin harity has
  | call hname hfree has => exact .call hname hfree has
  | vector has => exact .vector has
  | matrix hrows has => exact .matrix hrows has
  | ifThenElse hc ha hb => exact .ifThenElse hc ha hb
  | assign op hname hvalue => exact .assign op hname hvalue
  | step op hname => exact .step op hname

/-- Every subtree of a grammatical tree is grammatical. -/
theorem Grammatical.everywhere [Scalar K] {good : Token K → Prop} {s : Bool} {e : Expr K}
    (h : Grammatical good s e) : e.Everywhere (Grammatical good true) := by
  have one {a : Expr K} (ha : a.Everywhere (Grammatical good true)) :
      ∀ c ∈ [a], c.Everywhere (Grammatical good true) := List.forall_mem_singleton.2 ha
  have more {a : Expr K} {as : List (Expr K)} (ha : a.Everywhere (Grammatical good true))
      (has : ∀ c ∈ as, c.Everywhere (Grammatical good true)) :
      ∀ c ∈ a :: as, c.Everywhere (Grammatical good true) := List.forall_mem_cons.2 ⟨ha, has⟩
  induction h with
  | number hx => exact .node (.number hx) nofun
  | angle unit hx => exact .node (.angle unit hx) nofun
  | polar negative hm hp => exact .node (.polar negative hm hp) nofun
  | bool value => exact .node (.bool value) nofun
  | string hvalue => exact .node (.string hvalue) nofun
  | var hname => exact .node (.var hname) nofun
  | step op hname => exact .node (.step op hname) nofun
  | unary op ha iha => exact .node (.unary op ha) (one iha)
  | assign op hname hvalue ih => exact .node (.assign op hname hvalue) (one ih)
  | undefine hkey hk ih => exact .node (.undefine hkey hk) (one ih)
  | binary op ha hb iha ihb => exact .node (.binary op ha hb) (more iha (one ihb))
  | ifThen hc ha ihc iha => exact .node (.ifThen hc ha) (more ihc (one iha))
  | whileLoop hbody hc ihbody ihc => exact .node (.whileLoop hbody hc) (more ihbody (one ihc))
  | define hkey hk hv ihk ihv => exact .node (.define hkey hk hv) (more ihk (one ihv))
  | ifThenElse hc ha hb ihc iha ihb =>
    exact .node (.ifThenElse hc ha hb) (more ihc (more iha (one ihb)))
  | forLoop hbody hinit hc hiteration ihbody ihinit ihc ihiteration =>
    exact .node (.forLoop hbody hinit hc hiteration)
      (more ihbody (more ihinit (more ihc (one ihiteration))))
  | builtin harity has ih => exact .node (.builtin harity has) ih
  | call hname hfree has ih => exact .node (.call hname hfree has) ih
  | vector has ih => exact .node (.vector has) ih
  | matrix hrows has ih =>
    refine .node (.matrix hrows has) fun c hc => ?_
    obtain ⟨row, hrow, hc⟩ := List.mem_flatten.1 hc
    exact ih row hrow c hc

/-! ## The grammar -/

namespace Grammar

open Formula.Parser

variable {good : Token K → Prop}

/-- A token that gives a number is one, and so on for the other sorts. -/
theorem number?_eq_some {t : Token K} {x : K} : t.number? = some x ↔ t = .number x := by
  cases t <;> simp [Token.number?]

theorem identifier?_eq_some {t : Token K} {name : String} :
    t.identifier? = some name ↔ t = .identifier name := by
  cases t <;> simp [Token.identifier?]

theorem string?_eq_some {t : Token K} {value : String} :
    t.string? = some value ↔ t = .string value := by
  cases t <;> simp [Token.string?]

/-- The value of a good token of a number. -/
theorem takeNumber_gives : (take? Token.number?).Gives good fun found =>
    ∀ x, found = some x → good (.number x) :=
  (Gives.take? _).mono fun _ h x hx => by
    obtain ⟨t, ht, hnumber⟩ := h x hx
    exact number?_eq_some.1 hnumber ▸ ht

/-- The name in a good identifier. -/
theorem takeIdentifier_gives : (take? Token.identifier?).Gives good fun found =>
    ∀ name, found = some name → good (.identifier name) :=
  (Gives.take? _).mono fun _ h name hname => by
    obtain ⟨t, ht, hidentifier⟩ := h name hname
    exact identifier?_eq_some.1 hidentifier ▸ ht

/-- The value of a good string. -/
theorem takeString_gives : (take? Token.string?).Gives good fun found =>
    ∀ value, found = some value → good (.string value) :=
  (Gives.take? _).mono fun _ h value hvalue => by
    obtain ⟨t, ht, hstring⟩ := h value hvalue
    exact string?_eq_some.1 hstring ▸ ht

/-- A name of a variable. -/
theorem variableName_gives : (variableName : Parser K (Option String)).Gives good fun found =>
    ∀ name, found = some name → good (.identifier name) := by
  refine .speculate (.bind takeIdentifier_gives fun found hfound => ?_)
  cases found with
  | none => exact .nothing
  | some name =>
    refine .inspect fun r => ?_
    split
    · exact .nothing
    · exact .pure hfound

/-- The names behind the first in a parameter list. -/
theorem moreNames_gives : ∀ count, (moreNames count : Parser K (Option (List String))).Gives good
    fun found => ∀ names, found = some names → ∀ name ∈ names, good (.identifier name)
  | 0 => .found nofun
  | count + 1 => by
    refine .bind (.accept _) fun comma _ => ?_
    cases comma with
    | false => exact .found nofun
    | true =>
      refine .bind variableName_gives fun first hfirst => ?_
      cases first with
      | none => exact .nothing
      | some first =>
        refine .bind (moreNames_gives count) fun more hmore => ?_
        cases more with
        | none => exact .nothing
        | some more =>
          exact .found (List.forall_mem_cons.2 ⟨hfirst _ rfl, hmore _ rfl⟩)

/-- The names of a parameter list. -/
theorem parameterNames_gives : (parameterNames : Parser K (Option (List String))).Gives good
    fun found => ∀ names, found = some names → ∀ name ∈ names, good (.identifier name) := by
  refine .bind variableName_gives fun first hfirst => ?_
  cases first with
  | none => exact .found nofun
  | some first =>
    refine .bind .remaining fun count _ => .bind (moreNames_gives count) fun more hmore => .pure ?_
    intro names h
    obtain ⟨more, rfl, rfl⟩ := Option.map_eq_some_iff.1 h
    exact List.forall_mem_cons.2 ⟨hfirst _ rfl, hmore _ rfl⟩

/-- The head of a declaration. -/
theorem declarationHead_gives :
    (declarationHead : Parser K (Option (String × List String))).Gives good fun found =>
      ∀ head, found = some head → good (.identifier head.1) ∧
        ∀ name ∈ head.2, good (.identifier name) := by
  refine .speculate (.bind takeIdentifier_gives fun name? hname => ?_)
  cases name? with
  | none => exact .nothing
  | some name =>
    refine .bind (.accept _) fun opened _ => ?_
    cases opened with
    | false => exact .nothing
    | true =>
      refine .bind parameterNames_gives fun names? hnames => ?_
      cases names? with
      | none => exact .nothing
      | some names =>
        refine .bind (.accept _) fun closed _ => ?_
        cases closed with
        | false => exact .nothing
        | true =>
          exact .found ⟨hname _ rfl, hnames _ rfl⟩

/-! ### Trees -/

variable [Scalar K]

/-- Every tree the parser gives is grammatical. -/
def Builds (good : Token K → Prop) (statement : Bool) (p : Parser K (Option (Expr K))) : Prop :=
  p.Gives good fun found => ∀ e, found = some e → Grammatical good statement e

/-- A number, perhaps with a unit. -/
theorem number_builds : Builds good false (number : Parser K (Option (Expr K))) := by
  refine .bind takeNumber_gives fun x? hx => ?_
  cases x? with
  | none => exact .nothing
  | some x =>
    refine .skip (.take? _) fun unit? => ?_
    cases unit? with
    | none => exact .found (.number (hx x rfl))
    | some unit => exact .found (.angle unit (hx x rfl))

/-- A truth value. -/
theorem truth_builds : Builds good false (truth : Parser K (Option (Expr K))) := by
  refine .skip (.take? _) fun value? => ?_
  cases value? with
  | none => exact .nothing
  | some value => exact .found (.bool value)

/-- A string. -/
theorem text_builds : Builds good false (text : Parser K (Option (Expr K))) := by
  refine .bind takeString_gives fun value? hvalue => ?_
  cases value? with
  | none => exact .nothing
  | some value => exact .found (.string (hvalue value rfl))

omit [Scalar K] in
/-- The magnitude of a complex number. -/
theorem polarMagnitude_gives : (polarMagnitude : Parser K (Option K)).Gives good fun found =>
    ∀ x, found = some x → good (.number x) := by
  refine .speculate (.skip (.accept _) fun _ => .bind takeNumber_gives fun x? hx => ?_)
  cases x? with
  | none => exact .nothing
  | some x =>
    refine .bind (.accept _) fun angle _ => ?_
    cases angle with
    | false => exact .nothing
    | true => exact .pure hx

/-- A complex number. -/
theorem complexNumber_builds : Builds good false (complexNumber : Parser K (Option (Expr K))) := by
  refine .bind polarMagnitude_gives fun magnitude? hm => ?_
  cases magnitude? with
  | none => exact .nothing
  | some magnitude =>
    refine .skip (.take? _) fun sign? => .bind (.require takeNumber_gives) fun phase hp => ?_
    exact .skip (.expect _ _) fun _ => .found (.polar (sign?.getD false) (hm magnitude rfl) hp)

/-- A call. -/
theorem makeCall_gives {name : String} {as : List (Expr K)} (hname : good (.identifier name))
    (has : ∀ a ∈ as, Grammatical good false a) :
    (makeCall name as).Gives good (Grammatical good false) := by
  unfold makeCall
  split
  · refine (Gives.build _).mono fun e he => ?_
    unfold Expr.mkBuiltin at he
    split at he
    · next harity =>
      cases he
      exact .builtin harity has
    · cases he
  · next hfree => exact .pure (.call hname hfree has)

/-- The key of a definition. -/
theorem key_builds : Builds good false (key : Parser K (Option (Expr K))) := by
  refine .bind declarationHead_gives fun head? hhead => ?_
  cases head? with
  | none =>
    refine .bind variableName_gives fun name? hname => ?_
    cases name? with
    | none => exact .nothing
    | some name => exact .found (.var (hname name rfl))
  | some head =>
    obtain ⟨hname, hnames⟩ := hhead head rfl
    refine .bind (makeCall_gives hname fun a ha => ?_) fun e he => .found he
    obtain ⟨name, hmem, rfl⟩ := List.mem_map.1 ha
    exact .var (hnames name hmem)

section Recursive

variable {self : Nest → Parser K (Option (Expr K))}

/-- Every nested construct builds grammatical trees for its place. -/
def SelfBuilds (good : Token K → Prop) (self : Nest → Parser K (Option (Expr K))) : Prop :=
  Builds good true (self .statement) ∧ Builds good false (self .expression) ∧
    Builds good false (self .prefixed)

variable (hself : SelfBuilds good self)

include hself

/-- Expressions with commas between them. -/
theorem expressions_gives (construct : String) : (expressions self construct).Gives good
    fun found => ∀ a ∈ found, Grammatical good false a := by
  refine .bind hself.2.1 fun first? hfirst => ?_
  cases first? with
  | none => exact .pure nofun
  | some first =>
    refine .skip .remaining fun count => .bind (.moreItems hself.2.1.require _) fun more hmore => ?_
    exact .pure (List.forall_mem_cons.2 ⟨hfirst first rfl, hmore⟩)

/-- The arguments of a call. -/
theorem arguments_gives : (arguments self).Gives good
    fun found => ∀ as, found = some as → ∀ a ∈ as, Grammatical good false a := by
  refine .bind (.accept _) fun opened _ => ?_
  cases opened with
  | false => exact .nothing
  | true =>
    refine .bind (expressions_gives hself _) fun found hfound => .skip (.expect _ _) fun _ => ?_
    exact .found hfound

/-- A call or a variable. -/
theorem functionOrVariable_builds : Builds good false (functionOrVariable self) := by
  refine .bind takeIdentifier_gives fun name? hname => ?_
  cases name? with
  | none => exact .nothing
  | some name =>
    refine .bind (arguments_gives hself) fun found hfound => ?_
    cases found with
    | none => exact .found (.var (hname name rfl))
    | some as =>
      exact .bind (makeCall_gives (hname name rfl) (hfound as rfl)) fun e he => .found he

/-- An expression in parentheses. -/
theorem parentheses_builds : Builds good false (parentheses self) := by
  refine .bind (.accept _) fun opened _ => ?_
  cases opened with
  | false => exact .nothing
  | true => exact .bind hself.2.1.require fun e he => .skip (.expect _ _) fun _ => .found he

/-- The elements of a vector. -/
theorem elements_gives : (elements self).Gives good fun found =>
    ∀ as, found = some as → as ≠ [] ∧ ∀ a ∈ as, Grammatical good false a := by
  refine .bind (.accept _) fun opened _ => ?_
  cases opened with
  | false => exact .nothing
  | true =>
    refine .bind hself.2.1.require fun first hfirst => .skip .remaining fun count =>
      .bind (.moreItems hself.2.1.require _) fun more hmore => .skip (.expect _ _) fun _ => ?_
    exact .found ⟨List.cons_ne_nil _ _, List.forall_mem_cons.2 ⟨hfirst, hmore⟩⟩

/-- A vector. -/
theorem vector_builds : Builds good false (vector self) := by
  refine .bind (elements_gives hself) fun found hfound => ?_
  cases found with
  | none => exact .nothing
  | some as =>
    obtain ⟨hne, has⟩ := hfound as rfl
    cases as with
    | nil => exact absurd rfl hne
    | cons a as => exact .found (.vector has)

omit hself [Scalar K] in
/-- A matrix that is built has the given rows. -/
theorem mkMatrix_eq {rows : List (List (Expr K))} {e : Expr K} (h : Expr.mkMatrix rows = .ok e) :
    e = .matrix rows := by
  unfold Expr.mkMatrix at h
  split at h
  · cases h
  · split at h
    · cases h
    · split at h
      · cases h
      · cases h
        rfl

/-- A matrix. -/
theorem matrix_builds : Builds good false (matrix self) := by
  have hrow : (elements self).Gives good fun found =>
      ∀ as, found = some as → ∀ a ∈ as, Grammatical good false a :=
    (elements_gives hself).mono fun _ h as has => (h as has).2
  have hfirst : (firstRow self).Gives good fun found =>
      ∀ as, found = some as → ∀ a ∈ as, Grammatical good false a := by
    refine .speculate (.bind (.accept _) fun opened _ => ?_)
    cases opened with
    | false => exact .nothing
    | true => exact hrow
  refine .bind hfirst fun first? hfirst => ?_
  cases first? with
  | none => exact .nothing
  | some first =>
    refine .skip .remaining fun count => .bind (.moreItems (.require hrow) _) fun more hmore =>
      .skip (.expect _ _) fun _ => .bind (.build _) fun e he => .found ?_
    obtain rfl := mkMatrix_eq he
    exact .matrix he (List.forall_mem_cons.2 ⟨hfirst first rfl, hmore⟩)

/-- What operators apply to. -/
theorem operand_builds : Builds good false (operand self) := by
  refine Gives.firstOf ?_
  simp only [List.forall_mem_cons, List.not_mem_nil, false_imp_iff, implies_true, and_true]
  exact ⟨complexNumber_builds, number_builds, functionOrVariable_builds hself, truth_builds,
    text_builds, parentheses_builds hself, matrix_builds hself, vector_builds hself⟩

/-! ### Operators -/

omit hself in
/-- The factorial signs behind an operand. -/
theorem factorials_gives : ∀ (count : Nat) {e : Expr K}, Grammatical good false e →
    (factorials count e).Gives good (Grammatical good false)
  | 0, _, he => .pure he
  | count + 1, e, he => by
    refine .bind (.accept _) fun bang _ => ?_
    cases bang with
    | false => exact .pure he
    | true => exact factorials_gives count (.unary .factorial he)

omit hself in
/-- The step behind a variable. -/
theorem stepOf_builds {e : Expr K} (he : Grammatical good false e) :
    Builds good false (stepOf e) := by
  cases he with
  | var hname =>
    refine .skip (.take? _) fun op? => ?_
    cases op? with
    | none => exact .nothing
    | some op => exact .found (.step op hname)
  | _ => exact .nothing

/-- An operand with postfixed operators. -/
theorem postfixed_builds : Builds good false (postfixed self) := by
  refine .bind (operand_builds hself) fun e? he => ?_
  cases e? with
  | none => exact .nothing
  | some e =>
    have he := he e rfl
    refine .bind (stepOf_builds he) fun step? hstep => ?_
    cases step? with
    | some step => exact .found (hstep step rfl)
    | none =>
      exact .skip .remaining fun count => .bind (factorials_gives count he) fun e he => .found he

/-- An operand and perhaps an exponent. -/
theorem power_builds : Builds good false (power self) := by
  refine .bind (postfixed_builds hself) fun base? hbase => ?_
  cases base? with
  | none => exact .nothing
  | some base =>
    refine .bind (.accept _) fun caret _ => ?_
    cases caret with
    | false => exact .found (hbase base rfl)
    | true =>
      exact .bind hself.2.2.require fun exponent hexponent =>
        .found (.binary .pow (hbase base rfl) hexponent)

/-- What a token makes of an operand is grammatical. -/
theorem prefixed_builds : Builds good false (prefixed self) := by
  refine .inspect fun r => ?_
  split
  · exact power_builds hself
  · next apply happly =>
    have hgrammatical {e : Expr K} (he : Grammatical good false e) :
        Grammatical good false (apply e) := by
      obtain ⟨t, -, ht⟩ := Option.bind_eq_some_iff.1 happly
      unfold prefixed? at ht
      split at ht <;> cases ht
      · exact .unary .minus he
      · exact .unary .not he
      · exact .unary .not he
      · exact .unary .not he
      · exact he
    refine .speculate (.skip (.take? _) fun _ => .bind hself.2.2 fun e? he => ?_)
    cases e? with
    | none => exact .nothing
    | some e => exact .found (hgrammatical (he e rfl))

/-- The name behind a number in an implicit product. -/
theorem namedFactor_builds : Builds good false (namedFactor self) := by
  refine .bind (functionOrVariable_builds hself) fun base? hbase => ?_
  cases base? with
  | none => exact .nothing
  | some base =>
    refine .bind (.accept _) fun caret _ => ?_
    cases caret with
    | false => exact .found (hbase base rfl)
    | true =>
      exact .bind (power_builds hself).require fun exponent hexponent =>
        .found (.binary .pow (hbase base rfl) hexponent)

/-- A number with a factor. -/
theorem numberTimes_builds : Builds good false (numberTimes self) := by
  have hfactor : Builds good false
      (firstOf [namedFactor self, parentheses self, matrix self, vector self]) := by
    refine Gives.firstOf ?_
    simp only [List.forall_mem_cons, List.not_mem_nil, false_imp_iff, implies_true, and_true]
    exact ⟨namedFactor_builds hself, parentheses_builds hself, matrix_builds hself,
      vector_builds hself⟩
  refine .speculate (.skip (.accept _) fun negative => ?_)
  refine .bind number_builds fun factor? hfactor' => ?_
  cases factor? with
  | none => exact .nothing
  | some factor =>
    refine .bind hfactor fun right? hright => ?_
    cases right? with
    | none => exact .nothing
    | some right =>
      have hleft := hfactor' factor rfl
      cases negative with
      | false => exact .found (.binary .mul hleft (hright right rfl))
      | true => exact .found (.binary .mul (.unary .minus hleft) (hright right rfl))

/-- An implicit product or a prefixed operand. -/
theorem implicitProduct_builds : Builds good false (implicitProduct self) := by
  refine Gives.firstOf ?_
  simp only [List.forall_mem_cons, List.not_mem_nil, false_imp_iff, implies_true, and_true]
  exact ⟨numberTimes_builds hself, hself.2.2⟩

omit hself in
/-- The operators of one precedence behind a left operand. -/
theorem chain_gives {precedence : Nat} {next : Parser K (Option (Expr K))}
    (hnext : Builds good false next) : ∀ (count : Nat) {left : Expr K},
      Grammatical good false left →
        (chain precedence next count left).Gives good (Grammatical good false)
  | 0, _, hleft => .pure hleft
  | count + 1, left, hleft => by
    refine .skip (.take? _) fun op? => ?_
    cases op? with
    | none => exact .pure hleft
    | some op =>
      exact .bind hnext.require fun right hright =>
        chain_gives hnext count (.binary op hleft hright)

/-- Operators of the given precedences. -/
theorem ladder_builds : ∀ precedences, Builds good false (ladder self precedences)
  | [] => implicitProduct_builds hself
  | precedence :: tighter => by
    refine .bind (ladder_builds tighter) fun left? hleft => ?_
    cases left? with
    | none => exact .nothing
    | some left =>
      exact .skip .remaining fun count =>
        .bind (chain_gives (ladder_builds tighter) count (hleft left rfl)) fun e he => .found he

/-- A condition with its branches. -/
theorem conditional_builds : Builds good false (conditional self) := by
  refine .bind (ladder_builds hself _) fun c? hc => ?_
  cases c? with
  | none => exact .nothing
  | some c =>
    refine .bind (.accept _) fun question _ => ?_
    cases question with
    | false => exact .found (hc c rfl)
    | true =>
      exact .bind hself.2.1.require fun yes hyes => .skip (.expect _ _) fun _ =>
        .bind hself.2.1.require fun no hno => .found (.ifThenElse (hc c rfl) hyes hno)

/-! ### Statements -/

omit hself [Scalar K] in
/-- The variable of a compound assignment. -/
theorem assignmentHead_gives : (assignmentHead : Parser K (Option (AssignOp × String))).Gives good
    fun found => ∀ head, found = some head → good (.identifier head.2) := by
  refine .speculate (.bind variableName_gives fun name? hname => ?_)
  cases name? with
  | none => exact .nothing
  | some name =>
    refine .skip (.take? _) fun op? => ?_
    cases op? with
    | none => exact .nothing
    | some op => exact .found (hname name rfl)

/-- A compound assignment. -/
theorem compoundAssignment_builds : Builds good false (compoundAssignment self) := by
  refine .bind assignmentHead_gives fun head? hhead => ?_
  cases head? with
  | none => exact .nothing
  | some head =>
    exact .bind hself.2.1.require fun value hvalue => .found (.assign _ (hhead head rfl) hvalue)

omit hself in
/-- A definition that is built has a key that can be bound. -/
theorem mkDefine_builds {k value : Expr K} (hk : Grammatical good false k)
    (hvalue : Grammatical good false value) :
    Builds good true (do return some (← build (Expr.mkDefine k value))) := by
  refine .bind (.build _) fun e he => .found ?_
  unfold Expr.mkDefine at he
  split at he
  · next hkey =>
    cases he
    exact .define hkey hk hvalue
  · cases he

omit hself in
/-- The key of a definition. -/
theorem definitionKey_builds :
    Builds good false (definitionKey : Parser K (Option (Expr K))) := by
  refine .speculate (.bind key_builds fun k? hk => ?_)
  cases k? with
  | none => exact .nothing
  | some k =>
    refine .bind (.accept _) fun becomes _ => ?_
    cases becomes with
    | false => exact .nothing
    | true => exact .found (hk k rfl)

/-- `key := value`. -/
theorem definition_builds : Builds good true (definition self) := by
  refine .bind definitionKey_builds fun k? hk => ?_
  cases k? with
  | none => exact .nothing
  | some k => exact .bind hself.2.1.require fun value hvalue => mkDefine_builds (hk k rfl) hvalue

omit hself [Scalar K] in
/-- The keyword of a statement. -/
theorem opening_gives (word : Keyword) (construct : String) :
    (opening word construct : Parser K Bool).Gives good fun _ => True := by
  refine .bind (.accept _) fun found _ => ?_
  cases found with
  | false => exact .pure trivial
  | true => exact .skip (.expect _ _) fun _ => .pure trivial

/-- `def(key, value)`. -/
theorem define_builds : Builds good true (define self) := by
  refine .bind (opening_gives _ _) fun opened _ => ?_
  cases opened with
  | false => exact .nothing
  | true =>
    exact .bind key_builds.require fun k hk => .skip (.expect _ _) fun _ =>
      .bind hself.2.1.require fun value hvalue => .skip (.expect _ _) fun _ =>
        mkDefine_builds hk hvalue

omit hself in
/-- `undef(key)`. -/
theorem undefine_builds : Builds good true (undefine : Parser K (Option (Expr K))) := by
  refine .bind (opening_gives _ _) fun opened _ => ?_
  cases opened with
  | false => exact .nothing
  | true =>
    refine .bind key_builds.require fun k hk => .skip (.expect _ _) fun _ =>
      .bind (.build _) fun e he => .found ?_
    unfold Expr.mkUndefine at he
    split at he
    · next hkey =>
      cases he
      exact .undefine hkey hk
    · cases he

/-- `if(condition, yes)` and `if(condition, yes, no)`. -/
theorem ifStatement_builds : Builds good true (ifStatement self) := by
  refine .bind (opening_gives _ _) fun opened _ => ?_
  cases opened with
  | false => exact .nothing
  | true =>
    refine .bind (ladder_builds hself _).require fun c hc => .skip (.expect _ _) fun _ =>
      .bind hself.2.1.require fun yes hyes => .bind (.accept _) fun comma _ => ?_
    cases comma with
    | false => exact .skip (.expect _ _) fun _ => .found (.ifThen hc hyes)
    | true =>
      exact .bind hself.2.1.require fun no hno => .skip (.expect _ _) fun _ =>
        .found (.ifThenElse hc hyes hno)

/-- `for(body, init, condition, iteration)`. -/
theorem forStatement_builds : Builds good true (forStatement self) := by
  refine .bind (opening_gives _ _) fun opened _ => ?_
  cases opened with
  | false => exact .nothing
  | true =>
    exact .bind hself.1.require fun body hbody => .skip (.expect _ _) fun _ =>
      .bind hself.1.require fun init hinit => .skip (.expect _ _) fun _ =>
        .bind (ladder_builds hself _).require fun c hc => .skip (.expect _ _) fun _ =>
          .bind hself.1.require fun iteration hiteration => .skip (.expect _ _) fun _ =>
            .found (.forLoop hbody hinit hc hiteration)

/-- `while(body, condition)`. -/
theorem whileStatement_builds : Builds good true (whileStatement self) := by
  refine .bind (opening_gives _ _) fun opened _ => ?_
  cases opened with
  | false => exact .nothing
  | true =>
    exact .bind hself.1.require fun body hbody => .skip (.expect _ _) fun _ =>
      .bind (ladder_builds hself _).require fun c hc => .skip (.expect _ _) fun _ =>
        .found (.whileLoop hbody hc)

omit hself in
/-- What builds expressions builds statements. -/
theorem Builds.statement {p : Parser K (Option (Expr K))} (hp : Builds good false p) :
    Builds good true p := Gives.mono hp fun _ h e he => (h e he).statement

/-- The bodies of the nested constructs. -/
theorem nest_builds : SelfBuilds good (nest self) := by
  refine ⟨?_, ?_, prefixed_builds hself⟩
  · refine Gives.firstOf ?_
    simp only [List.forall_mem_cons, List.not_mem_nil, false_imp_iff, implies_true, and_true]
    exact ⟨(compoundAssignment_builds hself).statement, definition_builds hself,
      define_builds hself, undefine_builds, ifStatement_builds hself, forStatement_builds hself,
      whileStatement_builds hself, hself.2.1.statement⟩
  · refine Gives.firstOf ?_
    simp only [List.forall_mem_cons, List.not_mem_nil, false_imp_iff, implies_true, and_true]
    exact ⟨compoundAssignment_builds hself, conditional_builds hself⟩

end Recursive

end Grammar

/-! ## Whole formulas -/

open Formula.Parser Formula.Grammar

variable [Scalar K] {good : Token K → Prop}

/-- The recursion of the grammar builds grammatical trees. -/
theorem Nest.parserWithin_builds : ∀ levels,
    SelfBuilds good (fun n => n.parserWithin levels : Nest → Parser K (Option (Expr K)))
  | 0 => ⟨.nothing, .nothing, .nothing⟩
  | levels + 1 => by
    have hnest := nest_builds (parserWithin_builds levels)
    exact ⟨hnest.1.nested, hnest.2.1.nested, hnest.2.2.nested⟩

/-- **Whatever is read from good tokens is grammatical.** -/
theorem parseTokens_grammatical {tokens : List (Token K × Nat)} {maxDepth? : Option Nat}
    {e : Expr K} (htokens : ∀ t ∈ tokens, good t.1) (h : parseTokens tokens maxDepth? = .ok e) :
    Grammatical good true e := by
  have hstatement : Builds good true (Nest.statement.parser : Parser K (Option (Expr K))) :=
    .skip .remaining fun _ => (Nest.parserWithin_builds _).1
  unfold parseTokens at h
  dsimp only at h
  split at h
  · cases h
  · split at h <;> cases h
  · next e' after hrun =>
    have hgrammatical := (hstatement _ (by simpa [Reader.ofTokens] using htokens) _ _ hrun).1 e' rfl
    split at h
    · cases h
    · cases h
      exact hgrammatical

/-- **Whatever is read from a text is grammatical.** -/
theorem grammatical_of_parse [Scalar.LawfulText K] {source : String} {maxDepth? : Option Nat}
    {e : Expr K} (h : parseWithin maxDepth? source = .ok e) : Grammatical Token.IsLexed true e := by
  unfold parseWithin at h
  split at h
  · cases h
  · cases htokenize : (tokenize source : Except _ (List (Token K × Nat))) with
    | error cause =>
      rw [htokenize] at h
      cases h
    | ok located =>
      rw [htokenize] at h
      exact parseTokens_grammatical (tokenizeFrom_isLexed _ htokenize) h

end Formula

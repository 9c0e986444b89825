import Formula.Proofs.Binary64.Shortest
import Formula.Proofs.RoundTrip.Normal
import Formula.Proofs.RoundTrip.Signs

/-!
# A written tree is read back

`Expr.parse_text`: the text of an expression is read as the tree, but that a number with a minus
sign becomes a prefixed minus in front of the number. The lexer cuts the text into the tokens of the
tree (`Formula.Proofs.RoundTrip.Text`), and the grammar reads these as the tree
(`Formula.Proofs.RoundTrip.Parsing`).

A complex number and an angle have no such prefixed form: a magnitude with a minus sign, even that
of a negative zero, is written in front of the literal and read as an operator that applies to it.
These are the only expressions that are not read back (`Formula.Proofs.RoundTrip.Signs`).
-/

namespace Formula.Expr

open Formula.Scalar (LawfulText ReadsBack)

variable {K : Type} [Scalar K]

/-- **Written and read back.** The text of a tree made of literals, names, operators, calls,
conditionals and compound assignments is read, without a limit on nesting, as the tree with a
prefixed minus for every minus sign of a number, if each number is read back from its own text, and
exactly if no complex number has a magnitude and no angle a value with a minus sign. -/
theorem parse_text [LawfulText K] {e : Expr K} (h : e.isWritable = true)
    (hreads : ∀ a ∈ e.literals, ReadsBack a) :
    (parseWithin none e.text = .ok e.normal ↔ e.hidesSign = false) ∧
      (e.hasSign = false → e.normal = e) := by
  refine ⟨⟨fun hparse => ?_, fun hsign => ?_⟩, normal_of_unsigned⟩
  · rw [← hidesSign_normal]
    exact hidesSign_of_parse hparse
  · obtain ⟨located, htokenize, hlocated⟩ := tokenize_text h hsign hreads
    rw [parseWithin, text_not_whiteSpace h hsign, htokenize]
    exact parseTokens_tokens h hlocated

/-- The product `-2 * sin(x)` is read back with a prefixed minus. -/
theorem parse_text_product :
    parseWithin none
        (binary .mul (number (Scalar.ofInt (-2))) (builtin .sin [var "x"]) : Expr Binary64).text =
      .ok (binary .mul (unary .minus (number (Scalar.ofInt 2))) (builtin .sin [var "x"]) :
        Expr Binary64) := by
  have hwritable : (binary .mul (number (Scalar.ofInt (-2))) (builtin .sin [var "x"]) :
      Expr Binary64).isWritable = true := by decide +kernel
  have htwo : ReadsBack (Scalar.ofInt 2 : Binary64) := Binary64.readsBack rfl rfl
  refine (parse_text hwritable fun a ha => ?_).1.2 rfl
  obtain rfl : a = Scalar.ofInt 2 := List.mem_singleton.1 ha
  exact htwo

/-- The complex number of magnitude `-0` and phase `30°` is read as a prefixed minus of one. -/
theorem parse_text_negative_zero : ¬∀ magnitude phase : Binary64,
    Scalar.isFinite magnitude = true → Scalar.le Scalar.zero magnitude = true →
      Scalar.isFinite phase = true → (∀ a ∈ (polar magnitude phase).literals, ReadsBack a) →
        parseWithin none (polar magnitude phase).text = .ok (polar magnitude phase) := by
  intro h
  have hzero : ReadsBack (Scalar.zero : Binary64) := Binary64.readsBack rfl rfl
  have hthirty : ReadsBack (Scalar.ofInt 30 : Binary64) := Binary64.readsBack rfl rfl
  have hreads : ∀ a ∈ [(Scalar.zero : Binary64), Scalar.ofInt 30], ReadsBack a := by
    simp [hzero, hthirty]
  have hparse := h (-(Scalar.zero : Binary64)) (Scalar.ofInt 30) rfl (by decide) (by decide) hreads
  have hkind : (parseWithin none (polar (-Scalar.zero) (Scalar.ofInt 30) :
      Expr Binary64).text : Except ParseError (Expr Binary64)).toOption.map kind =
        some (.unary .minus) := by decide +kernel
  rw [hparse] at hkind
  cases hkind

end Formula.Expr

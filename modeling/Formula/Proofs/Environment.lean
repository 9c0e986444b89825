import Formula.Environment
import Formula.Proofs.Result
import Mathlib.Data.List.Forall2

/-!
# What changes of an environment leave alone

Binding and removing names changes neither how many scopes are open nor what other names stand
for. Three views follow from it: the depth of an environment, the property that everything it
stores, values and function bodies alike, satisfies a predicate, and the agreement of two
environments that differ in the bodies of their functions only.
-/

namespace Formula

/-! ## Bindings -/

namespace Bindings

variable {α β : Type} [BEq α] {P : β → Prop} {b : Bindings α β} {key : α} {value : β}

/-- Everything that is bound satisfies a predicate. -/
def All (P : β → Prop) (b : Bindings α β) : Prop := ∀ entry ∈ b.entries, P entry.2

omit [BEq α] in
/-- Nothing is bound. -/
theorem All.empty : (empty : Bindings α β).All P := nofun

/-- Removing a key binds nothing. -/
theorem All.erase (h : b.All P) : (b.erase key).All P :=
  fun entry hentry => h entry (List.mem_filter.1 hentry).1

/-- A new value has to satisfy the predicate. -/
theorem All.insert (h : b.All P) (hvalue : P value) : (b.insert key value).All P :=
  List.forall_mem_cons.2 ⟨hvalue, h.erase⟩

/-- Bindings from a list. -/
theorem All.ofList {entries : List (α × β)} (h : ∀ entry ∈ entries, P entry.2) :
    (ofList entries).All P := by
  have fold (b : Bindings α β) (hb : b.All P) :
      (entries.foldl (fun b entry => b.insert entry.1 entry.2) b).All P := by
    induction entries generalizing b with
    | nil => exact hb
    | cons entry rest ih =>
      obtain ⟨hentry, hrest⟩ := List.forall_mem_cons.1 h
      exact ih hrest _ (hb.insert hentry)
  exact fold _ .empty

/-- What a key stands for. -/
theorem All.get? (h : b.All P) (hget : b.get? key = some value) : P value := by
  obtain ⟨entries⟩ := b
  have find : ∀ {entries : List (α × β)}, (∀ entry ∈ entries, P entry.2) →
      entries.lookup key = some value → P value := by
    intro entries hall hlookup
    induction entries with
    | nil => cases hlookup
    | cons entry rest ih =>
      obtain ⟨hentry, hrest⟩ := List.forall_mem_cons.1 hall
      rw [List.lookup_cons] at hlookup
      split at hlookup
      · cases hlookup
        exact hentry
      · exact ih hrest hlookup
  exact find h hget

/-! ## One key -/

section

variable [LawfulBEq α] {other : α}

/-- What a key stands for is bound to it. -/
theorem mem_of_get? (h : b.get? key = some value) : (key, value) ∈ b.entries := by
  obtain ⟨before, after, hentries, -⟩ := List.lookup_eq_some_iff.1 h
  rw [hentries]
  exact List.mem_append_right before (.head after)

/-- A removed key stands for nothing. -/
theorem get?_erase_self : (b.erase key).get? key = none := by
  refine Option.eq_none_iff_forall_ne_some.2 fun value h => ?_
  have hne := (List.mem_filter.1 (mem_of_get? h)).2
  exact absurd hne (by simp)

/-- Removing a key leaves what another one stands for. -/
theorem get?_erase_of_ne (hne : other ≠ key) : (b.erase key).get? other = b.get? other := by
  obtain ⟨entries⟩ := b
  change (entries.filter (·.1 != key)).lookup other = entries.lookup other
  induction entries with
  | nil => rfl
  | cons entry rest ih =>
    rw [List.filter_cons]
    split
    · rw [List.lookup_cons, List.lookup_cons, ih]
    · next hkey =>
      have hfst : entry.1 = key := by simpa using hkey
      rw [ih, List.lookup_cons, hfst, beq_eq_false_iff_ne.2 hne]

/-- A bound key stands for its value. -/
theorem get?_insert_self : (b.insert key value).get? key = some value := by
  change List.lookup key (_ :: _) = _
  rw [List.lookup_cons, beq_self_eq_true]

/-- Binding a key leaves what another one stands for. -/
theorem get?_insert_of_ne (hne : other ≠ key) :
    (b.insert key value).get? other = b.get? other := by
  rw [← get?_erase_of_ne hne (b := b)]
  change List.lookup other (_ :: _) = _
  rw [List.lookup_cons, beq_eq_false_iff_ne.2 hne]
  rfl

end

/-! ## Bindings of related values -/

/-- The same keys in the same order, bound to related values. -/
def Agrees (R : β → β → Prop) (b b' : Bindings α β) : Prop :=
  List.Forall₂ (fun entry entry' => entry'.1 = entry.1 ∧ R entry.2 entry'.2) b.entries b'.entries

section

variable {R : β → β → Prop} {b' : Bindings α β} {value' : β}

omit [BEq α] in
/-- Every value is related to itself. -/
theorem Agrees.refl (hR : ∀ value, R value value) (b : Bindings α β) : b.Agrees R b :=
  List.forall₂_same.2 fun _ _ => ⟨rfl, hR _⟩

omit [BEq α] in
/-- Where related values are the same, so are the bindings. -/
theorem Agrees.eq (h : b.Agrees Eq b') : b' = b := by
  obtain ⟨entries⟩ := b
  obtain ⟨entries'⟩ := b'
  change List.Forall₂ _ entries entries' at h
  refine congrArg Bindings.mk ?_
  induction h with
  | nil => rfl
  | cons hentry _ ih => rw [ih, Prod.ext hentry.1 hentry.2.symm]

/-- Removing a key. -/
theorem Agrees.erase (h : b.Agrees R b') : (b.erase key).Agrees R (b'.erase key) := by
  obtain ⟨entries⟩ := b
  obtain ⟨entries'⟩ := b'
  change List.Forall₂ _ entries entries' at h
  induction h with
  | nil => exact .nil
  | @cons entry entry' rest rest' hentry _ ih =>
    simp only [Agrees, Bindings.erase, List.filter_cons, hentry.1] at ih ⊢
    split
    · exact .cons hentry ih
    · exact ih

/-- Binding a key. -/
theorem Agrees.insert (h : b.Agrees R b') (hvalue : R value value') :
    (b.insert key value).Agrees R (b'.insert key value') := .cons ⟨rfl, hvalue⟩ h.erase

/-- What a key stands for. -/
theorem Agrees.get? (h : b.Agrees R b') (key : α) : Option.Rel R (b.get? key) (b'.get? key) := by
  obtain ⟨entries⟩ := b
  obtain ⟨entries'⟩ := b'
  change List.Forall₂ _ entries entries' at h
  induction h with
  | nil => exact .none
  | @cons entry entry' rest rest' hentry _ ih =>
    change Option.Rel R ((entry :: rest).lookup key) ((entry' :: rest').lookup key)
    rw [List.lookup_cons, List.lookup_cons, hentry.1]
    split
    · exact .some hentry.2
    · exact ih

end

end Bindings

namespace Environment

variable {K : Type} {env env' : Environment K} {name : String} {value : Value K}
  {old : Option (Value K)} {n arity : Nat}

/-! ## Scopes -/

/-- A predicate that a change of one scope keeps. -/
theorem forall_mem_modifyScope {P : Scope K → Prop} {f : Scope K → Scope K}
    (hf : ∀ scope, P scope → P (f scope)) :
    ∀ {scopes : List (Scope K)}, (∀ scope ∈ scopes, P scope) →
      ∀ scope ∈ modifyScope name f scopes, P scope
  | [], _ => nofun
  | scope :: outer, h => by
    obtain ⟨hscope, houter⟩ := List.forall_mem_cons.1 h
    rw [modifyScope]
    split
    · exact List.forall_mem_cons.2 ⟨hf scope hscope, houter⟩
    · exact List.forall_mem_cons.2 ⟨hscope, forall_mem_modifyScope hf houter⟩

/-- A predicate that a change of the innermost scope keeps. -/
theorem forall_mem_modifyInnermost {P : Scope K → Prop} {f : Scope K → Scope K}
    (hf : ∀ scope, P scope → P (f scope)) :
    ∀ {scopes : List (Scope K)}, (∀ scope ∈ scopes, P scope) →
      ∀ scope ∈ modifyInnermost f scopes, P scope
  | [], _ => nofun
  | scope :: outer, h => by
    obtain ⟨hscope, houter⟩ := List.forall_mem_cons.1 h
    exact List.forall_mem_cons.2 ⟨hf scope hscope, houter⟩

/-- Changing a scope opens and closes none. -/
@[simp] theorem length_modifyScope {f : Scope K → Scope K} :
    ∀ scopes : List (Scope K), (modifyScope name f scopes).length = scopes.length
  | [] => rfl
  | scope :: outer => by
    rw [modifyScope]
    split
    · rfl
    · rw [List.length_cons, length_modifyScope outer, List.length_cons]

/-- Changing the innermost scope opens and closes none. -/
@[simp] theorem length_modifyInnermost {f : Scope K → Scope K} (scopes : List (Scope K)) :
    (modifyInnermost f scopes).length = scopes.length := by
  cases scopes <;> rfl

/-- What a change of one scope makes of the outermost one. -/
theorem getLast?_modifyScope {f : Scope K → Scope K} {last' : Scope K} :
    ∀ {scopes : List (Scope K)}, (modifyScope name f scopes).getLast? = some last' →
      ∃ last, scopes.getLast? = some last ∧ (last' = last ∨ last' = f last)
  | [scope], h => by
    rw [modifyScope] at h
    split at h <;> cases h
    · exact ⟨scope, rfl, .inr rfl⟩
    · exact ⟨scope, rfl, .inl rfl⟩
  | scope :: outer :: rest, h => by
    rw [modifyScope] at h
    split at h
    · rw [List.getLast?_cons_cons] at h
      exact ⟨last', by rw [List.getLast?_cons_cons, h], .inl rfl⟩
    · have hne : modifyScope name f (outer :: rest) ≠ [] := by
        rw [← List.length_pos_iff, length_modifyScope]
        exact Nat.succ_pos _
      rw [List.getLast?_cons_of_ne_nil hne] at h
      obtain ⟨last, hlast, heq⟩ := getLast?_modifyScope h
      exact ⟨last, by rw [List.getLast?_cons_cons, hlast], heq⟩

/-- What a change of the innermost scope makes of the outermost one. -/
theorem getLast?_modifyInnermost {f : Scope K → Scope K} {last' : Scope K} :
    ∀ {scopes : List (Scope K)}, (modifyInnermost f scopes).getLast? = some last' →
      ∃ last, scopes.getLast? = some last ∧ (last' = last ∨ last' = f last)
  | [scope], h => by
    cases h
    exact ⟨scope, rfl, .inr rfl⟩
  | scope :: outer :: rest, h => by
    rw [modifyInnermost, List.getLast?_cons_cons] at h
    exact ⟨last', by rw [List.getLast?_cons_cons, h], .inl rfl⟩

/-- Binding a name that is no constant changes a scope. -/
theorem set_cases (h : env.set name value = .ok env') : env.isConstant name = false ∧
    ∃ scopes, env' = { env with scopes := scopes } ∧
      (scopes = modifyScope name (·.insert name value) env.scopes ∨
        scopes = modifyInnermost (·.insert name value) env.scopes) := by
  unfold set at h
  split at h
  · cases h
  · next hconstant =>
    cases h
    refine ⟨Bool.eq_false_iff.2 hconstant, _, rfl, ?_⟩
    split
    · exact .inl rfl
    · exact .inr rfl

/-- Removing a name that is no constant changes a scope. -/
theorem remove_cases (h : env.remove name = .ok (old, env')) : env.isConstant name = false ∧
    env' = { env with scopes := modifyScope name (·.erase name) env.scopes } := by
  unfold remove at h
  split at h
  · cases h
  · next hconstant =>
    cases h
    exact ⟨Bool.eq_false_iff.2 hconstant, rfl⟩

/-- Closing a scope leaves the outermost one as it is. -/
theorem pop_cases (env : Environment K) :
    ∃ scopes, env.pop = { env with scopes := scopes } ∧
      scopes.getLast? = env.scopes.getLast? := by
  unfold pop
  split
  · next scope outer rest hscopes => exact ⟨_, rfl, by rw [hscopes, List.getLast?_cons_cons]⟩
  · exact ⟨_, rfl, rfl⟩

/-! ## Depth -/

/-- Binding a name leaves the scopes open. -/
theorem depth_set (h : env.set name value = .ok env') : env'.depth = env.depth := by
  obtain ⟨-, scopes, rfl, rfl | rfl⟩ := set_cases h <;> simp [depth]

/-- Removing a name leaves the scopes open. -/
theorem depth_remove (h : env.remove name = .ok (old, env')) : env'.depth = env.depth := by
  obtain ⟨-, rfl⟩ := remove_cases h
  simp [depth]

/-- An opened scope counts. -/
@[simp] theorem depth_push (scope : Scope K) : (env.push scope).depth = env.depth + 1 := rfl

/-- Closing a scope under which another one is open. -/
theorem depth_pop (h : env.depth = n + 1) (hn : 0 < n) : env.pop.depth = n := by
  unfold pop
  split
  · next scope outer rest hscopes =>
    simpa [depth, hscopes] using h
  · next hscopes =>
    obtain ⟨scope, rest, hrest⟩ := List.exists_cons_of_length_eq_add_one h
    obtain ⟨outer, rest, rfl⟩ := List.exists_cons_of_length_pos (l := rest) (by
      simp only [depth, hrest, List.length_cons] at h
      omega)
    exact absurd hrest (hscopes scope outer rest)

/-! ## What is stored -/

/-- Every stored value satisfies `V`, and every body of a user function `B`. -/
structure Stores (V : Value K → Prop) (B : Expr K → Prop) (env : Environment K) : Prop where
  scopes : ∀ scope ∈ env.scopes, scope.All V
  constants : env.constants.All V
  functions : env.functions.All fun definition => B definition.body

namespace Stores

variable {V : Value K → Prop} {B : Expr K → Prop}

/-- Less may be asked of what is stored. -/
theorem imp {V' : Value K → Prop} {B' : Expr K → Prop} (h : env.Stores V B)
    (hV : ∀ v, V v → V' v) (hB : ∀ e, B e → B' e) : env.Stores V' B' where
  scopes scope hscope entry hentry := hV _ (h.scopes scope hscope entry hentry)
  constants entry hentry := hV _ (h.constants entry hentry)
  functions entry hentry := hB _ (h.functions entry hentry)

/-- What a name stands for. -/
theorem get? (h : env.Stores V B) (hget : env.get? name = some value) : V value := by
  rcases Option.or_eq_some_iff.1 hget with hscope | ⟨-, hconstant⟩
  · obtain ⟨scope, hmem, hscope⟩ := List.exists_of_findSome?_eq_some hscope
    exact (h.scopes scope hmem).get? hscope
  · exact h.constants.get? hconstant

/-- The body of a user function. -/
theorem function? {definition : FunctionDefinition K} (h : env.Stores V B)
    (hget : env.function? name arity = some definition) : B definition.body :=
  h.functions.get? hget

/-- Binding a name. -/
theorem set (h : env.Stores V B) (hvalue : V value) (hset : env.set name value = .ok env') :
    env'.Stores V B := by
  obtain ⟨-, scopes, rfl, rfl | rfl⟩ := set_cases hset
  · exact ⟨forall_mem_modifyScope (fun scope hscope => hscope.insert hvalue) h.scopes,
      h.constants, h.functions⟩
  · exact ⟨forall_mem_modifyInnermost (fun scope hscope => hscope.insert hvalue) h.scopes,
      h.constants, h.functions⟩

/-- Removing a name. -/
theorem remove (h : env.Stores V B) (hremove : env.remove name = .ok (old, env')) :
    env'.Stores V B := by
  obtain ⟨-, rfl⟩ := remove_cases hremove
  exact ⟨forall_mem_modifyScope (fun scope hscope => hscope.erase) h.scopes, h.constants,
    h.functions⟩

/-- Binding a user function. -/
theorem defineFunction {definition : FunctionDefinition K} (h : env.Stores V B)
    (hbody : B definition.body) : (env.defineFunction name definition).Stores V B :=
  ⟨h.scopes, h.constants, h.functions.insert hbody⟩

/-- Removing a user function. -/
theorem removeFunction (h : env.Stores V B) : (env.removeFunction name arity).2.Stores V B :=
  ⟨h.scopes, h.constants, h.functions.erase⟩

/-- Opening a scope. -/
theorem push {scope : Scope K} (h : env.Stores V B) (hscope : scope.All V) :
    (env.push scope).Stores V B :=
  ⟨List.forall_mem_cons.2 ⟨hscope, h.scopes⟩, h.constants, h.functions⟩

/-- Closing a scope. -/
theorem pop (h : env.Stores V B) : env.pop.Stores V B := by
  unfold Environment.pop
  split
  · next scope outer rest hscopes =>
    refine ⟨fun s hs => h.scopes s ?_, h.constants, h.functions⟩
    rw [hscopes]
    exact List.mem_cons_of_mem scope hs
  · exact h

/-- A new environment stores nothing. -/
theorem withoutConstants : (withoutConstants : Environment K).Stores V B :=
  ⟨by simp [Environment.withoutConstants, Bindings.All.empty], .empty, .empty⟩

/-- A new environment stores its constants. -/
theorem initial [Scalar K] (hnumber : ∀ a : K, V (.number a)) (hcomplex : ∀ z, V (.complex z)) :
    (initial : Environment K).Stores V B := by
  refine ⟨by simp [Environment.initial, Bindings.All.empty], .ofList ?_, .empty⟩
  simp [hnumber, hcomplex]

end Stores

end Environment

/-! ## Environments that differ in the bodies of functions -/

/-- The same parameters and related bodies. -/
structure FunctionDefinition.Agrees {K : Type} (B : Expr K → Expr K → Prop)
    (definition definition' : FunctionDefinition K) : Prop where
  parameters : definition'.parameters = definition.parameters
  body : B definition.body definition'.body

namespace Environment

variable {K : Type}

/-- The same variables and constants, and user functions that differ in related bodies only. -/
structure Agrees (B : Expr K → Expr K → Prop) (env env' : Environment K) : Prop where
  scopes : env'.scopes = env.scopes
  constants : env'.constants = env.constants
  functions : env.functions.Agrees (FunctionDefinition.Agrees B) env'.functions

namespace Agrees

variable {B : Expr K → Expr K → Prop} {env env' : Environment K} (h : env.Agrees B env')

/-- Every body is related to itself. -/
theorem refl (hB : ∀ e, B e e) (env : Environment K) : env.Agrees B env :=
  ⟨rfl, rfl, .refl (fun _ => ⟨rfl, hB _⟩) _⟩

/-- Where related bodies are the same, so are the environments. -/
theorem eq (h : env.Agrees Eq env') : env' = env := by
  have hsame (definition definition' : FunctionDefinition K)
      (h : definition.Agrees Eq definition') : definition = definition' := by
    obtain ⟨parameters, body⟩ := definition
    obtain ⟨parameters', body'⟩ := definition'
    cases h.parameters
    cases h.body
    rfl
  have hfunctions : env.functions.Agrees Eq env'.functions :=
    h.functions.imp fun _ _ hentry => ⟨hentry.1, hsame _ _ hentry.2⟩
  obtain ⟨scopes, constants, functions⟩ := env
  obtain ⟨scopes', constants', functions'⟩ := env'
  cases h.scopes
  cases h.constants
  cases hfunctions.eq
  rfl

include h

/-- A name stands for the same value. -/
theorem get? (name : String) : env'.get? name = env.get? name := by
  rw [Environment.get?, Environment.get?, h.scopes, h.constants]

/-- As many scopes are open. -/
theorem depth : env'.depth = env.depth := congrArg List.length h.scopes

/-- A name and a number of parameters lead to definitions that agree. -/
theorem function? (name : String) (arity : Nat) :
    Option.Rel (FunctionDefinition.Agrees B) (env.function? name arity)
      (env'.function? name arity) := h.functions.get? (name, arity)

/-- The same functions are defined. -/
theorem isSome_function? (name : String) (arity : Nat) :
    (env'.function? name arity).isSome = (env.function? name arity).isSome := by
  have hdefinition := h.function? name arity
  generalize env.function? name arity = definition at hdefinition ⊢
  generalize env'.function? name arity = definition' at hdefinition ⊢
  cases hdefinition <;> rfl

/-- Binding a name. -/
theorem set (name : String) (value : Value K) :
    Result.Rel (Agrees B) (env.set name value) (env'.set name value) := by
  rw [Environment.set, Environment.set, isConstant, isConstant, h.constants]
  split
  · exact .error _
  · rw [h.scopes]
    exact .ok ⟨rfl, rfl, h.functions⟩

/-- Removing a name. -/
theorem remove (name : String) :
    Result.Rel (fun removed removed' => removed'.1 = removed.1 ∧ removed.2.Agrees B removed'.2)
      (env.remove name) (env'.remove name) := by
  rw [Environment.remove, Environment.remove, isConstant, isConstant, h.constants]
  split
  · exact .error _
  · rw [h.scopes]
    exact .ok ⟨rfl, rfl, rfl, h.functions⟩

/-- Binding user functions that agree. -/
theorem defineFunction {definition definition' : FunctionDefinition K} (name : String)
    (hdefinition : definition.Agrees B definition') :
    (env.defineFunction name definition).Agrees B (env'.defineFunction name definition') := by
  refine ⟨h.scopes, h.constants, ?_⟩
  rw [Environment.defineFunction, Environment.defineFunction, hdefinition.parameters]
  exact h.functions.insert hdefinition

/-- Removing a user function. -/
theorem removeFunction (name : String) (arity : Nat) :
    (env.removeFunction name arity).2.Agrees B (env'.removeFunction name arity).2 :=
  ⟨h.scopes, h.constants, h.functions.erase⟩

/-- Opening a scope. -/
theorem push (scope : Scope K) : (env.push scope).Agrees B (env'.push scope) := by
  rw [Environment.push, Environment.push, h.scopes]
  exact ⟨rfl, h.constants, h.functions⟩

/-- Closing a scope. -/
theorem pop : env.pop.Agrees B env'.pop := by
  rw [Environment.pop, Environment.pop, h.scopes]
  split
  · exact ⟨rfl, h.constants, h.functions⟩
  · exact h

end Agrees

end Environment

end Formula

import Krl.Grammar.Semantics
import Krl.Proofs.Grammar.Derivation

/-!
# Tokens that a grammar cannot tell apart

The chart of some tokens depends on them only through the classes that each of them
belongs to and through the guards. Tokens that agree in both give the same chart, and
so the same derivations.
-/

namespace Krl

namespace Grammar

variable {N T K : Type}

/-- Two lists of tokens belong to the same classes, token by token, and no guard tells
them apart. -/
structure Indistinct (grammar : Grammar N T K) (tokens tokens' : List K) : Prop where
  length : tokens.length = tokens'.length
  accepts : ∀ (index : Nat) (expected : T), (tokens[index]?).any (grammar.accepts expected) =
    (tokens'[index]?).any (grammar.accepts expected)
  guards : ∀ production ∈ grammar.productions, ∀ guard ∈ production.guard, ∀ start stop,
    guard tokens start stop = guard tokens' start stop

variable {grammar : Grammar N T K} {tokens tokens' : List K}

theorem Indistinct.admits_iff (same : grammar.Indistinct tokens tokens')
    {production : Production N T K} (listed : production ∈ grammar.productions)
    (start stop : Nat) :
    production.Admits tokens start stop ↔ production.Admits tokens' start stop := by
  constructor
  · intro admits guard carried
    rw [← same.guards production listed guard carried]
    exact admits guard carried
  · intro admits guard carried
    rw [same.guards production listed guard carried]
    exact admits guard carried

theorem Indistinct.symm (same : grammar.Indistinct tokens tokens') :
    grammar.Indistinct tokens' tokens where
  length := same.length.symm
  accepts := fun index expected => (same.accepts index expected).symm
  guards := fun production listed guard carried start stop =>
    (same.guards production listed guard carried start stop).symm

/-- Tokens that cannot be told apart have the same derivations. -/
theorem Indistinct.derives (same : grammar.Indistinct tokens tokens')
    {symbols : List (Symbol N T)} {start stop : Nat} {trees : List Derivation}
    (derived : grammar.Derives tokens symbols start stop trees) :
    grammar.Derives tokens' symbols start stop trees := by
  induction derived with
  | nil => exact .nil
  | @leaf expected others here stop siblings token found accepted _ ih =>
      have belongs := same.accepts here expected
      rw [found, Option.any_some, accepted] at belongs
      obtain ⟨token', found', accepted'⟩ := (Option.any_eq_true _ _).mp belongs.symm
      exact .leaf found' accepted' ih
  | node listed admitted _ _ innerIh restIh =>
      exact .node listed ((same.admits_iff (List.mem_of_getElem? listed) _ _).mp admitted) innerIh
        restIh

theorem Indistinct.vetoes_eq (same : grammar.Indistinct tokens tokens') :
    grammar.vetoes tokens = grammar.vetoes tokens' := by
  funext stop item
  rw [vetoes, vetoes]
  cases found : grammar.productions[item.production]? with
  | none => rfl
  | some production =>
      cases carried : production.guard with
      | none => simp only [carried, Option.any_none]
      | some guard =>
          have agree := same.guards production (List.mem_of_getElem? found) guard carried
            item.start stop
          simp only [carried, Option.any_some, agree]

theorem Indistinct.addAll_eq (same : grammar.Indistinct tokens tokens') :
    grammar.addAll tokens = grammar.addAll tokens' := by
  have add_eq : grammar.add tokens = grammar.add tokens' := by
    funext stop stage item
    rw [add, add, same.vetoes_eq]
  funext stop stage items
  rw [addAll, addAll, add_eq]

variable [DecidableEq N]

theorem Indistinct.handle_eq (same : grammar.Indistinct tokens tokens') {next next' : Option K}
    (belongs : ∀ expected, next.any (grammar.accepts expected) =
      next'.any (grammar.accepts expected)) (nullable : List N) (chart : Chart N) :
    grammar.handle nullable tokens chart next = grammar.handle nullable tokens' chart next' := by
  funext stage item
  have add_eq : ∀ stop stage item,
      grammar.add tokens stop stage item = grammar.add tokens' stop stage item := by
    intro stop stage item
    rw [add, add, same.vetoes_eq]
  simp only [handle, same.addAll_eq, add_eq, belongs]

theorem Indistinct.close_eq (same : grammar.Indistinct tokens tokens') {next next' : Option K}
    (belongs : ∀ expected, next.any (grammar.accepts expected) =
      next'.any (grammar.accepts expected)) (nullable : List N) (chart : Chart N)
    (stage : Stage N) :
    grammar.close nullable tokens chart next stage =
      grammar.close nullable tokens' chart next' stage := by
  have drain_eq : ∀ fuel stage, grammar.drain nullable tokens chart next fuel stage =
      grammar.drain nullable tokens' chart next' fuel stage := by
    intro fuel
    induction fuel with
    | zero => exact fun _ => rfl
    | succ fuel ih =>
        intro stage
        rw [drain, drain, same.handle_eq belongs]
        cases stage.agenda with
        | nil => rfl
        | cons item others => exact ih _
  exact drain_eq _ stage

theorem Indistinct.fill_eq (same : grammar.Indistinct tokens tokens') (nullable : List N)
    {left left' : List K} {chart : Chart N} {stage : Stage N}
    (rest : tokens.drop chart.size = left) (rest' : tokens'.drop chart.size = left') :
    grammar.fill nullable tokens left chart stage =
      grammar.fill nullable tokens' left' chart stage := by
  have lengths : left.length = left'.length := by
    rw [← rest, ← rest', List.length_drop, List.length_drop, same.length]
  induction left generalizing left' chart stage with
  | nil =>
      rw [List.length_nil] at lengths
      have none_ : ∀ expected, (none : Option K).any (grammar.accepts expected) =
          (none : Option K).any (grammar.accepts expected) := fun _ => rfl
      rw [List.length_eq_zero_iff.mp lengths.symm, fill, fill, same.close_eq none_]
  | cons token left ih =>
      cases left' with
      | nil => cases lengths
      | cons token' left' =>
          obtain ⟨found, remaining⟩ := of_drop_eq_cons rest
          obtain ⟨found', remaining'⟩ := of_drop_eq_cons rest'
          have belongs : ∀ expected, (some token).any (grammar.accepts expected) =
              (some token').any (grammar.accepts expected) := by
            intro expected
            rw [← found, ← found']
            exact same.accepts chart.size expected
          rw [fill, fill, same.close_eq belongs]
          simp only [seed, same.addAll_eq]
          rw [@ih left' (chart.push _) _ (by rw [Array.size_push, remaining])
            (by rw [Array.size_push, remaining']) (Nat.succ.inj lengths)]
          rfl

/-- Tokens that cannot be told apart have the same chart. -/
theorem Indistinct.recognize_eq (same : grammar.Indistinct tokens tokens') (start : N) :
    grammar.recognize start tokens = grammar.recognize start tokens' := by
  rw [recognize, recognize, same.length]
  simp only [seed, same.addAll_eq]
  have first : tokens.drop (#[] : Chart N).size = tokens := rfl
  have first' : tokens'.drop (#[] : Chart N).size = tokens' := rfl
  rw [same.fill_eq grammar.nullable first first']

/-- Tokens that cannot be told apart have the same tally of derivations. -/
theorem Indistinct.survey_eq (same : grammar.Indistinct tokens tokens') (start : N) :
    grammar.survey start tokens = grammar.survey start tokens' := by
  rw [survey, survey, same.recognize_eq, same.length]

end Grammar

end Krl

import Krl.Proofs.Fragment.Simulation
import Krl.Proofs.Parse.Outcomes

/-!
# No internal errors

The walk over the chart never gets lost, and every reducer gets what it asks for: parts that are
there and are of the right kind, and words that are in their tables.
-/

namespace Krl

open Grammar

theorem outcome_parseSource_ne_internal (start : StartSymbol) (source : String)
    (trace : List TraceEvent) (message : String) :
    ((parseSource start source).outcomeFrom trace).1 ≠ .error (.internal message) := by
  rcases outcome_parseSource start source trace with
    ⟨_, _, failed⟩ | ⟨_, _, ⟨_, failed, _⟩ | ⟨_, _, failed, _⟩ | ⟨_, failed, _⟩⟩ <;>
    simp [failed, ParseError.ofLexError, ParseError.noParse]

theorem located_ne_internal {α : Type} {source : String} {filename : Option String}
    {outcome : Except ParseError α} {message : String}
    (other : outcome ≠ .error (.internal message)) :
    outcome.mapError (ParseError.locate source filename) ≠ .error (.internal message) := by
  cases outcome with
  | ok value => nofun
  | error error =>
      intro located
      injection located with located
      exact other (congrArg Except.error (ParseError.locate_eq_internal_iff.mp located))

/-- A derivation over the tokens of a source is assembled to a fragment of the kind that belongs
to the phrase, unless the grammar rejects an interpolation. -/
theorem outcome_assemble (lexemes : List Lexeme) (stop : Nat) {name : Nonterminal}
    {first last : Nat} {tree : Derivation}
    (derivation : assembly.grammar.IsDerivation (Fragment.leavesOf (significant lexemes)) name first
      last tree) (trace : List TraceEvent) :
    let tokens := Fragment.leavesOf (significant lexemes)
    let outcome := ((assembly.assemble tokens (language.spanBetween ⟨tokens, stop⟩)
      tree).outcomeFrom trace).1
    (∃ fragment value, outcome = .ok fragment ∧ name.reading fragment = .ok value) ∨
      ∃ offset found, outcome = .error (.noParse (some offset) found) := by
  intro tokens outcome
  have same : tokens = significantLeaves (leavesOf lexemes) :=
    (Fragment.leavesOf_eq _).trans (significantLeaves_leavesOf lexemes).symm
  have derivation : language.grammar.IsDerivation (Input.mk tokens stop).tokens name first last
      tree :=
    grammar_assembly ▸ derivation
  have reads : Traced.Reads name.reading
      ((assembly.assemble tokens (language.spanBetween ⟨tokens, stop⟩) tree).outcomeFrom trace)
      ((language.evaluate ⟨tokens, stop⟩ name tree).outcomeFrom trace) :=
    readsAs_assemble derivation trace
  generalize assembled : (assembly.assemble tokens (language.spanBetween ⟨tokens, stop⟩)
    tree).outcomeFrom trace = reached at reads
  generalize evaluated : (language.evaluate ⟨tokens, stop⟩ name tree).outcomeFrom trace = reached'
    at reads
  have ends : outcome = reached.1 := congrArg Prod.fst assembled
  cases reads with
  | ok read => exact .inl ⟨_, _, ends, read⟩
  | error =>
      rw [same] at derivation evaluated
      obtain ⟨offset, found, rfl⟩ := errors_evaluate lexemes stop derivation
        (congrArg Prod.fst evaluated)
      exact .inr ⟨offset, found, ends⟩

/-- No internal error escapes. No source and no expression is answered with one when the walk
over the chart assembles fragments, and what this comes to is what actions with types come to.
Every derivation over the tokens of a source, those of interpolations included, is assembled
to a fragment of the kind that belongs to the phrase, unless an interpolation inside is
rejected. And whatever fragments of the right kinds a reducer is handed, the positions that it
takes hold what it asks for, and the words that it looks up are in their tables. -/
theorem never_internal :
    (∀ source options message, Fragment.parse source options ≠ .error (.internal message)) ∧
    (∀ source message, Fragment.parseExpression source ≠ .error (.internal message)) ∧
    (∀ source options, Fragment.parseTraced source options = parseTraced source options) ∧
    (∀ source, Fragment.parseExpression source = parseExpression source) ∧
    (∀ lexemes stop name first last tree trace,
      let tokens := Fragment.leavesOf (significant lexemes)
      let outcome := ((assembly.assemble tokens (language.spanBetween ⟨tokens, stop⟩)
        tree).outcomeFrom trace).1
      assembly.grammar.IsDerivation tokens name first last tree →
        (∃ fragment value, outcome = .ok fragment ∧ name.reading fragment = .ok value) ∨
          ∃ offset found, outcome = .error (.noParse (some offset) found)) ∧
    List.Forall₂ Productions.Performs Reducers.all language.reductions := by
  refine ⟨?sources, ?expressions, Fragment.parseTraced_eq, Fragment.parseExpression_eq,
    ?derivations, Productions.performs_all⟩
  case sources =>
    intro source options message
    rw [Fragment.parse_eq, parse_eq]
    exact located_ne_internal (outcome_parseSource_ne_internal .main source _ message)
  case expressions =>
    intro source message
    rw [Fragment.parseExpression_eq, parseExpression_eq]
    exact located_ne_internal (outcome_parseSource_ne_internal .expression source _ message)
  case derivations =>
    intro lexemes stop name first last tree trace tokens outcome derivation
    exact outcome_assemble lexemes stop derivation trace

end Krl

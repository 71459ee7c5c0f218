import Krl.Proofs.Grammar.Judgement
import Krl.Proofs.Language.Phrases
import Krl.Proofs.Parse.Agreement

/-!
# How parsing ends

A source is rejected by the tokenizer or by the grammar, or it has several derivations, or
it has got a value. Nothing else becomes of it: the one derivation of a source always has
a value, unless the grammar rejects an interpolation.
-/

namespace Krl

open Grammar

section Successes

variable {ε α β : Type} {outcome : Except ε α}

theorem toOption_eq_some_iff {value : α} : outcome.toOption = some value ↔ outcome = .ok value := by
  cases outcome <;> simp [Except.toOption]

/-- An outcome that something is told of is a value. -/
theorem exists_ok_of_toOption_map {tell : α → β} {told : β}
    (known : outcome.toOption.map tell = some told) :
    ∃ value, outcome = .ok value ∧ tell value = told := by
  obtain ⟨value, ends, same⟩ := Option.map_eq_some_iff.mp known
  exact ⟨value, toOption_eq_some_iff.mp ends, same⟩

end Successes

namespace ParseError

variable (source : String) (filename : Option String)

/-- Attaching a location does not turn an error into one of another kind, and where the
error points stays. -/
theorem locate_cases (error : ParseError) :
    (∃ kind offset message location message' location',
      error = .lexical kind offset message location ∧
      error.locate source filename = .lexical kind offset message' location') ∨
    (∃ offset message location message' location', error = .syntactic offset message location ∧
      error.locate source filename = .syntactic offset message' location') ∨
    (error.locate source filename = error ∧
      ((∃ count, error = .ambiguous count) ∨ ∃ message, error = .internal message)) := by
  cases error with
  | lexical kind offset message location =>
      refine .inl ⟨kind, offset, message, location, ?_⟩
      rw [locate]
      split <;> exact ⟨_, _, rfl, rfl⟩
  | syntactic offset message location =>
      refine .inr (.inl ⟨offset, message, location, ?_⟩)
      rw [locate]
      split <;> exact ⟨_, _, rfl, rfl⟩
  | ambiguous count => exact .inr (.inr ⟨rfl, .inl ⟨count, rfl⟩⟩)
  | internal message => exact .inr (.inr ⟨rfl, .inr ⟨message, rfl⟩⟩)

theorem locate_syntactic (offset : Option Nat) (message : String) (location : Option Location) :
    ∃ message' location', (syntactic offset message location).locate source filename =
      .syntactic offset message' location' := by
  rcases locate_cases source filename (.syntactic offset message location) with
    ⟨_, _, _, _, _, _, other, _⟩ | ⟨_, _, _, _, _, same, located⟩ | ⟨_, ⟨_, other⟩ | ⟨_, other⟩⟩
  · cases other
  · cases same
    exact ⟨_, _, located⟩
  · cases other
  · cases other

variable {source filename}

theorem locate_eq_ambiguous_iff {error : ParseError} {count : Nat} :
    error.locate source filename = .ambiguous count ↔ error = .ambiguous count := by
  rcases locate_cases source filename error with
    ⟨_, _, _, _, _, _, rfl, located⟩ | ⟨_, _, _, _, _, rfl, located⟩ | ⟨located, _⟩ <;>
    simp [located]

theorem locate_eq_internal_iff {error : ParseError} {message : String} :
    error.locate source filename = .internal message ↔ error = .internal message := by
  rcases locate_cases source filename error with
    ⟨_, _, _, _, _, _, rfl, located⟩ | ⟨_, _, _, _, _, rfl, located⟩ | ⟨located, _⟩ <;>
    simp [located]

end ParseError

theorem parse_eq (source : String) (options : ParseOptions) :
    parse source options =
      ((parseSource .main source).outcomeFrom
        [.parsing (Text.byteLength source.toList) options.filename]).1.mapError
          (ParseError.locate source options.filename) :=
  rfl

theorem parseExpression_eq (source : String) :
    parseExpression source =
      ((parseSource .expression source).outcomeFrom []).1.mapError
        (ParseError.locate source none) :=
  rfl

section Source

variable {start : StartSymbol} {source : String}

theorem outcomeFrom_parseSource_of_error {error : LexError}
    (failed : Token.tokenize source = .error error) (trace : List TraceEvent) :
    ((parseSource start source).outcomeFrom trace).1 = .error (.ofLexError error) := by
  rw [parseSource, failed]
  rfl

theorem outcomeFrom_parseSource_of_ok {lexemes : List Lexeme}
    (read : Token.tokenize source = .ok lexemes) (trace : List TraceEvent) :
    (parseSource start source).outcomeFrom trace =
      (parseLeaves start (leavesOf lexemes) (Text.byteLength source.toList) none).outcomeFrom
        (trace ++ [.tokenized lexemes.length]) := by
  rw [parseSource, read]
  rfl

end Source

theorem placement_id : Placement Eq id id :=
  ⟨monotone_id, monotone_id, id⟩

/-- The tokens of a source are alike themselves, as the grammar sees them. -/
theorem leavesAlike_self (lexemes : List Lexeme) :
    LeavesAlike Eq id id (significantLeaves (leavesOf lexemes))
      (significantLeaves (leavesOf lexemes)) := by
  have alike : LexemesAlike Eq (Meet id id) (significant lexemes) (significant lexemes) :=
    LexemesAlike.refl (fun _ => rfl) (fun _ => rfl) lexemes
  rw [significantLeaves_leavesOf]
  exact alike.leavesAlike (alike.leaves placement_id)

/-- The only errors of evaluation are those of interpolations that the grammar rejects, which
blame a token or a closing brace. -/
theorem errors_evaluate (lexemes : List Lexeme) (stop : Nat) {name : Nonterminal}
    {first last : Nat} {tree : Derivation}
    (derivation : language.grammar.IsDerivation (significantLeaves (leavesOf lexemes)) name first
      last tree) {trace : List TraceEvent} {error : ParseError}
    (failed : ((language.evaluate ⟨significantLeaves (leavesOf lexemes), stop⟩ name
      tree).outcomeFrom trace).1 = .error error) :
    ∃ offset found, error = .noParse (some offset) found := by
  have alike := leavesAlike_self lexemes
  have outcome := Language.outcome_evaluate
    (Productions.respects_language (SameFault Eq) monotone_id monotone_id) derivation
    (alike.reads stop stop _ _)
    (fun extent _ => alike.spanBetween rfl extent.1 extent.2)
  rw [Derivation.moved_zero] at outcome
  have agree := outcome trace trace
  rw [failed] at agree
  cases agree with
  | error same =>
      cases same
      exact ⟨_, _, rfl⟩

/-- What becomes of the tokens of a source: a value, a rejection by the grammar, or an
ambiguity if there are several derivations. -/
theorem outcome_parseLeaves (start : StartSymbol) (lexemes : List Lexeme) (stop : Nat)
    (atEnd : Option Nat) (trace : List TraceEvent) :
    let tokens := significantLeaves (leavesOf lexemes)
    let outcome := ((parseLeaves start (leavesOf lexemes) stop atEnd).outcomeFrom trace).1
    let trees := {tree | language.grammar.IsDerivation tokens start.nonterminal 0 tokens.length
      tree}
    (∃ value, outcome = .ok value ∧ trees.Subsingleton) ∨
    (∃ offset found, outcome = .error (.noParse offset found) ∧ trees.Subsingleton) ∨
    ∃ count, outcome = .error (.ambiguous count) ∧ ¬trees.Subsingleton := by
  intro tokens outcome trees
  rcases parseLeaves_cases start (leavesOf lexemes) stop atEnd with
    ⟨reason, surveyed, fails⟩ | ⟨tally, tree, _, _, derivation, unique, yields⟩ |
      ⟨tally, _, several, counts, fails⟩
  · refine .inr (.inl ?_)
    have none_ := Grammar.not_derivable_of_rejected erasesFreely_language surveyed
    have subsingleton : trees.Subsingleton := fun one derivation => (none_ ⟨one, derivation⟩).elim
    have failed : outcome = .error (reason.toError tokens atEnd) := fails trace
    rw [failed]
    cases reason with
    | short => exact ⟨_, _, rfl, subsingleton⟩
    | stuck token =>
        rw [Rejection.toError]
        split <;> exact ⟨_, _, rfl, subsingleton⟩
  · have subsingleton : trees.Subsingleton := fun one derivation other derivation' =>
      (unique one derivation).trans (unique other derivation').symm
    obtain ⟨traced, yields⟩ := yields trace
    have same : outcome = _ := yields
    cases evaluated : ((language.evaluate ⟨tokens, stop⟩ start.nonterminal tree).outcomeFrom
        traced).1 with
    | ok value => exact .inl ⟨value, same.trans evaluated, subsingleton⟩
    | error error =>
        obtain ⟨offset, found, rfl⟩ := errors_evaluate lexemes stop derivation evaluated
        exact .inr (.inl ⟨some offset, found, same.trans evaluated, subsingleton⟩)
  · exact .inr (.inr ⟨_, fails trace, fun single =>
      Nat.not_le_of_lt several (count_le_one counts single)⟩)

/-- What becomes of a source: besides the outcomes for tokens there are lexical errors. -/
theorem outcome_parseSource (start : StartSymbol) (source : String) (trace : List TraceEvent) :
    let outcome := ((parseSource start source).outcomeFrom trace).1
    (∃ error, Token.tokenize source = .error error ∧ outcome = .error (.ofLexError error)) ∨
    ∃ lexemes, Token.tokenize source = .ok lexemes ∧
      let tokens := significantLeaves (leavesOf lexemes)
      let trees := {tree | language.grammar.IsDerivation tokens start.nonterminal 0 tokens.length
        tree}
      ((∃ value, outcome = .ok value ∧ trees.Subsingleton) ∨
      (∃ offset found, outcome = .error (.noParse offset found) ∧ trees.Subsingleton) ∨
      ∃ count, outcome = .error (.ambiguous count) ∧ ¬trees.Subsingleton) := by
  intro outcome
  cases read : Token.tokenize source with
  | error error => exact .inl ⟨error, rfl, outcomeFrom_parseSource_of_error read trace⟩
  | ok lexemes =>
      refine .inr ⟨lexemes, rfl, ?_⟩
      have same : outcome = ((parseLeaves start (leavesOf lexemes)
          (Text.byteLength source.toList) none).outcomeFrom _).1 :=
        congrArg Prod.fst (outcomeFrom_parseSource_of_ok read trace)
      rw [same]
      exact outcome_parseLeaves start lexemes _ none _

/-- Tokens that have one derivation only are parsed to what this evaluates to, after it has been
counted. -/
theorem outcomeFrom_parseLeaves_of_derivation {start : StartSymbol} {leaves : List Leaf}
    (single : {tree | language.grammar.IsDerivation (significantLeaves leaves) start.nonterminal 0
      (significantLeaves leaves).length tree}.Subsingleton)
    {tree : Derivation}
    (derivation : language.grammar.IsDerivation (significantLeaves leaves) start.nonterminal 0
      (significantLeaves leaves).length tree) (stop : Nat) (atEnd : Option Nat)
    (trace : List TraceEvent) :
    (parseLeaves start leaves stop atEnd).outcomeFrom trace =
      (language.evaluate ⟨significantLeaves leaves, stop⟩ start.nonterminal tree).outcomeFrom
        (trace ++ [.accepted (significantLeaves leaves).length] ++ [.counted 1 start.label]) := by
  rcases language.judged erasesFreely_language isRanked_language start.nonterminal
      ⟨significantLeaves leaves, stop⟩ with
    ⟨_, _, _, none_⟩ | ⟨tally, found, _, counts, some_, _, derivation', derived⟩
  · exact (none_ ⟨tree, derivation⟩).elim
  · have one : tally.count = 1 :=
      Nat.le_antisymm (count_le_one counts single) (Nat.one_le_iff_ne_zero.mpr some_)
    obtain rfl : found = tree := single derivation' derivation
    rw [parseLeaves_eq, derived, Tally.reported_eq_one_iff.mpr one]
    exact outcomeFrom_conclude_one start _ atEnd _ trace

/-- A source that has one derivation only is parsed to what this evaluates to. -/
theorem exists_outcome_of_derivation {start : StartSymbol} {source : String}
    {lexemes : List Lexeme} (read : Token.tokenize source = .ok lexemes)
    (single : {tree | language.grammar.IsDerivation (leavesOf (significant lexemes))
      start.nonterminal 0 (leavesOf (significant lexemes)).length tree}.Subsingleton)
    {tree : Derivation}
    (derivation : language.grammar.IsDerivation (leavesOf (significant lexemes))
      start.nonterminal 0 (leavesOf (significant lexemes)).length tree)
    {property : start.nonterminal.Value → Prop}
    (evaluated : ∀ trace, ∃ result, property result ∧
      ((language.evaluate ⟨leavesOf (significant lexemes), Text.byteLength source.toList⟩
        start.nonterminal tree).outcomeFrom trace).1 = .ok result) (trace : List TraceEvent) :
    ∃ result, ((parseSource start source).outcomeFrom trace).1 = .ok result ∧ property result := by
  rw [← significantLeaves_leavesOf] at single derivation evaluated
  rw [outcomeFrom_parseSource_of_ok read, outcomeFrom_parseLeaves_of_derivation single derivation]
  obtain ⟨result, holds, ends⟩ := evaluated _
  exact ⟨result, ends, holds⟩

/-- A source whose tokens form a phrase, in one way, is parsed to the value of this. -/
theorem outcome_of_phrase (start : StartSymbol) {source : String} {lexemes written : List Lexeme}
    (read : Token.tokenize source = .ok lexemes) (same : significant lexemes = written)
    (single : {tree | language.grammar.IsDerivation (leavesOf written) start.nonterminal 0
      (leavesOf written).length tree}.Subsingleton) {value : start.nonterminal.Value}
    (phrase : Phrase ⟨leavesOf written, Text.byteLength source.toList⟩ start.nonterminal 0
      (leavesOf written).length value) (trace : List TraceEvent) :
    ((parseSource start source).outcomeFrom trace).1 = .ok value := by
  subst same
  obtain ⟨tree, derivation, evaluated⟩ := phrase
  have outcome : ∀ trace, ∃ result, result = value ∧
      ((language.evaluate ⟨leavesOf (significant lexemes), Text.byteLength source.toList⟩
        start.nonterminal tree).outcomeFrom trace).1 = .ok result :=
    fun trace => ⟨value, rfl, evaluated trace⟩
  obtain ⟨result, parsed, rfl⟩ := exists_outcome_of_derivation read single derivation outcome trace
  exact parsed

end Krl

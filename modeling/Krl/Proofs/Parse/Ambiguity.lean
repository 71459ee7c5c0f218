import Krl.Proofs.Grammar.LeftParse
import Krl.Proofs.Parse.Outcomes
import Krl.Proofs.Syntax.Nodes
import Mathlib.Data.Set.Subsingleton

/-!
# What is ambiguous

Rules, expressions and lists of statements have at most one derivation. Rulesets can have
several, but only where a block of properties provides the name `keys`. So a left parse of a
source without this word tells what the source is parsed to.
-/

namespace Krl

open Grammar Productions Distinction

/-- Rules and expressions are unambiguous. -/
theorem rule_and_expression_unambiguous (tokens : List Leaf) :
    {tree | language.grammar.IsDerivation tokens .rule 0 tokens.length tree}.Subsingleton ∧
      {tree | language.grammar.IsDerivation tokens .expression 0 tokens.length
        tree}.Subsingleton := by
  have checks := checked_eq_true
  simp only [checked, Bool.and_eq_true] at checks
  have permitted := List.all_eq_true.mp checks.2
  constructor
  · intro one derivation other derivation'
    exact whole_unique (permitted .rule (by decide)) sees_all derivation derivation'
  · intro one derivation other derivation'
    exact whole_unique (permitted .expression (by decide)) sees_all derivation derivation'

theorem main_subsingleton_iff (tokens : List Leaf) :
    {tree | language.grammar.IsDerivation tokens .main 0 tokens.length tree}.Subsingleton ↔
      ¬RulesetReadTwice tokens := by
  constructor
  · intro subsingleton twice
    obtain ⟨_, _, differ, derivation, derivation'⟩ := main_of_readTwice twice
    exact differ (subsingleton derivation derivation')
  · intro once one derivation other derivation'
    exact (main_agree derivation derivation').resolve_right once

/-- Tokens have one derivation if the word `meta` is not among them. The second token is
excepted, which may be the name of a ruleset. -/
theorem main_subsingleton_of_forall_ne {tokens : List Leaf}
    (none_ : ∀ leaf ∈ tokens.drop 2, leaf.lexeme.token ≠ .symbol "meta") :
    {tree | language.grammar.IsDerivation tokens .main 0 tokens.length tree}.Subsingleton := by
  rw [main_subsingleton_iff]
  intro twice
  obtain ⟨_, _, _, _, derived, _⟩ := twice
  obtain ⟨_, _, _, _, derived, _⟩ := derives_terminal_cons_iff.mp derived
  obtain ⟨brace, _, _, named, derived, _⟩ := derives_nonterminal_cons_iff.mp derived
  obtain ⟨_, _, _, _, derived, _⟩ := derives_terminal_cons_iff.mp derived
  obtain ⟨leaf, _, found, isMeta, _⟩ := derives_terminal_cons_iff.mp derived
  have behind : (tokens.drop 2)[brace - 1]? = some leaf := by
    rw [List.getElem?_drop, ← found]
    congr 1
    have := named.le
    omega
  exact none_ leaf (List.mem_of_getElem? behind) (Terminal.token_of_word isMeta)

/-- Tokens have one derivation if the word `keys` is not among them. -/
theorem main_subsingleton_of_no_keys {tokens : List Leaf}
    (none_ : ∀ leaf ∈ tokens, language.grammar.accepts (.word "keys") leaf = false) :
    {tree | language.grammar.IsDerivation tokens .main 0 tokens.length tree}.Subsingleton := by
  rw [main_subsingleton_iff]
  rintro ⟨_, _, _, _, _, ⟨_, _, _, _, _, _, provided, _⟩, _⟩
  obtain ⟨_, _, _, _, derived, _⟩ := derives_terminal_cons_iff.mp provided
  obtain ⟨leaf, _, found, isKeys, _⟩ := derives_terminal_cons_iff.mp derived
  have refused := none_ leaf (List.mem_of_getElem? found)
  rw [isKeys] at refused
  cases refused

theorem remains_statements (tokens : List Leaf) :
    language.grammar.Remains tokens [the .statements] 0 := by
  have rightSide : [the .statements] ∈ language.grammar.rightSides .main := by
    rw [rightSides_main]
    exact List.mem_cons_of_mem _ (List.mem_singleton_self _)
  obtain ⟨production, listed, same⟩ := List.mem_map.mp rightSide
  rw [← same]
  exact remains_rhs tokens (List.mem_filter.mp listed).1 0

/-- A source that begins like a ruleset is no list of statements. -/
theorem not_statements_of_ruleset {tokens : List Leaf} {leaf : Leaf} {tree : Derivation}
    (found : tokens[0]? = some leaf) (isRuleset : leaf.lexeme.token = .symbol "ruleset")
    (derivation : language.grammar.IsDerivation tokens .statements 0 tokens.length tree) :
    False := by
  have apart := beq_iff_eq.mp decided_language.statements
  have begins : (scene tokens).Sees (beyond tokens) (criteria.mask behindAll [the .statements])
      0 :=
    Derives.sees covered heeded_scene derivation (remains_statements tokens) (Nat.le_succ _)
      (sees_behindAll tokens)
  have letter : (scene tokens).Sees (beyond tokens)
      (optics.sights (Letter.set [Letter.ofWord "ruleset"])) 0 := by
    apply Scene.sees_sights isRanked_optics
    rw [Scene.letterWithin, if_pos (Nat.succ_pos _), letter_eq found, isRuleset]
    exact Letter.testBit_set.mpr (List.mem_singleton_self _)
  have both := begins.and letter
  rw [apart] at both
  exact Scene.not_sees_zero both

/-- The tokens of a list of statements have one derivation. -/
theorem main_subsingleton_of_statements {tokens : List Leaf} {tree : Derivation}
    (derivation : language.grammar.IsDerivation tokens .statements 0 tokens.length tree) :
    {tree | language.grammar.IsDerivation tokens .main 0 tokens.length tree}.Subsingleton := by
  rw [main_subsingleton_iff]
  rintro ⟨_, _, _, _, opening, _⟩
  obtain ⟨leaf, _, found, isRuleset, _⟩ := derives_terminal_cons_iff.mp opening
  exact not_statements_of_ruleset found (Terminal.token_of_word isRuleset) derivation

section LeftParses

/-- The derivation that a left parse tells of tokens, if none of them is the word `keys`. -/
def onlyDerivation? (tokens : List Leaf) (numbers : List Nat) : Option Derivation :=
  if tokens.any (language.grammar.accepts (.word "keys")) then none
  else language.grammar.ofLeftParse? tokens .main numbers

/-- The value of a source by a left parse of its tokens. No derivations are searched for, but
those of interpolations. -/
def valueOfLeftParse? (source : String) (numbers : List Nat) : Option Program := do
  let lexemes ← (Token.tokenize source).toOption
  let tokens := leavesOf (significant lexemes)
  let tree ← onlyDerivation? tokens numbers
  let value : Traced Program :=
    language.evaluate ⟨tokens, Text.byteLength source.toList⟩ .main tree
  (value.outcomeFrom [.parsing (Text.byteLength source.toList) none,
    .tokenized lexemes.length, .accepted tokens.length, .counted 1 "Main"]).1.toOption

variable {β : Type} {tokens : List Leaf} {source : String} {numbers : List Nat}

theorem onlyDerivation?_spec {tree : Derivation} (told : onlyDerivation? tokens numbers = some tree) :
    {tree | language.grammar.IsDerivation tokens .main 0 tokens.length tree}.Subsingleton ∧
      language.grammar.IsDerivation tokens .main 0 tokens.length tree := by
  obtain ⟨without, told⟩ := Option.ite_none_left_eq_some.mp told
  refine ⟨main_subsingleton_of_no_keys fun leaf member => ?_, isDerivation_of_ofLeftParse? told⟩
  simpa using List.any_eq_false.mp (Bool.eq_false_iff.mpr without) leaf member

theorem parse_eq_of_valueOfLeftParse? {program : Program}
    (told : valueOfLeftParse? source numbers = some program) :
    parse source .none = .ok program := by
  obtain ⟨lexemes, read, told⟩ := Option.bind_eq_some_iff.mp told
  obtain ⟨tree, only, told⟩ := Option.bind_eq_some_iff.mp told
  have evaluated := toOption_eq_some_iff.mp told
  obtain ⟨single, derivation⟩ := onlyDerivation?_spec only
  rw [← significantLeaves_leavesOf] at single derivation evaluated
  rw [parse_eq, outcomeFrom_parseSource_of_ok (toOption_eq_some_iff.mp read),
    outcomeFrom_parseLeaves_of_derivation single derivation]
  exact congrArg _ evaluated

theorem exists_ok_of_isSome (accepted : (valueOfLeftParse? source numbers).isSome = true) :
    ∃ program, parse source .none = .ok program := by
  obtain ⟨program, told⟩ := Option.isSome_iff_exists.mp accepted
  exact ⟨program, parse_eq_of_valueOfLeftParse? told⟩

/-- What is told of the value by a left parse is told of the outcome of parsing. -/
theorem exists_ok_of_leftParse {tell : Program → β} {told : β}
    (known : (valueOfLeftParse? source numbers).map tell = some told) :
    ∃ program, parse source .none = .ok program ∧ tell program = told := by
  obtain ⟨program, value, same⟩ := Option.map_eq_some_iff.mp known
  exact ⟨program, parse_eq_of_valueOfLeftParse? value, same⟩

/-- A declaration of a template with a text and an interpolation. -/
theorem parse_declaredTemplate :
    ∃ program, parse "x = <<a#\x7bb\x7d>>" .none = .ok program ∧
      program.nodes.map Expr.span = [⟨0, 1⟩, ⟨4, 13⟩, ⟨6, 7⟩, ⟨9, 10⟩] := by
  have told : (valueOfLeftParse? "x = <<a#\x7bb\x7d>>"
      [1, 277, 279, 282, 54, 55, 204, 207, 209, 220, 223, 227, 231, 232, 242]).map
        (fun program => program.nodes.map Expr.span) =
          some [⟨0, 1⟩, ⟨4, 13⟩, ⟨6, 7⟩, ⟨9, 10⟩] := by
    decide +kernel
  exact exists_ok_of_leftParse told

end LeftParses

/-- The outcome of a source is an ambiguity just when its tokens have several derivations. -/
theorem parse_ambiguous_iff_not_subsingleton (source : String) (options : ParseOptions) :
    (∃ count, parse source options = .error (.ambiguous count)) ↔
      ∃ lexemes, Token.tokenize source = .ok lexemes ∧
        let tokens := significantLeaves (leavesOf lexemes)
        ¬{tree | language.grammar.IsDerivation tokens .main 0 tokens.length tree}.Subsingleton := by
  rw [parse_eq]
  rcases outcome_parseSource .main source
      [.parsing (Text.byteLength source.toList) options.filename] with
    ⟨error, read, failed⟩ | ⟨lexemes, read, outcome⟩
  · simp [failed, read, Except.mapError, ParseError.locate_eq_ambiguous_iff, ParseError.ofLexError]
  · simp only [read, Except.ok.injEq, exists_eq_left']
    rcases outcome with ⟨_, same, single⟩ | ⟨_, _, same, single⟩ | ⟨_, same, several⟩
    · simp only [same, Except.mapError, reduceCtorEq, exists_false, false_iff, not_not]
      exact single
    · simp only [same, Except.mapError, Except.error.injEq, ParseError.locate_eq_ambiguous_iff,
        ParseError.noParse, reduceCtorEq, exists_false, false_iff, not_not]
      exact single
    · simp only [same, Except.mapError, Except.error.injEq, ParseError.locate_eq_ambiguous_iff,
        ParseError.ambiguous.injEq, exists_eq', true_iff]
      exact several

/-- A source is ambiguous just when it is a ruleset with a block of properties that can be
read in two ways, as names are provided to rulesets behind the word `keys`. All other
sources, and all other lists of tokens, have at most one derivation. -/
theorem parse_ambiguous_iff_readTwice (tokens : List Leaf) (source : String)
    (options : ParseOptions) :
    ({tree | language.grammar.IsDerivation tokens .main 0 tokens.length tree}.Subsingleton ↔
        ¬RulesetReadTwice tokens) ∧
      ((∃ count, parse source options = .error (.ambiguous count)) ↔
        ∃ lexemes, Token.tokenize source = .ok lexemes ∧
          RulesetReadTwice (leavesOf (significant lexemes))) := by
  refine ⟨main_subsingleton_iff tokens, ?_⟩
  rw [parse_ambiguous_iff_not_subsingleton]
  simp only [main_subsingleton_iff, not_not, significantLeaves_leavesOf]

/-- Here `errors to x` either tells the ruleset that gets the errors, with `keys` as the one
name provided, or goes on with the names of operators, which are provided to `x`. -/
theorem parse_providesKeys_ambiguous :
    parse "ruleset r { meta { provides keys errors to x } }" .none = .error (.ambiguous 2) := by
  let failure (outcome : Except ParseError Program) : Option ParseError :=
    outcome.casesOn some fun _ => none
  have failed : failure (parse "ruleset r { meta { provides keys errors to x } }" .none) =
      some (.ambiguous 2) := by
    decide +kernel
  revert failed
  cases parse "ruleset r { meta { provides keys errors to x } }" .none with
  | ok program => nofun
  | error error => exact fun failed => congrArg Except.error (Option.some.inj failed)

end Krl

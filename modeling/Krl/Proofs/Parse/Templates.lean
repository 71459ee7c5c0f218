import Krl.Proofs.Language.Evaluation
import Krl.Proofs.Parse.Outcomes

/-!
# From derivations to sources

The value of some tokens is that of their derivation, in which templates have values that come
from tokens again. What is kept by every production, and by every template of which the
tokens inside keep it, holds of all values.
-/

namespace Krl

section Values

variable {start : StartSymbol} {lexemes : List Lexeme} {stop : Nat} {atEnd : Option Nat}

/-- A source that has a value has it from its tokens. -/
theorem exists_yields_of_parseSource {source : String} {trace : List TraceEvent}
    {value : start.nonterminal.Value} {locate : ParseError → ParseError}
    (parsed : ((parseSource start source).outcomeFrom trace).1.mapError locate = .ok value) :
    ∃ lexemes, Token.tokenize source = .ok lexemes ∧
      Traced.Yields (parseLeaves start (leavesOf lexemes) (Text.byteLength source.toList) none)
        value := by
  cases outcome : ((parseSource start source).outcomeFrom trace).1 with
  | error error =>
      rw [outcome] at parsed
      cases parsed
  | ok result =>
      rw [outcome] at parsed
      cases parsed
      cases read : Token.tokenize source with
      | error error =>
          rw [outcomeFrom_parseSource_of_error read] at outcome
          cases outcome
      | ok lexemes =>
          rw [outcomeFrom_parseSource_of_ok read] at outcome
          exact ⟨lexemes, rfl, Traced.yields_of_fst outcome⟩

/-- A value of tokens is one of a derivation of those that are significant. -/
theorem exists_derivation_of_parseLeaves {value : start.nonterminal.Value}
    (yields : Traced.Yields (parseLeaves start (leavesOf lexemes) stop atEnd) value) :
    ∃ tree, language.grammar.IsDerivation (leavesOf (significant lexemes)) start.nonterminal 0
        (significant lexemes).length tree ∧
      Traced.Yields (language.evaluate ⟨leavesOf (significant lexemes), stop⟩ start.nonterminal
        tree : Traced start.nonterminal.Value) value := by
  obtain ⟨trace, traced, ends⟩ := yields
  have ends := congrArg Prod.fst ends
  have cases_ := parseLeaves_cases start (leavesOf lexemes) stop atEnd
  rw [significantLeaves_leavesOf] at cases_
  rcases cases_ with ⟨reason, _, fails⟩ | ⟨tally, tree, _, _, derivation, _, same⟩ |
    ⟨tally, _, _, _, fails⟩
  · rw [fails] at ends
    cases ends
  · obtain ⟨traced', outcome⟩ := same trace
    have stops := length_leavesOf (significant lexemes)
    exact ⟨tree, stops ▸ derivation, Traced.yields_of_fst (outcome.symm.trans ends)⟩
  · rw [fails] at ends
    cases ends

/-- A template has its value from its parts. -/
theorem exists_values_of_template {leaf : Leaf} {parts : Traced Expr}
    (read : Terminal.chevron.read leaf = some parts) {expr : Expr}
    (yields : Traced.Yields parts expr) :
    ∃ texts values, leaf.lexeme.token = .chevron texts ∧ Traced.Yields leaf.parts values ∧
      expr = ⟨.chevron values, leaf.lexeme.span⟩ := by
  obtain ⟨⟨token, start, stop⟩, values⟩ := leaf
  cases token <;> cases read
  obtain ⟨inner, yielded, rest⟩ := yields.of_bind
  cases Traced.yields_pure_iff.mp rest
  exact ⟨_, inner, rfl, yielded, rfl⟩

/-- An invariant of all productions holds of the value of some tokens. -/
theorem Invariant.holds_parseLeaves {invariant : Invariant}
    (data : ∀ index lexeme, (significant lexemes)[index]? = some lexeme → ∀ tokens datum,
      Terminal.read tokens (.ofLexeme lexeme) = some datum → invariant.datum tokens index datum)
    (made : ∀ entry ∈ language.reductions, ∀ first last tree computation value,
      language.grammar.IsDerivation (leavesOf (significant lexemes)) entry.lhs first last tree →
        invariant.Supplies entry.rhs first last
          (entry.action (language.spanBetween ⟨leavesOf (significant lexemes), stop⟩ first last))
          computation →
            Traced.Yields computation value → invariant.value entry.lhs first last value)
    {value : start.nonterminal.Value}
    (yields : Traced.Yields (parseLeaves start (leavesOf lexemes) stop atEnd) value) :
    invariant.value start.nonterminal 0 (significant lexemes).length value := by
  obtain ⟨tree, derivation, yielded⟩ := exists_derivation_of_parseLeaves yields
  let input : Input Leaf := ⟨leavesOf (significant lexemes), stop⟩
  refine @Invariant.holds_evaluate _ input ?_ ?_ _ _ _ _ derivation _ yielded
  · intro index leaf found tokens datum read
    obtain ⟨lexeme, present, rfl⟩ := getElem?_leavesOf_iff.mp found
    exact data index lexeme present tokens datum read
  · intro entry listed first last tree computation value derivation _
    exact made entry listed first last tree computation value derivation

/-- What a token from `start` to `stop` means as a member of a class. -/
inductive Means (start stop : Nat) : Token → (tokens : Terminal) → tokens.Datum → Prop where
  | punct (mark : Punct) : Means start stop (.punct mark) (.punct mark) ()
  | word (text : String) : Means start stop (.symbol text) (.word text) ⟨start, stop⟩
  | identifier {text : String} (identifier : isIdentifier text = true) :
      Means start stop (.symbol text) .identifier ⟨text, ⟨start, stop⟩⟩
  | symbol (text : String) : Means start stop (.symbol text) .symbol ⟨text, ⟨start, stop⟩⟩
  | number (value : Binary64) :
      Means start stop (.number value) .number ⟨.number value, ⟨start, stop⟩⟩
  | string (value : String) :
      Means start stop (.string value) .string ⟨.string value, ⟨start, stop⟩⟩
  | regexp (pattern flags : String) :
      Means start stop (.regexp pattern flags) .regexp ⟨.regexp pattern flags, ⟨start, stop⟩⟩
  | domainName (domain name : String) :
      Means start stop (.domainName domain name) .domainName
        ⟨.domainIdentifier domain name, ⟨start, stop⟩⟩
  | persistent {domain : String} (name : String) (persistent : isPersistentDomain domain = true) :
      Means start stop (.domainName domain name) .persistent
        ⟨.domainIdentifier domain name, ⟨start, stop⟩⟩
  | chevron (texts : List TemplatePart) {parts : Traced Expr}
      (ends : ∀ expr, Traced.Yields parts expr → ∃ values,
        Traced.Yields (partValues texts) values ∧ expr = ⟨.chevron values, ⟨start, stop⟩⟩) :
      Means start stop (.chevron texts) .chevron parts

theorem means_of_read {lexeme : Lexeme} {tokens : Terminal} {datum : tokens.Datum}
    (read : tokens.read (.ofLexeme lexeme) = some datum) :
    Means lexeme.start lexeme.stop lexeme.token tokens datum := by
  obtain ⟨token, start, stop⟩ := lexeme
  have template := @exists_values_of_template (.ofLexeme ⟨token, start, stop⟩)
  cases tokens <;> cases token <;>
    simp only [Leaf.ofLexeme, Terminal.read, Option.ite_none_right_eq_some, Option.some.injEq,
      reduceCtorEq] at read
  case punct.punct =>
    obtain ⟨rfl, _⟩ := read
    exact .punct _
  case word.symbol =>
    obtain ⟨rfl, rfl⟩ := read
    exact .word _
  case identifier.symbol =>
    obtain ⟨identifier, rfl⟩ := read
    exact .identifier identifier
  case persistent.domainName =>
    obtain ⟨persistent, rfl⟩ := read
    exact .persistent _ persistent
  case chevron.chevron texts =>
    refine .chevron texts fun expr yields => ?_
    rw [Leaf.ofLexeme] at template
    obtain ⟨_, values, _, yielded, same⟩ := template (congrArg some read) yields
    exact ⟨values, yielded, same⟩
  all_goals
    subst read
    constructor

end Values

section Parts

/-- The parts of the template that a token is. -/
def Token.parts : Token → List TemplatePart
  | .chevron parts => parts
  | _ => []

variable (relates : TemplatePart → Expr → Prop)

/-- The values of the parts of a template are related to the parts one by one. -/
def PartsRelated (token : Token) : Prop :=
  ∀ values, Traced.Yields (templateParts token) values → List.Forall₂ relates token.parts values

/-- Texts are related to the strings they are, and interpolations to their values, given that
the parts of the templates inside are related to theirs. -/
structure RelatesParts : Prop where
  text : ∀ value start stop, relates (.text value start stop) ⟨.string value, ⟨start, stop⟩⟩
  interpolation : ∀ tokens start close value,
    (∀ lexeme ∈ tokens, PartsRelated relates lexeme.token) →
      Traced.Yields (parseLeaves .expression (leavesOf tokens) close (some close)) value →
        relates (.interpolation tokens start close) value

variable {relates}

theorem forall₂_cons_partValues {part : TemplatePart} {others : List TemplatePart}
    (first : ∀ value, Traced.Yields (partValue part) value → relates part value)
    (rest : ∀ values, Traced.Yields (partValues others) values →
      List.Forall₂ relates others values)
    (values : List Expr) (yields : Traced.Yields (partValues (part :: others)) values) :
    List.Forall₂ relates (part :: others) values := by
  obtain ⟨value, yielded, behind⟩ := yields.of_bind
  obtain ⟨values, yielded', last⟩ := behind.of_bind
  cases Traced.yields_pure_iff.mp last
  exact .cons (first value yielded) (rest values yielded')

mutual

/-- The parts of all templates are related to their values. -/
theorem RelatesParts.token (parts : RelatesParts relates) :
    (token : Token) → PartsRelated relates token
  | .chevron items => parts.forall₂ items
  | .whitespace | .lineComment | .blockComment | .number _ | .string _ | .regexp _ _ | .symbol _
  | .domainName _ _ | .punct _ => by
      intro values yields
      cases Traced.yields_pure_iff.mp yields
      exact .nil

theorem RelatesParts.forall₂ (parts : RelatesParts relates) :
    (items : List TemplatePart) → ∀ values, Traced.Yields (partValues items) values →
      List.Forall₂ relates items values
  | [] => by
      intro values yields
      cases Traced.yields_pure_iff.mp yields
      exact .nil
  | .text value start stop :: others => by
      refine forall₂_cons_partValues ?_ (parts.forall₂ others)
      intro result yields
      cases Traced.yields_pure_iff.mp yields
      exact parts.text value start stop
  | .interpolation tokens start close :: others => by
      refine forall₂_cons_partValues ?_ (parts.forall₂ others)
      intro result yields
      exact parts.interpolation tokens start close result (parts.inside tokens) yields

theorem RelatesParts.inside (parts : RelatesParts relates) :
    (tokens : List Lexeme) → ∀ lexeme ∈ tokens, PartsRelated relates lexeme.token
  | [] => List.forall_mem_nil _
  | ⟨token, _, _⟩ :: others => List.forall_mem_cons.mpr ⟨parts.token token, parts.inside others⟩

end

end Parts

end Krl

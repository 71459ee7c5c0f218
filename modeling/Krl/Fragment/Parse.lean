import Krl.Fragment.Assembly
import Krl.Parse

/-!
# Parsing by fragments

A source is parsed by a walk over the chart of its tokens. What the walk leaves must be a piece of
the kind that the source was to be.
-/

namespace Krl

namespace Fragment

/-- The fragment of tokens that end at byte `stop`. Trivia is left out, and the tokens must have
exactly one derivation. -/
def ofLeaves (start : StartSymbol) (leaves : List Leaf) (stop : Nat) (atEnd : Option Nat) :
    Traced Fragment := do
  let tokens := leaves.filter fun leaf => !leaf.lexeme.token.isTrivia
  match assembly.grammar.recognize start.nonterminal tokens with
  | .error reason => throw (reason.toError tokens atEnd)
  | .ok chart =>
      Traced.log (.accepted tokens.length)
      let (tally, answers) :=
        assembly.grammar.derivations chart start.nonterminal 0 tokens.length .empty
      Traced.log (.counted tally.reported start.label)
      if 1 < tally.reported then
        Traced.log (.ambiguous tally.reported)
      match ParseError.ofDerivations? tally.reported with
      | some error => throw error
      | none =>
          assembly.build chart tokens (language.spanBetween ⟨tokens, stop⟩) start.nonterminal tally
            answers

mutual

/-- The token as reducers get it. -/
def leafOf : Lexeme → Leaf
  | ⟨token, start, stop⟩ => ⟨⟨token, start, stop⟩, partsOf token⟩

/-- The parts of the template that a token is. -/
def partsOf : Token → Traced (List Expr)
  | .chevron parts => expressionsOf parts
  | _ => pure []

/-- The parts of a template in order. -/
def expressionsOf : List TemplatePart → Traced (List Expr)
  | [] => pure []
  | part :: others => do
      let value ← expressionOf part
      return value :: (← expressionsOf others)

/-- A part of a template: its text, or the expression of an interpolation, whose fragment must be
one. -/
def expressionOf : TemplatePart → Traced Expr
  | .text value start stop => pure ⟨.string value, ⟨start, stop⟩⟩
  | .interpolation tokens _ close => do
      ofExcept ((← ofLeaves .expression (leavesOf tokens) close (some close)).into .expression)

/-- Tokens as reducers get them. -/
def leavesOf : List Lexeme → List Leaf
  | [] => []
  | lexeme :: others => leafOf lexeme :: leavesOf others

end

/-- The fragment of a source. -/
def ofSource (start : StartSymbol) (source : String) : Traced Fragment :=
  match Token.tokenize source with
  | .error error => throw (.ofLexError error)
  | .ok lexemes => do
      Traced.log (.tokenized lexemes.length)
      ofLeaves start (leavesOf lexemes) (Text.byteLength source.toList) none

/-- The outcome of parsing a ruleset or a list of statements, and the trace of it. -/
def parseTraced (source : String) (options : ParseOptions) :
    Except ParseError Program × List TraceEvent :=
  let (outcome, trace) := Traced.outcome do
    Traced.log (.parsing (Text.byteLength source.toList) options.filename)
    ofExcept ((← ofSource .main source).into .program)
  (outcome.mapError (ParseError.locate source options.filename), trace)

/-- Parse a ruleset or a list of statements. -/
def parse (source : String) (options : ParseOptions) : Except ParseError Program :=
  (parseTraced source options).1

/-- Parse a single expression. -/
def parseExpression (source : String) : Except ParseError Expr :=
  (Traced.outcome do ofExcept ((← ofSource .expression source).into .expression)).1.mapError
    (ParseError.locate source none)

end Fragment

end Krl

import Krl.Diagnostic
import Krl.Language
import Krl.Parse.Options
import Krl.Token.Lexer

/-!
# Parsing

A source is divided into tokens, the tokens are derived from a start symbol, and
the one derivation there may be is given its value. The expressions inside a
template are parsed in the same way, each on its own, when the template gets its
value; the template must have got a derivation by then.
-/

namespace Krl

/-- What a source is parsed as. -/
inductive StartSymbol where
  | main
  | expression
  deriving DecidableEq, Repr

namespace StartSymbol

/-- The kind of phrase the whole source must be. -/
@[reducible] def nonterminal : StartSymbol → Nonterminal
  | main => .main
  | expression => .expression

/-- How traces name the start symbol. -/
def label : StartSymbol → String
  | main => "Main"
  | expression => "Expression"

end StartSymbol

/-- The error for a text without derivations. When the text ends too early, the
offset given for that case is blamed. -/
def Rejection.toError (tokens : List Leaf) (atEnd : Option Nat) : Rejection → ParseError
  | .stuck token =>
      match tokens[token]? with
      | some leaf => .noParse (some leaf.lexeme.start) (some leaf.lexeme.token.display)
      | none => .noParse atEnd none
  | .short => .noParse atEnd none

/-- The value of tokens that end at byte `stop`. Trivia is left out, and the
tokens must have exactly one derivation. -/
def parseLeaves (start : StartSymbol) (leaves : List Leaf) (stop : Nat) (atEnd : Option Nat) :
    Traced start.nonterminal.Value := do
  let tokens := leaves.filter fun leaf => !leaf.lexeme.token.isTrivia
  match language.judge start.nonterminal ⟨tokens, stop⟩ with
  | .rejected reason => throw (reason.toError tokens atEnd)
  | .derived count value =>
      Traced.log (.accepted tokens.length)
      Traced.log (.counted count start.label)
      if 1 < count then
        Traced.log (.ambiguous count)
      match ParseError.ofDerivations? count with
      | some error => throw error
      | none => value

mutual

/-- The token as the grammar sees it. -/
def Leaf.ofLexeme : Lexeme → Leaf
  | ⟨token, start, stop⟩ => ⟨⟨token, start, stop⟩, templateParts token⟩

/-- The parts of the template that a token is. -/
def templateParts : Token → Traced (List Expr)
  | .chevron parts => partValues parts
  | _ => pure []

/-- The parts of a template in order. -/
def partValues : List TemplatePart → Traced (List Expr)
  | [] => pure []
  | part :: others => do
      let value ← partValue part
      return value :: (← partValues others)

/-- A part of a template: its text, or the expression of an interpolation. The
brace that closes an interpolation is blamed when the expression is incomplete. -/
def partValue : TemplatePart → Traced Expr
  | .text value start stop => pure ⟨.string value, ⟨start, stop⟩⟩
  | .interpolation tokens _ close =>
      parseLeaves .expression (leavesOf tokens) close (some close)

/-- Tokens as the grammar sees them. -/
def leavesOf : List Lexeme → List Leaf
  | [] => []
  | lexeme :: others => .ofLexeme lexeme :: leavesOf others

end

/-- The value of a source. -/
def parseSource (start : StartSymbol) (source : String) : Traced start.nonterminal.Value :=
  match Token.tokenize source with
  | .error error => throw (.ofLexError error)
  | .ok lexemes => do
      Traced.log (.tokenized lexemes.length)
      parseLeaves start (leavesOf lexemes) (Text.byteLength source.toList) none

/-- The outcome of parsing a ruleset or a list of statements, and the trace of it.
Errors are located in the source. -/
def parseTraced (source : String) (options : ParseOptions) :
    Except ParseError Program × List TraceEvent :=
  let (outcome, trace) := Traced.outcome do
    Traced.log (.parsing (Text.byteLength source.toList) options.filename)
    parseSource .main source
  (outcome.mapError (ParseError.locate source options.filename), trace)

/-- Parse a ruleset or a list of statements. -/
def parse (source : String) (options : ParseOptions) : Except ParseError Program :=
  (parseTraced source options).1

/-- Parse a single expression. -/
def parseExpression (source : String) : Except ParseError Expr :=
  (parseSource .expression source).outcome.1.mapError (ParseError.locate source none)

end Krl

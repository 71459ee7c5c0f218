import Krl.Language.Vocabulary

/-!
# Fragments

Seen from outside, the pieces of a tree under construction are all of one type. What a piece is
shows only when it is asked for, and asking for the wrong thing is an internal error. Tokens
are pieces too, and so are lists of pieces.
-/

namespace Krl

/-- What a piece of a tree can be. -/
inductive Fragment.Kind where
  | token | text | identifier | expression | statement | mapPair
  | argument | arguments | parameter | parameters
  | event | attributeMatch | aggregator | within | select | loop
  | action | actionSet | actionBlock | postlude | ruleState | rule
  | rulesetId | ruleset | metaProperty | metaBlock | logLevel | program
  deriving DecidableEq

namespace Fragment.Kind

/-- How errors name the kind. -/
def label : Kind → String
  | token => "Token"
  | text => "Text"
  | identifier => "Ident"
  | expression => "Expr"
  | statement => "Stmt"
  | mapPair => "MapPair"
  | argument => "Argument"
  | arguments => "Arguments"
  | parameter => "Param"
  | parameters => "Parameters"
  | event => "Event"
  | attributeMatch => "Attr"
  | aggregator => "Aggregator"
  | within => "Within"
  | select => "Select"
  | loop => "ForEach"
  | action => "Action"
  | actionSet => "ActionSet"
  | actionBlock => "ActionBlock"
  | postlude => "Postlude"
  | ruleState => "RuleState"
  | rule => "Rule"
  | rulesetId => "RulesetId"
  | ruleset => "Ruleset"
  | metaProperty => "MetaProp"
  | metaBlock => "Meta"
  | logLevel => "LogLevel"
  | program => "Program"

/-- What a piece of the kind holds. -/
@[reducible] def Content : Kind → Type
  | token => Leaf
  | text => String
  | identifier => Identifier
  | expression => Expr
  | statement => Stmt
  | mapPair => MapPair
  | argument => Argument
  | arguments => Arguments
  | parameter => Parameter
  | parameters => Parameters
  | event => Event
  | attributeMatch => AttributeMatch
  | aggregator => EventAggregator
  | within => EventWithin
  | select => RuleSelect
  | loop => RuleForEach
  | action => Action
  | actionSet => ActionSet
  | actionBlock => ActionBlock
  | postlude => RulePostlude
  | ruleState => RuleState
  | rule => Rule
  | rulesetId => RulesetId
  | ruleset => Ruleset
  | metaProperty => MetaProperty
  | metaBlock => RulesetMeta
  | logLevel => LogLevel
  | program => Program

end Fragment.Kind

/-- A piece of a tree under construction. -/
inductive Fragment where
  /-- An optional part that is absent. -/
  | nothing
  | list (parts : List Fragment)
  | piece (kind : Fragment.Kind) (content : kind.Content)

namespace Fragment

/-- How errors name what a fragment is. -/
def describe : Fragment → String
  | nothing => "nothing"
  | list _ => "list"
  | piece kind _ => kind.label

/-- The error for a fragment that is not what was asked for. -/
def mismatch (expected : String) (found : Fragment) : ParseError :=
  .internal ("expected " ++ expected ++ " fragment, found " ++ found.describe)

/-- The content of a piece that must be of a kind. -/
def into (kind : Kind) : Fragment → Except ParseError kind.Content
  | piece found content =>
      if same : found = kind then .ok (same ▸ content)
      else .error (mismatch kind.label (piece found content))
  | other => .error (mismatch kind.label other)

/-- The parts of what must be a list. -/
def intoList : Fragment → Except ParseError (List Fragment)
  | list parts => .ok parts
  | other => .error (mismatch "list" other)

/-- A word as an identifier, or an identifier that has been made already. -/
def intoIdentifier : Fragment → Except ParseError Identifier
  | piece .token ⟨⟨.symbol word, start, stop⟩, _⟩ => .ok ⟨word, ⟨start, stop⟩⟩
  | other => other.into .identifier

/-- What the parts of a list are read as. -/
def intoListOf {α : Type} (read : Fragment → Except ParseError α) (fragment : Fragment) :
    Except ParseError (List α) := do
  (← fragment.intoList).mapM read

/-- What an optional part is read as. -/
def intoOption {α : Type} (read : Fragment → Except ParseError α) :
    Fragment → Except ParseError (Option α)
  | nothing => .ok none
  | other => some <$> read other

/-- What the parts of a list are read as. An absent list is empty. -/
def intoItems {α : Type} (read : Fragment → Except ParseError α) :
    Fragment → Except ParseError (List α)
  | nothing => .ok []
  | other => other.intoListOf read

end Fragment

namespace Leaf

/-- The text of a word, a delimiter or an operator. -/
def word (leaf : Leaf) : Except ParseError String :=
  match leaf.lexeme.token with
  | .symbol word => .ok word
  | .punct mark => .ok mark.text
  | other => .error (.internal ("expected a word, found " ++ other.display))

/-- The error for a token of the wrong class. -/
def unexpected (leaf : Leaf) (wanted : String) : ParseError :=
  .internal ("expected " ++ wanted ++ " at " ++ toString leaf.lexeme.start ++ ", found `" ++
    leaf.lexeme.token.display ++ "`")

/-- A name with its domain, as an expression. -/
def domainName (leaf : Leaf) : Except ParseError Expr :=
  match leaf.lexeme.token with
  | .domainName domain name => .ok ⟨.domainIdentifier domain name, leaf.lexeme.span⟩
  | _ => .error (leaf.unexpected "a domain identifier")

/-- A number, as an expression. -/
def number (leaf : Leaf) : Except ParseError Expr :=
  match leaf.lexeme.token with
  | .number value => .ok ⟨.number value, leaf.lexeme.span⟩
  | _ => .error (leaf.unexpected "a number")

/-- A string, as an expression. -/
def string (leaf : Leaf) : Except ParseError Expr :=
  match leaf.lexeme.token with
  | .string value => .ok ⟨.string value, leaf.lexeme.span⟩
  | _ => .error (leaf.unexpected "a string")

/-- A regular expression, as an expression. -/
def regexp (leaf : Leaf) : Except ParseError Expr :=
  match leaf.lexeme.token with
  | .regexp pattern flags => .ok ⟨.regexp pattern flags, leaf.lexeme.span⟩
  | _ => .error (leaf.unexpected "a regular expression")

/-- The parts of a template, as expressions. -/
def template (leaf : Leaf) : Traced (List Expr) :=
  match leaf.lexeme.token with
  | .chevron _ => leaf.parts
  | _ => throw (leaf.unexpected "a chevron")

end Leaf

end Krl

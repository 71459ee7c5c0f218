import Krl.Grammar.Semantics
import Krl.Syntax.Ruleset
import Krl.Token
import Krl.Trace

/-!
# The vocabulary of the grammar

The classes of tokens and the kinds of phrases that the productions are written
in, with the type of what each of them stands for.
-/

namespace Krl

/-- Words that are never identifiers. -/
def reservedWords : List String :=
  ["ruleset", "meta", "global", "rule", "select", "when", "where", "setting", "within",
    "foreach", "pre", "fired", "notfired", "always", "else", "finally", "if", "then", "every",
    "choose", "sample", "or", "and", "before", "after", "between", "not", "any", "count",
    "repeat", "function", "defaction", "return", "returns", "true", "false", "like", "cmp",
    "last"]

/-- Whether a word can be an identifier. -/
def isIdentifier (word : String) : Bool :=
  !reservedWords.contains word

/-- Whether variables of a domain outlive the run of a rule. -/
def isPersistentDomain (domain : String) : Bool :=
  domain == "ent" || domain == "app"

/-- A token as the grammar sees it. The parts of a template are texts and
expressions; the expressions are parsed when the template gets its value. -/
structure Leaf where
  lexeme : Lexeme
  parts : Traced (List Expr)

/-- A class of tokens. -/
inductive Terminal where
  /-- One delimiter or operator. -/
  | punct (mark : Punct)
  /-- One word. -/
  | word (word : String)
  /-- Any word that is not reserved. -/
  | identifier
  /-- Any word. -/
  | symbol
  | number
  | string
  | regexp
  | chevron
  | domainName
  /-- A name in a domain of persistent variables. -/
  | persistent
  deriving DecidableEq, Repr

namespace Terminal

/-- What a token means as a member of a class. Of a fixed word only the place
matters. -/
@[reducible] def Datum : Terminal → Type
  | punct _ => Unit
  | word _ => Span
  | identifier | symbol => Identifier
  | number | string | regexp | domainName | persistent => Expr
  | chevron => Traced Expr

/-- What a token means as a member of a class, if it is one. -/
def read (terminal : Terminal) (leaf : Leaf) : Option terminal.Datum :=
  let span := leaf.lexeme.span
  match terminal, leaf.lexeme.token with
  | punct expected, .punct mark => if mark = expected then some () else none
  | word expected, .symbol text => if text = expected then some span else none
  | identifier, .symbol text => if isIdentifier text then some ⟨text, span⟩ else none
  | symbol, .symbol text => some ⟨text, span⟩
  | number, .number value => some ⟨.number value, span⟩
  | string, .string value => some ⟨.string value, span⟩
  | regexp, .regexp pattern flags => some ⟨.regexp pattern flags, span⟩
  | chevron, .chevron _ => some do return ⟨.chevron (← leaf.parts), span⟩
  | domainName, .domainName domain name => some ⟨.domainIdentifier domain name, span⟩
  | persistent, .domainName domain name =>
      if isPersistentDomain domain then some ⟨.domainIdentifier domain name, span⟩ else none
  | _, _ => none

end Terminal

/-- The actions of a block, before the condition of the block is known. -/
structure ActionSet where
  blockType : BlockType
  discriminant : Option Expr
  actions : List Action

/-- A single event that can still receive the aggregator of the group around it. -/
structure BaseEvent where
  expression : EventExpression
  span : Span

namespace BaseEvent

/-- The event as it stands. -/
def toEvent (event : BaseEvent) : Event :=
  ⟨.expression event.expression, event.span⟩

/-- The event with an aggregator, if there is one, which it then reaches up to. -/
def aggregate (event : BaseEvent) : Option EventAggregator → BaseEvent
  | none => event
  | some aggregator =>
      ⟨{ event.expression with aggregator := some aggregator }, event.span.merge aggregator.span⟩

end BaseEvent

/-- A kind of phrase. The names of optional phrases end in `Opt`. -/
inductive Nonterminal where
  | main
  -- rulesets and their properties
  | ruleset | rulesetId | ridWords | metaOpt | metaBlock | metaProperties | metaProperty
  | metaText | versionOpt | aliasOpt | withOpt | withSpaced | withJoined | withBinding
  | configuration | identifiers | rulesetIds | globalOpt
  -- declarations
  | declarations | declarationItem | declarationOrDefaction | declaration | declarationLeft
  | defaction | plainDeclarations | plainDeclaration | returnsOpt | expressions
  -- rules
  | rules | rule | ruleState | selectOpt | ruleSelect | withinOpt | timePeriod | loops | loop
  | preludeOpt | actionBlockOpt | postludeOpt
  -- postludes
  | postlude | postludeBody | postludeStatements | postludeSequence | postludeStatement
  | postludeCore | persistentAssignment | clearStatement | raiseStatement | forOpt
  | attributesOpt | scheduleStatement | scheduleSettingOpt | logStatement | errorStatement
  | logLevel
  -- actions
  | actionBlock | actionSet | actions | actionItem | action | actionCore | actionName
  | settingOpt
  -- events
  | eventOr | eventAnd | eventSequence | eventBetween | eventPrimary | eventBase | events
  | attributeMatches | attributeMatch | whereOpt | eventGroup | aggregatorOpt | aggregator
  -- expressions
  | expression | disjunction | conjunction | comparison | sum | product | unary | suffixed
  | primary | arrayLiteral | arrayItems | mapLiteral | mapPairs | mapPair | function
  | parameters | parameterList | parameter | arguments | argumentList | argumentSequence
  | argument
  -- statements
  | statements | statementSequence | statement
  deriving DecidableEq

namespace Nonterminal

/-- What a phrase stands for. -/
@[reducible] def Value : Nonterminal → Type
  | main => Program
  | ruleset => Ruleset
  | rulesetId => RulesetId
  | ridWords => String
  | metaOpt => Option RulesetMeta
  | metaBlock => RulesetMeta
  | metaProperties => List MetaProperty
  | metaProperty => MetaProperty
  | metaText => Expr
  | versionOpt => Option Expr
  | aliasOpt => Option Identifier
  | withOpt => Option (List Stmt)
  | withSpaced | withJoined => List Stmt
  | withBinding => Stmt
  | configuration => List Stmt
  | identifiers => List Identifier
  | rulesetIds => List RulesetId
  | globalOpt => List Stmt
  | declarations => List Stmt
  | declarationItem | declarationOrDefaction | declaration => Stmt
  | declarationLeft => Expr
  | defaction => Stmt
  | plainDeclarations => List Stmt
  | plainDeclaration => Stmt
  | returnsOpt | expressions => List Expr
  | rules => List Rule
  | rule => Rule
  | ruleState => RuleState
  | selectOpt => Option RuleSelect
  | ruleSelect => RuleSelect
  | withinOpt => Option EventWithin
  | timePeriod => String
  | loops => List RuleForEach
  | loop => RuleForEach
  | preludeOpt => List Stmt
  | actionBlockOpt => Option ActionBlock
  | postludeOpt => Option RulePostlude
  | postlude => RulePostlude
  | postludeBody | postludeStatements | postludeSequence => List Stmt
  | postludeStatement | postludeCore | persistentAssignment | clearStatement
  | raiseStatement => Stmt
  | forOpt | attributesOpt => Option Expr
  | scheduleStatement => Stmt
  | scheduleSettingOpt => Option Identifier
  | logStatement | errorStatement => Stmt
  | logLevel => LogLevel
  | actionBlock => ActionBlock
  | actionSet => ActionSet
  | actions => List Action
  | actionItem | action | actionCore => Action
  | actionName => Expr
  | settingOpt => List Identifier
  | eventOr | eventAnd | eventSequence | eventBetween | eventPrimary => Event
  | eventBase => BaseEvent
  | events => List Event
  | attributeMatches => List AttributeMatch
  | attributeMatch => AttributeMatch
  | whereOpt => Option Expr
  | eventGroup => Event
  | aggregatorOpt => Option EventAggregator
  | aggregator => EventAggregator
  | expression | disjunction | conjunction | comparison | sum | product | unary | suffixed
  | primary | arrayLiteral => Expr
  | arrayItems => List Expr
  | mapLiteral => Expr
  | mapPairs => List MapPair
  | mapPair => MapPair
  | function => Expr
  | parameters => Parameters
  | parameterList => List Parameter
  | parameter => Parameter
  | arguments => Arguments
  | argumentList | argumentSequence => List Argument
  | argument => Argument
  | statements | statementSequence => List Stmt
  | statement => Stmt

end Nonterminal

namespace Productions

/-- A place for a phrase. -/
@[reducible] def the (name : Nonterminal) : Symbol Nonterminal Terminal := .nonterminal name

/-- A place for a delimiter or an operator. -/
@[reducible] def mark (punct : Punct) : Symbol Nonterminal Terminal := .terminal (.punct punct)

/-- A place for a fixed word. -/
@[reducible] def word (text : String) : Symbol Nonterminal Terminal := .terminal (.word text)

/-- A place for a token of a class. -/
@[reducible] def token (tokens : Terminal) : Symbol Nonterminal Terminal := .terminal tokens

/-- The type of the productions of this language, each with its action. -/
abbrev Entry : Type :=
  Reduction Nonterminal.Value Terminal.Datum Leaf Traced

/-- A production whose action always succeeds. -/
def rule (lhs : Nonterminal) (rhs : List (Symbol Nonterminal Terminal))
    (action : Span → Curried Nonterminal.Value Terminal.Datum rhs lhs.Value) : Entry where
  lhs := lhs
  rhs := rhs
  guard := none
  action := fun span => Curried.map pure rhs (action span)

/-- A production whose matches a guard must confirm. -/
def guarded (guard : Guard Leaf) (production : Entry) : Entry :=
  { production with guard := some guard }

/-- A production that stands for a template alone. -/
def template (lhs : Nonterminal) (value : Expr → lhs.Value) : Entry where
  lhs := lhs
  rhs := [token .chevron]
  guard := none
  action := fun _ (parts : Traced Expr) => (value <$> parts : Traced lhs.Value)

/-- A production that only passes on the phrase it consists of. -/
def same (lhs name : Nonterminal) (value : name.Value → lhs.Value) : Entry :=
  rule lhs [the name] fun _ => value

end Productions

end Krl

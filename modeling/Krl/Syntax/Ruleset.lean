import Krl.Syntax.Event

/-!
# Rulesets

A ruleset holds properties about itself, global declarations, and rules. A source
that is no ruleset is a list of statements.
-/

namespace Krl

/-- What a property in `meta` says. -/
inductive MetaValue where
  | expr (value : Expr)
  /-- `keys name value` -/
  | key (name : Keyword) (value : Expr)
  /-- `use module rid version "1" alias name with a = 1` -/
  | use (kind : Keyword) (rid : RulesetId) (version : Option Expr) (localName : Option Identifier)
      (bindings : Option (List Stmt))
  /-- `errors to rid version "1"` -/
  | errors (rid : RulesetId) (version : Option Expr)
  /-- `provides a, b` or `provides keys a, b to rids` -/
  | provides (operator : Option Keyword) (names : List Identifier) (rulesets : List RulesetId)
  /-- `shares a, b` -/
  | shares (names : List Identifier)
  /-- `configure using a = 1 b = 2` -/
  | configure (declarations : List Stmt)

/-- A property. Its key is in the canonical spelling: `keys`, `provides`, `shares`. -/
structure MetaProperty where
  key : Keyword
  value : MetaValue
  span : Span

/-- `meta { ... }` -/
structure RulesetMeta where
  properties : List MetaProperty
  span : Span

/-- `within value minutes` -/
structure EventWithin where
  value : Expr
  timePeriod : String
  span : Span

/-- `select when event within value minutes` -/
structure RuleSelect where
  event : Event
  within : Option EventWithin
  span : Span

/-- `foreach value setting(names)` -/
structure RuleForEach where
  value : Expr
  setting : List Identifier
  span : Span

/-- What happens after the actions, depending on whether they ran. -/
structure RulePostlude where
  fired : Option (List Stmt)
  notFired : Option (List Stmt)
  always : Option (List Stmt)
  span : Span

/-- `rule name { ... }` -/
structure Rule where
  name : Identifier
  state : RuleState
  select : Option RuleSelect
  loops : List RuleForEach
  prelude : List Stmt
  actionBlock : Option ActionBlock
  postlude : Option RulePostlude
  span : Span

/-- `ruleset rid { ... }` -/
structure Ruleset where
  rid : RulesetId
  properties : Option RulesetMeta
  globals : List Stmt
  rules : List Rule
  span : Span

/-- What a source denotes. -/
inductive Program where
  | ruleset (ruleset : Ruleset)
  | statements (statements : List Stmt)

namespace Program

/-- The ruleset, if the program is one. -/
def ruleset? : Program → Option Ruleset
  | ruleset value => some value
  | statements _ => none

/-- The statements of a program that is no ruleset. -/
def statementList : Program → List Stmt
  | ruleset _ => []
  | statements items => items

end Program

end Krl

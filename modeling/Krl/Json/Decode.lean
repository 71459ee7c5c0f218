import Krl.Error
import Krl.Json.Name
import Krl.Parse.Options

/-!
# Reading syntax trees from documents

Expressions and statements hold one another, so what reads a part of them takes
the readers of smaller expressions and statements along. The depth of a document
bounds how often they nest.
-/

namespace Krl

open Json (recordFields? objectFields? required optional list? nat? string? bool? double?
  variant? unit? oneOf?)

/-- The span a document describes. -/
def Span.ofJson? (document : Json) : Option Span := do
  match ← recordFields? ["start", "end"] document with
  | [start, stop] => return ⟨← required nat? start, ← required nat? stop⟩
  | _ => none

/-- The word and the place that a document describes. -/
def wordOfJson? (document : Json) : Option (String × Span) := do
  match ← recordFields? ["value", "span"] document with
  | [value, span] => return (← required string? value, ← required Span.ofJson? span)
  | _ => none

/-- The name a document describes. -/
def Identifier.ofJson? (document : Json) : Option Identifier :=
  (wordOfJson? document).map fun (value, span) => ⟨value, span⟩

/-- The keyword a document describes. -/
def Keyword.ofJson? (document : Json) : Option Keyword :=
  (wordOfJson? document).map fun (value, span) => ⟨value, span⟩

/-- The identifier of a ruleset that a document describes. -/
def RulesetId.ofJson? (document : Json) : Option RulesetId :=
  (wordOfJson? document).map fun (value, span) => ⟨value, span⟩

section Parts

variable (expr? : Json → Option Expr) (stmt? : Json → Option Stmt)

/-- The pair of a map that a document describes. -/
def MapPair.ofJson? (document : Json) : Option MapPair := do
  match ← recordFields? ["key", "value", "span"] document with
  | [key, value, span] =>
      return ⟨← required expr? key, ← required expr? value, ← required Span.ofJson? span⟩
  | _ => none

/-- The argument with a name that a document describes. -/
def NamedArgument.ofJson? (document : Json) : Option NamedArgument := do
  match ← recordFields? ["id", "value", "span"] document with
  | [name, value, span] =>
      return ⟨← required Identifier.ofJson? name, ← required expr? value,
        ← required Span.ofJson? span⟩
  | _ => none

/-- The argument a document describes. -/
def Argument.ofJson? (document : Json) : Option Argument := do
  match ← variant? document with
  | ("Positional", payload) => return .positional (← required expr? payload)
  | ("Named", payload) => return .named (← required (NamedArgument.ofJson? expr?) payload)
  | _ => none

/-- The list of arguments that a document describes. -/
def Arguments.ofJson? (document : Json) : Option Arguments := do
  match ← recordFields? ["args", "span"] document with
  | [items, span] =>
      return ⟨← required (list? (Argument.ofJson? expr?)) items, ← required Span.ofJson? span⟩
  | _ => none

/-- The parameter a document describes. -/
def Parameter.ofJson? (document : Json) : Option Parameter := do
  match ← recordFields? ["id", "default", "span"] document with
  | [name, default, span] =>
      return ⟨← required Identifier.ofJson? name, ← optional expr? default,
        ← required Span.ofJson? span⟩
  | _ => none

/-- The list of parameters that a document describes. -/
def Parameters.ofJson? (document : Json) : Option Parameters := do
  match ← recordFields? ["params", "span"] document with
  | [items, span] =>
      return ⟨← required (list? (Parameter.ofJson? expr?)) items, ← required Span.ofJson? span⟩
  | _ => none

/-- What kind of expression a document describes. -/
def ExprKind.ofJson? (document : Json) : Option ExprKind := do
  match ← variant? document with
  | ("Identifier", payload) => return .identifier (← required string? payload)
  | ("DomainIdentifier", some payload) =>
      match ← objectFields? ["domain", "value"] payload with
      | [domain, name] =>
          return .domainIdentifier (← required string? domain) (← required string? name)
      | _ => none
  | ("String", payload) => return .string (← required string? payload)
  | ("Number", payload) => return .number (← required double? payload)
  | ("Boolean", payload) => return .boolean (← required bool? payload)
  | ("RegExp", some payload) =>
      match ← objectFields? ["pattern", "flags"] payload with
      | [pattern, flags] => return .regexp (← required string? pattern) (← required string? flags)
      | _ => none
  | ("Chevron", payload) => return .chevron (← required (list? expr?) payload)
  | ("Array", payload) => return .array (← required (list? expr?) payload)
  | ("Map", payload) => return .map (← required (list? (MapPair.ofJson? expr?)) payload)
  | ("Unary", some payload) =>
      match ← objectFields? ["op", "arg"] payload with
      | [op, operand] =>
          return .unary (← required (oneOf? UnaryOp.all UnaryOp.name) op)
            (← required expr? operand)
      | _ => none
  | ("Infix", some payload) =>
      match ← objectFields? ["op", "left", "right"] payload with
      | [op, left, right] =>
          return .binary (← required (oneOf? BinaryOp.all BinaryOp.name) op)
            (← required expr? left) (← required expr? right)
      | _ => none
  | ("Conditional", some payload) =>
      match ← objectFields? ["test", "consequent", "alternate"] payload with
      | [test, consequent, alternate] =>
          return .conditional (← required expr? test) (← required expr? consequent)
            (← required expr? alternate)
      | _ => none
  | ("Member", some payload) =>
      match ← objectFields? ["object", "property", "method"] payload with
      | [object, property, method] =>
          return .member (← required expr? object) (← required expr? property)
            (← required (oneOf? MemberMethod.all MemberMethod.name) method)
      | _ => none
  | ("Application", some payload) =>
      match ← objectFields? ["callee", "args"] payload with
      | [callee, arguments] =>
          return .application (← required expr? callee)
            (← required (Arguments.ofJson? expr?) arguments)
      | _ => none
  | ("Function", some payload) =>
      match ← objectFields? ["params", "body"] payload with
      | [parameters, body] =>
          return .function (← required (Parameters.ofJson? expr?) parameters)
            (← required (list? stmt?) body)
      | _ => none
  | _ => none

/-- The action a document describes. -/
def Action.ofJson? (document : Json) : Option Action := do
  match ← recordFields? ["label", "action", "args", "setting", "span"] document with
  | [label, action, arguments, setting, span] =>
      return ⟨← optional Identifier.ofJson? label, ← required expr? action,
        ← required (Arguments.ofJson? expr?) arguments,
        ← required (list? Identifier.ofJson?) setting, ← required Span.ofJson? span⟩
  | _ => none

/-- The block of actions that a document describes. -/
def ActionBlock.ofJson? (document : Json) : Option ActionBlock := do
  match ← recordFields? ["condition", "block_type", "discriminant", "actions", "span"]
    document with
  | [condition, blockType, discriminant, actions, span] =>
      return ⟨← optional expr? condition,
        ← required (oneOf? BlockType.all BlockType.name) blockType,
        ← optional expr? discriminant, ← required (list? (Action.ofJson? expr?)) actions,
        ← required Span.ofJson? span⟩
  | _ => none

/-- The definition of an action that a document describes. -/
def DefAction.ofJson? (document : Json) : Option DefAction := do
  match ← recordFields? ["id", "params", "body", "action_block", "returns"] document with
  | [name, parameters, body, actionBlock, returns] =>
      return ⟨← required Identifier.ofJson? name,
        ← required (Parameters.ofJson? expr?) parameters, ← required (list? stmt?) body,
        ← required (ActionBlock.ofJson? expr?) actionBlock, ← required (list? expr?) returns⟩
  | _ => none

/-- The time of a scheduled event that a document describes. -/
def ScheduleTiming.ofJson? (document : Json) : Option ScheduleTiming := do
  match ← variant? document with
  | ("At", payload) => return .at (← required expr? payload)
  | ("Repeat", payload) => return .repeat (← required expr? payload)
  | _ => none

/-- The condition of a statement that a document describes. -/
def GuardCondition.ofJson? (document : Json) : Option GuardCondition := do
  match ← variant? document with
  | ("OnFinal", payload) => unit? .onFinal payload
  | ("If", payload) => return .if (← required expr? payload)
  | _ => none

/-- What kind of statement a document describes. -/
def StmtKind.ofJson? (document : Json) : Option StmtKind := do
  match ← variant? document with
  | ("Expression", payload) => return .expression (← required expr? payload)
  | ("Declaration", some payload) =>
      match ← objectFields? ["left", "right"] payload with
      | [left, right] => return .declaration (← required expr? left) (← required expr? right)
      | _ => none
  | ("DefAction", payload) =>
      return .defaction (← required (DefAction.ofJson? expr? stmt?) payload)
  | ("PersistentVariableAssignment", some payload) =>
      match ← objectFields? ["left", "path_expression", "right"] payload with
      | [left, path, right] =>
          return .persistent (← required expr? left) (← optional expr? path)
            (← required expr? right)
      | _ => none
  | ("ClearPersistentVariable", some payload) =>
      match ← objectFields? ["variable"] payload with
      | [name] => return .clear (← required expr? name)
      | _ => none
  | ("RaiseEvent", some payload) =>
      match ← objectFields? ["event_domain", "event_type", "for_rid", "event_attrs"] payload with
      | [eventDomain, eventType, forRid, attributes] =>
          return .raise (← required Identifier.ofJson? eventDomain) (← required expr? eventType)
            (← optional expr? forRid) (← optional expr? attributes)
      | _ => none
  | ("ScheduleEvent", some payload) =>
      match ← objectFields? ["timing", "event_domain", "event_type", "event_attrs", "setting"]
        payload with
      | [timing, eventDomain, eventType, attributes, setting] =>
          return .schedule (← required (ScheduleTiming.ofJson? expr?) timing)
            (← required Identifier.ofJson? eventDomain) (← required expr? eventType)
            (← optional expr? attributes) (← optional Identifier.ofJson? setting)
      | _ => none
  | ("Log", some payload) =>
      match ← objectFields? ["level", "expression"] payload with
      | [level, value] =>
          return .log (← required (oneOf? LogLevel.all LogLevel.name) level)
            (← required expr? value)
      | _ => none
  | ("Error", some payload) =>
      match ← objectFields? ["level", "expression"] payload with
      | [level, value] =>
          return .error (← required (oneOf? LogLevel.all LogLevel.name) level)
            (← required expr? value)
      | _ => none
  | ("Guard", some payload) =>
      match ← objectFields? ["condition", "statement"] payload with
      | [condition, statement] =>
          return .guarded (← required (GuardCondition.ofJson? expr?) condition)
            (← required stmt? statement)
      | _ => none
  | ("Last", payload) => unit? .last payload
  | _ => none

/-- A thing of some kind with its span. -/
def spannedOfJson? {Kind : Type} (kind? : Json → Option Kind) (document : Json) :
    Option (Kind × Span) := do
  match ← recordFields? ["node", "span"] document with
  | [kind, span] => return (← required kind? kind, ← required Span.ofJson? span)
  | _ => none

end Parts

mutual

/-- The expression a document describes, as far as it nests no deeper than `depth`. -/
def Expr.ofJsonWithin? : (depth : Nat) → Json → Option Expr
  | 0, _ => none
  | depth + 1, document =>
      (spannedOfJson? (ExprKind.ofJson? (Expr.ofJsonWithin? depth) (Stmt.ofJsonWithin? depth))
        document).map fun (kind, span) => ⟨kind, span⟩

/-- The statement a document describes, as far as it nests no deeper than `depth`. -/
def Stmt.ofJsonWithin? : (depth : Nat) → Json → Option Stmt
  | 0, _ => none
  | depth + 1, document =>
      (spannedOfJson? (StmtKind.ofJson? (Expr.ofJsonWithin? depth) (Stmt.ofJsonWithin? depth))
        document).map fun (kind, span) => ⟨kind, span⟩

end

/-- The expression a document describes. -/
def Expr.ofJson? (document : Json) : Option Expr :=
  Expr.ofJsonWithin? document.depth document

/-- The statement a document describes. -/
def Stmt.ofJson? (document : Json) : Option Stmt :=
  Stmt.ofJsonWithin? document.depth document

/-- The test on an attribute that a document describes. -/
def AttributeMatch.ofJson? (document : Json) : Option AttributeMatch := do
  match ← recordFields? ["key", "value", "span"] document with
  | [key, value, span] =>
      return ⟨← required Identifier.ofJson? key, ← required Expr.ofJson? value,
        ← required Span.ofJson? span⟩
  | _ => none

/-- The aggregator a document describes. -/
def EventAggregator.ofJson? (document : Json) : Option EventAggregator := do
  match ← recordFields? ["op", "args", "span"] document with
  | [op, names, span] =>
      return ⟨← required (oneOf? AggregateOp.all AggregateOp.name) op,
        ← required (list? Identifier.ofJson?) names, ← required Span.ofJson? span⟩
  | _ => none

/-- The single event that a document describes. -/
def EventExpression.ofJson? (document : Json) : Option EventExpression := do
  match ← recordFields?
    ["event_domain", "event_type", "event_attrs", "where_clause", "setting", "aggregator"]
    document with
  | [eventDomain, eventType, attributes, whereClause, setting, aggregator] =>
      return ⟨← required Identifier.ofJson? eventDomain, ← required Identifier.ofJson? eventType,
        ← required (list? AttributeMatch.ofJson?) attributes,
        ← optional Expr.ofJson? whereClause, ← required (list? Identifier.ofJson?) setting,
        ← optional EventAggregator.ofJson? aggregator⟩
  | _ => none

/-- What kind of event expression a document describes. -/
def EventKind.ofJson? (event? : Json → Option Event) (document : Json) : Option EventKind := do
  match ← variant? document with
  | ("Expression", payload) => return .expression (← required EventExpression.ofJson? payload)
  | ("Operator", some payload) =>
      match ← objectFields? ["op", "args"] payload with
      | [op, operands] =>
          return .operator (← required (oneOf? EventOp.all EventOp.name) op)
            (← required (list? event?) operands)
      | _ => none
  | ("Any", some payload) =>
      match ← objectFields? ["count", "args"] payload with
      | [count, operands] =>
          return .any (← required Expr.ofJson? count) (← required (list? event?) operands)
      | _ => none
  | ("Group", some payload) =>
      match ← objectFields? ["op", "n", "event"] payload with
      | [op, times, event] =>
          return .group (← required (oneOf? GroupOp.all GroupOp.name) op)
            (← required Expr.ofJson? times) (← required event? event)
      | _ => none
  | _ => none

/-- The event expression that a document describes, as far as it nests no deeper
than `depth`. -/
def Event.ofJsonWithin? : (depth : Nat) → Json → Option Event
  | 0, _ => none
  | depth + 1, document =>
      (spannedOfJson? (EventKind.ofJson? (Event.ofJsonWithin? depth)) document).map
        fun (kind, span) => ⟨kind, span⟩

/-- The event expression that a document describes. -/
def Event.ofJson? (document : Json) : Option Event :=
  Event.ofJsonWithin? document.depth document

/-- The period that a document describes. -/
def EventWithin.ofJson? (document : Json) : Option EventWithin := do
  match ← recordFields? ["expression", "time_period", "span"] document with
  | [value, timePeriod, span] =>
      return ⟨← required Expr.ofJson? value, ← required string? timePeriod,
        ← required Span.ofJson? span⟩
  | _ => none

/-- The events to wait for that a document describes. -/
def RuleSelect.ofJson? (document : Json) : Option RuleSelect := do
  match ← recordFields? ["event", "within", "span"] document with
  | [event, within, span] =>
      return ⟨← required Event.ofJson? event, ← optional EventWithin.ofJson? within,
        ← required Span.ofJson? span⟩
  | _ => none

/-- The loop a document describes. -/
def RuleForEach.ofJson? (document : Json) : Option RuleForEach := do
  match ← recordFields? ["expression", "setting", "span"] document with
  | [value, setting, span] =>
      return ⟨← required Expr.ofJson? value, ← required (list? Identifier.ofJson?) setting,
        ← required Span.ofJson? span⟩
  | _ => none

/-- The postlude a document describes. -/
def RulePostlude.ofJson? (document : Json) : Option RulePostlude := do
  match ← recordFields? ["fired", "notfired", "always", "span"] document with
  | [fired, notFired, always, span] =>
      return ⟨← optional (list? Stmt.ofJson?) fired, ← optional (list? Stmt.ofJson?) notFired,
        ← optional (list? Stmt.ofJson?) always, ← required Span.ofJson? span⟩
  | _ => none

/-- The rule a document describes. -/
def Rule.ofJson? (document : Json) : Option Rule := do
  match ← recordFields?
    ["name", "rule_state", "select", "foreach", "prelude", "action_block", "postlude", "span"]
    document with
  | [name, state, select, loops, prelude, actionBlock, postlude, span] =>
      return ⟨← required Identifier.ofJson? name,
        ← required (oneOf? RuleState.all RuleState.name) state,
        ← optional RuleSelect.ofJson? select, ← required (list? RuleForEach.ofJson?) loops,
        ← required (list? Stmt.ofJson?) prelude,
        ← optional (ActionBlock.ofJson? Expr.ofJson?) actionBlock,
        ← optional RulePostlude.ofJson? postlude, ← required Span.ofJson? span⟩
  | _ => none

/-- The value of a property that a document describes. -/
def MetaValue.ofJson? (document : Json) : Option MetaValue := do
  match ← variant? document with
  | ("Expr", payload) => return .expr (← required Expr.ofJson? payload)
  | ("Key", some payload) =>
      match ← objectFields? ["name", "value"] payload with
      | [name, value] =>
          return .key (← required Keyword.ofJson? name) (← required Expr.ofJson? value)
      | _ => none
  | ("Use", some payload) =>
      match ← objectFields? ["kind", "rid", "version", "alias", "with"] payload with
      | [kind, rid, version, localName, bindings] =>
          return .use (← required Keyword.ofJson? kind) (← required RulesetId.ofJson? rid)
            (← optional Expr.ofJson? version) (← optional Identifier.ofJson? localName)
            (← optional (list? Stmt.ofJson?) bindings)
      | _ => none
  | ("Errors", some payload) =>
      match ← objectFields? ["rid", "version"] payload with
      | [rid, version] =>
          return .errors (← required RulesetId.ofJson? rid) (← optional Expr.ofJson? version)
      | _ => none
  | ("Provides", some payload) =>
      match ← objectFields? ["operator", "ids", "rulesets"] payload with
      | [operator, names, rulesets] =>
          return .provides (← optional Keyword.ofJson? operator)
            (← required (list? Identifier.ofJson?) names)
            (← required (list? RulesetId.ofJson?) rulesets)
      | _ => none
  | ("Shares", some payload) =>
      match ← objectFields? ["ids"] payload with
      | [names] => return .shares (← required (list? Identifier.ofJson?) names)
      | _ => none
  | ("Configure", some payload) =>
      match ← objectFields? ["declarations"] payload with
      | [declarations] => return .configure (← required (list? Stmt.ofJson?) declarations)
      | _ => none
  | _ => none

/-- The property a document describes. -/
def MetaProperty.ofJson? (document : Json) : Option MetaProperty := do
  match ← recordFields? ["key", "value", "span"] document with
  | [key, value, span] =>
      return ⟨← required Keyword.ofJson? key, ← required MetaValue.ofJson? value,
        ← required Span.ofJson? span⟩
  | _ => none

/-- The properties of a ruleset that a document describes. -/
def RulesetMeta.ofJson? (document : Json) : Option RulesetMeta := do
  match ← recordFields? ["properties", "span"] document with
  | [properties, span] =>
      return ⟨← required (list? MetaProperty.ofJson?) properties, ← required Span.ofJson? span⟩
  | _ => none

/-- The ruleset a document describes. -/
def Ruleset.ofJson? (document : Json) : Option Ruleset := do
  match ← recordFields? ["rid", "meta", "global", "rules", "span"] document with
  | [rid, properties, globals, rules, span] =>
      return ⟨← required RulesetId.ofJson? rid, ← optional RulesetMeta.ofJson? properties,
        ← required (list? Stmt.ofJson?) globals, ← required (list? Rule.ofJson?) rules,
        ← required Span.ofJson? span⟩
  | _ => none

/-- The program a document describes. -/
def Program.ofJson? (document : Json) : Option Program := do
  match ← variant? document with
  | ("Ruleset", payload) => return .ruleset (← required Ruleset.ofJson? payload)
  | ("Statements", payload) => return .statements (← required (list? Stmt.ofJson?) payload)
  | _ => none

/-- The location a document describes. -/
def Location.ofJson? (document : Json) : Option Location := do
  match ← recordFields? ["filename", "line", "col", "excerpt"] document with
  | [filename, line, column, excerpt] =>
      return ⟨← optional string? filename, ← required nat? line, ← required nat? column,
        ← required string? excerpt⟩
  | _ => none

/-- The options a document describes. All of them may be missing, also from an
array. -/
def ParseOptions.ofJson? (document : Json) : Option ParseOptions := do
  match document with
  | .array [] => return .none
  | document =>
      match ← recordFields? ["filename"] document with
      | [filename] => return ⟨← optional string? filename⟩
      | _ => none

end Krl

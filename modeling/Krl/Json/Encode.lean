import Krl.Error
import Krl.Json.Name
import Krl.Parse.Options

/-!
# Writing syntax trees as documents

Every record is written as an object with all of its fields, a missing part as
null.
-/

namespace Krl

open Json (variant ofOption ofList ofNat)

/-- The document for a span. -/
def Span.toJson (span : Span) : Json :=
  .object [("start", ofNat span.start), ("end", ofNat span.stop)]

/-- The document for a word and its place. -/
def wordToJson (value : String) (span : Span) : Json :=
  .object [("value", .string value), ("span", span.toJson)]

/-- The document for a name. -/
def Identifier.toJson (identifier : Identifier) : Json :=
  wordToJson identifier.value identifier.span

/-- The document for a keyword. -/
def Keyword.toJson (keyword : Keyword) : Json :=
  wordToJson keyword.value keyword.span

/-- The document for the identifier of a ruleset. -/
def RulesetId.toJson (rid : RulesetId) : Json :=
  wordToJson rid.value rid.span

mutual

/-- The document for an expression. -/
def Expr.toJson : Expr → Json
  | ⟨kind, span⟩ => .object [("node", kind.toJson), ("span", span.toJson)]

/-- The document for what an expression is. -/
def ExprKind.toJson : ExprKind → Json
  | .identifier name => variant "Identifier" (.string name)
  | .domainIdentifier domain name =>
      variant "DomainIdentifier" (.object [("domain", .string domain), ("value", .string name)])
  | .string value => variant "String" (.string value)
  | .number value => variant "Number" (.double value)
  | .boolean value => variant "Boolean" (.bool value)
  | .regexp pattern flags =>
      variant "RegExp" (.object [("pattern", .string pattern), ("flags", .string flags)])
  | .chevron parts => variant "Chevron" (.array (exprsToJson parts))
  | .array items => variant "Array" (.array (exprsToJson items))
  | .map pairs => variant "Map" (.array (mapPairsToJson pairs))
  | .unary op operand =>
      variant "Unary" (.object [("op", .string op.name), ("arg", operand.toJson)])
  | .binary op left right =>
      variant "Infix"
        (.object [("op", .string op.name), ("left", left.toJson), ("right", right.toJson)])
  | .conditional test consequent alternate =>
      variant "Conditional"
        (.object [("test", test.toJson), ("consequent", consequent.toJson),
          ("alternate", alternate.toJson)])
  | .member object property method =>
      variant "Member"
        (.object [("object", object.toJson), ("property", property.toJson),
          ("method", .string method.name)])
  | .application callee arguments =>
      variant "Application" (.object [("callee", callee.toJson), ("args", arguments.toJson)])
  | .function parameters body =>
      variant "Function"
        (.object [("params", parameters.toJson), ("body", .array (stmtsToJson body))])

/-- The document for a pair of a map. -/
def MapPair.toJson : MapPair → Json
  | ⟨key, value, span⟩ =>
      .object [("key", key.toJson), ("value", value.toJson), ("span", span.toJson)]

/-- The document for a list of arguments. -/
def Arguments.toJson : Arguments → Json
  | ⟨items, span⟩ => .object [("args", .array (argumentsToJson items)), ("span", span.toJson)]

/-- The document for an argument. -/
def Argument.toJson : Argument → Json
  | .positional value => variant "Positional" value.toJson
  | .named argument => variant "Named" argument.toJson

/-- The document for an argument with a name. -/
def NamedArgument.toJson : NamedArgument → Json
  | ⟨name, value, span⟩ =>
      .object [("id", name.toJson), ("value", value.toJson), ("span", span.toJson)]

/-- The document for a list of parameters. -/
def Parameters.toJson : Parameters → Json
  | ⟨items, span⟩ => .object [("params", .array (parametersToJson items)), ("span", span.toJson)]

/-- The document for a parameter. -/
def Parameter.toJson : Parameter → Json
  | ⟨name, default, span⟩ =>
      .object [("id", name.toJson), ("default", optionalExprToJson default),
        ("span", span.toJson)]

/-- The document for a statement. -/
def Stmt.toJson : Stmt → Json
  | ⟨kind, span⟩ => .object [("node", kind.toJson), ("span", span.toJson)]

/-- The document for what a statement is. -/
def StmtKind.toJson : StmtKind → Json
  | .expression value => variant "Expression" value.toJson
  | .declaration left right =>
      variant "Declaration" (.object [("left", left.toJson), ("right", right.toJson)])
  | .defaction definition => variant "DefAction" definition.toJson
  | .persistent left path right =>
      variant "PersistentVariableAssignment"
        (.object [("left", left.toJson), ("path_expression", optionalExprToJson path),
          ("right", right.toJson)])
  | .clear name => variant "ClearPersistentVariable" (.object [("variable", name.toJson)])
  | .raise eventDomain eventType forRid attributes =>
      variant "RaiseEvent"
        (.object [("event_domain", eventDomain.toJson), ("event_type", eventType.toJson),
          ("for_rid", optionalExprToJson forRid), ("event_attrs", optionalExprToJson attributes)])
  | .schedule timing eventDomain eventType attributes setting =>
      variant "ScheduleEvent"
        (.object [("timing", timing.toJson), ("event_domain", eventDomain.toJson),
          ("event_type", eventType.toJson), ("event_attrs", optionalExprToJson attributes),
          ("setting", ofOption Identifier.toJson setting)])
  | .log level value =>
      variant "Log" (.object [("level", .string level.name), ("expression", value.toJson)])
  | .error level value =>
      variant "Error" (.object [("level", .string level.name), ("expression", value.toJson)])
  | .guarded condition statement =>
      variant "Guard" (.object [("condition", condition.toJson), ("statement", statement.toJson)])
  | .last => .string "Last"

/-- The document for the definition of an action. -/
def DefAction.toJson : DefAction → Json
  | ⟨name, parameters, body, actionBlock, returns⟩ =>
      .object [("id", name.toJson), ("params", parameters.toJson),
        ("body", .array (stmtsToJson body)), ("action_block", actionBlock.toJson),
        ("returns", .array (exprsToJson returns))]

/-- The document for a block of actions. -/
def ActionBlock.toJson : ActionBlock → Json
  | ⟨condition, blockType, discriminant, actions, span⟩ =>
      .object [("condition", optionalExprToJson condition),
        ("block_type", .string blockType.name),
        ("discriminant", optionalExprToJson discriminant),
        ("actions", .array (actionsToJson actions)), ("span", span.toJson)]

/-- The document for an action. -/
def Action.toJson : Action → Json
  | ⟨label, action, arguments, setting, span⟩ =>
      .object [("label", ofOption Identifier.toJson label), ("action", action.toJson),
        ("args", arguments.toJson), ("setting", ofList Identifier.toJson setting),
        ("span", span.toJson)]

/-- The document for the time of a scheduled event. -/
def ScheduleTiming.toJson : ScheduleTiming → Json
  | .at time => variant "At" time.toJson
  | .repeat timespec => variant "Repeat" timespec.toJson

/-- The document for the condition of a statement. -/
def GuardCondition.toJson : GuardCondition → Json
  | .onFinal => .string "OnFinal"
  | .if test => variant "If" test.toJson

/-- The document for an expression that may be missing. -/
def optionalExprToJson : Option Expr → Json
  | none => .null
  | some value => value.toJson

/-- The documents for some expressions. -/
def exprsToJson : List Expr → List Json
  | [] => []
  | item :: others => item.toJson :: exprsToJson others

/-- The documents for some pairs of a map. -/
def mapPairsToJson : List MapPair → List Json
  | [] => []
  | item :: others => item.toJson :: mapPairsToJson others

/-- The documents for some arguments. -/
def argumentsToJson : List Argument → List Json
  | [] => []
  | item :: others => item.toJson :: argumentsToJson others

/-- The documents for some parameters. -/
def parametersToJson : List Parameter → List Json
  | [] => []
  | item :: others => item.toJson :: parametersToJson others

/-- The documents for some statements. -/
def stmtsToJson : List Stmt → List Json
  | [] => []
  | item :: others => item.toJson :: stmtsToJson others

/-- The documents for some actions. -/
def actionsToJson : List Action → List Json
  | [] => []
  | item :: others => item.toJson :: actionsToJson others

end

/-- The document for a test on an attribute. -/
def AttributeMatch.toJson (test : AttributeMatch) : Json :=
  .object [("key", test.key.toJson), ("value", test.value.toJson), ("span", test.span.toJson)]

/-- The document for an aggregator. -/
def EventAggregator.toJson (aggregator : EventAggregator) : Json :=
  .object [("op", .string aggregator.op.name),
    ("args", ofList Identifier.toJson aggregator.names), ("span", aggregator.span.toJson)]

/-- The document for a single event. -/
def EventExpression.toJson (event : EventExpression) : Json :=
  .object [("event_domain", event.eventDomain.toJson), ("event_type", event.eventType.toJson),
    ("event_attrs", ofList AttributeMatch.toJson event.attributes),
    ("where_clause", ofOption Expr.toJson event.whereClause),
    ("setting", ofList Identifier.toJson event.setting),
    ("aggregator", ofOption EventAggregator.toJson event.aggregator)]

mutual

/-- The document for an event expression. -/
def Event.toJson : Event → Json
  | ⟨kind, span⟩ => .object [("node", kind.toJson), ("span", span.toJson)]

/-- The document for what an event expression is. -/
def EventKind.toJson : EventKind → Json
  | .expression value => variant "Expression" value.toJson
  | .operator op operands =>
      variant "Operator"
        (.object [("op", .string op.name), ("args", .array (eventsToJson operands))])
  | .any count operands =>
      variant "Any" (.object [("count", count.toJson), ("args", .array (eventsToJson operands))])
  | .group op times event =>
      variant "Group"
        (.object [("op", .string op.name), ("n", times.toJson), ("event", event.toJson)])

/-- The documents for some event expressions. -/
def eventsToJson : List Event → List Json
  | [] => []
  | item :: others => item.toJson :: eventsToJson others

end

/-- The document for the period that events must fall in. -/
def EventWithin.toJson (within : EventWithin) : Json :=
  .object [("expression", within.value.toJson), ("time_period", .string within.timePeriod),
    ("span", within.span.toJson)]

/-- The document for the events a rule waits for. -/
def RuleSelect.toJson (select : RuleSelect) : Json :=
  .object [("event", select.event.toJson), ("within", ofOption EventWithin.toJson select.within),
    ("span", select.span.toJson)]

/-- The document for a loop. -/
def RuleForEach.toJson (loop : RuleForEach) : Json :=
  .object [("expression", loop.value.toJson), ("setting", ofList Identifier.toJson loop.setting),
    ("span", loop.span.toJson)]

/-- The document for a postlude. -/
def RulePostlude.toJson (postlude : RulePostlude) : Json :=
  .object [("fired", ofOption (ofList Stmt.toJson) postlude.fired),
    ("notfired", ofOption (ofList Stmt.toJson) postlude.notFired),
    ("always", ofOption (ofList Stmt.toJson) postlude.always), ("span", postlude.span.toJson)]

/-- The document for a rule. -/
def Rule.toJson (rule : Rule) : Json :=
  .object [("name", rule.name.toJson), ("rule_state", .string rule.state.name),
    ("select", ofOption RuleSelect.toJson rule.select),
    ("foreach", ofList RuleForEach.toJson rule.loops),
    ("prelude", ofList Stmt.toJson rule.prelude),
    ("action_block", ofOption ActionBlock.toJson rule.actionBlock),
    ("postlude", ofOption RulePostlude.toJson rule.postlude), ("span", rule.span.toJson)]

/-- The document for the value of a property. -/
def MetaValue.toJson : MetaValue → Json
  | .expr value => variant "Expr" value.toJson
  | .key name value => variant "Key" (.object [("name", name.toJson), ("value", value.toJson)])
  | .use kind rid version localName bindings =>
      variant "Use"
        (.object [("kind", kind.toJson), ("rid", rid.toJson),
          ("version", ofOption Expr.toJson version), ("alias", ofOption Identifier.toJson localName),
          ("with", ofOption (ofList Stmt.toJson) bindings)])
  | .errors rid version =>
      variant "Errors"
        (.object [("rid", rid.toJson), ("version", ofOption Expr.toJson version)])
  | .provides operator names rulesets =>
      variant "Provides"
        (.object [("operator", ofOption Keyword.toJson operator),
          ("ids", ofList Identifier.toJson names), ("rulesets", ofList RulesetId.toJson rulesets)])
  | .shares names => variant "Shares" (.object [("ids", ofList Identifier.toJson names)])
  | .configure declarations =>
      variant "Configure" (.object [("declarations", ofList Stmt.toJson declarations)])

/-- The document for a property. -/
def MetaProperty.toJson (property : MetaProperty) : Json :=
  .object [("key", property.key.toJson), ("value", property.value.toJson),
    ("span", property.span.toJson)]

/-- The document for the properties of a ruleset. -/
def RulesetMeta.toJson (block : RulesetMeta) : Json :=
  .object [("properties", ofList MetaProperty.toJson block.properties),
    ("span", block.span.toJson)]

/-- The document for a ruleset. -/
def Ruleset.toJson (ruleset : Ruleset) : Json :=
  .object [("rid", ruleset.rid.toJson), ("meta", ofOption RulesetMeta.toJson ruleset.properties),
    ("global", ofList Stmt.toJson ruleset.globals), ("rules", ofList Rule.toJson ruleset.rules),
    ("span", ruleset.span.toJson)]

/-- The document for a program. -/
def Program.toJson : Program → Json
  | .ruleset value => variant "Ruleset" value.toJson
  | .statements items => variant "Statements" (ofList Stmt.toJson items)

/-- The document for a location. -/
def Location.toJson (location : Location) : Json :=
  .object [("filename", ofOption .string location.filename), ("line", ofNat location.line),
    ("col", ofNat location.column), ("excerpt", .string location.excerpt)]

/-- The document for options. -/
def ParseOptions.toJson (options : ParseOptions) : Json :=
  .object [("filename", ofOption .string options.filename)]

end Krl

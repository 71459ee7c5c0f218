import Krl.Proofs.Syntax.Lists
import Krl.Syntax.Ruleset

/-!
# Trees with other places

The offsets in the spans of a tree can be replaced, while everything else about the tree
stays. Replacing every offset by the number of tokens before it, for instance, leaves
just what a tree tells of the tokens of its source, and adding a number to every offset
gives the tree of a source that begins further behind in a larger one.
-/

namespace Krl

/-- The span with other offsets. -/
def Span.placed (place : Nat → Nat) (span : Span) : Span :=
  ⟨place span.start, place span.stop⟩

/-- The name with other offsets. -/
def Identifier.placed (place : Nat → Nat) (name : Identifier) : Identifier :=
  ⟨name.value, name.span.placed place⟩

/-- The keyword with other offsets. -/
def Keyword.placed (place : Nat → Nat) (keyword : Keyword) : Keyword :=
  ⟨keyword.value, keyword.span.placed place⟩

/-- The identifier of a ruleset with other offsets. -/
def RulesetId.placed (place : Nat → Nat) (rid : RulesetId) : RulesetId :=
  ⟨rid.value, rid.span.placed place⟩

section Expressions

variable (place : Nat → Nat)

mutual

/-- The expression with other offsets. -/
def Expr.placed : Expr → Expr
  | ⟨kind, span⟩ => ⟨kind.placed, span.placed place⟩

def ExprKind.placed : ExprKind → ExprKind
  | .identifier name => .identifier name
  | .domainIdentifier domain name => .domainIdentifier domain name
  | .string value => .string value
  | .number value => .number value
  | .boolean value => .boolean value
  | .regexp pattern flags => .regexp pattern flags
  | .chevron parts => .chevron (exprsPlaced parts)
  | .array items => .array (exprsPlaced items)
  | .map pairs => .map (mapPairsPlaced pairs)
  | .unary op operand => .unary op operand.placed
  | .binary op left right => .binary op left.placed right.placed
  | .conditional test consequent alternate =>
      .conditional test.placed consequent.placed alternate.placed
  | .member object property method => .member object.placed property.placed method
  | .application callee arguments => .application callee.placed arguments.placed
  | .function parameters body => .function parameters.placed (stmtsPlaced body)

def MapPair.placed : MapPair → MapPair
  | ⟨key, value, span⟩ => ⟨key.placed, value.placed, span.placed place⟩

def Arguments.placed : Arguments → Arguments
  | ⟨items, span⟩ => ⟨argumentsPlaced items, span.placed place⟩

def Argument.placed : Argument → Argument
  | .positional value => .positional value.placed
  | .named argument => .named argument.placed

def NamedArgument.placed : NamedArgument → NamedArgument
  | ⟨name, value, span⟩ => ⟨name.placed place, value.placed, span.placed place⟩

def Parameters.placed : Parameters → Parameters
  | ⟨items, span⟩ => ⟨parametersPlaced items, span.placed place⟩

def Parameter.placed : Parameter → Parameter
  | ⟨name, default, span⟩ => ⟨name.placed place, optionalExprPlaced default, span.placed place⟩

/-- The statement with other offsets. -/
def Stmt.placed : Stmt → Stmt
  | ⟨kind, span⟩ => ⟨kind.placed, span.placed place⟩

def StmtKind.placed : StmtKind → StmtKind
  | .expression value => .expression value.placed
  | .declaration left right => .declaration left.placed right.placed
  | .defaction definition => .defaction definition.placed
  | .persistent left path right =>
      .persistent left.placed (optionalExprPlaced path) right.placed
  | .clear name => .clear name.placed
  | .raise eventDomain eventType forRid attributes =>
      .raise (eventDomain.placed place) eventType.placed (optionalExprPlaced forRid)
        (optionalExprPlaced attributes)
  | .schedule timing eventDomain eventType attributes setting =>
      .schedule timing.placed (eventDomain.placed place) eventType.placed
        (optionalExprPlaced attributes) (setting.map (Identifier.placed place))
  | .log level value => .log level value.placed
  | .error level value => .error level value.placed
  | .guarded condition statement => .guarded condition.placed statement.placed
  | .last => .last

def DefAction.placed : DefAction → DefAction
  | ⟨name, parameters, body, actionBlock, returns⟩ =>
      ⟨name.placed place, parameters.placed, stmtsPlaced body, actionBlock.placed,
        exprsPlaced returns⟩

/-- The block of actions with other offsets. -/
def ActionBlock.placed : ActionBlock → ActionBlock
  | ⟨condition, blockType, discriminant, actions, span⟩ =>
      ⟨optionalExprPlaced condition, blockType, optionalExprPlaced discriminant,
        actionsPlaced actions, span.placed place⟩

def Action.placed : Action → Action
  | ⟨label, action, arguments, setting, span⟩ =>
      ⟨label.map (Identifier.placed place), action.placed, arguments.placed,
        setting.map (Identifier.placed place), span.placed place⟩

def ScheduleTiming.placed : ScheduleTiming → ScheduleTiming
  | .at time => .at time.placed
  | .repeat timespec => .repeat timespec.placed

def GuardCondition.placed : GuardCondition → GuardCondition
  | .onFinal => .onFinal
  | .if test => .if test.placed

def optionalExprPlaced : Option Expr → Option Expr
  | none => none
  | some value => some value.placed

def exprsPlaced : List Expr → List Expr
  | [] => []
  | item :: others => item.placed :: exprsPlaced others

def mapPairsPlaced : List MapPair → List MapPair
  | [] => []
  | item :: others => item.placed :: mapPairsPlaced others

def argumentsPlaced : List Argument → List Argument
  | [] => []
  | item :: others => item.placed :: argumentsPlaced others

def parametersPlaced : List Parameter → List Parameter
  | [] => []
  | item :: others => item.placed :: parametersPlaced others

def stmtsPlaced : List Stmt → List Stmt
  | [] => []
  | item :: others => item.placed :: stmtsPlaced others

def actionsPlaced : List Action → List Action
  | [] => []
  | item :: others => item.placed :: actionsPlaced others

end

end Expressions

section Lists

variable (place : Nat → Nat)

@[simp] theorem optionalExprPlaced_eq (value : Option Expr) :
    optionalExprPlaced place value = value.map (Expr.placed place) := by
  cases value <;> rfl

@[simp] theorem exprsPlaced_eq (items : List Expr) :
    exprsPlaced place items = items.map (Expr.placed place) :=
  eq_map_of_cons rfl (fun _ _ => rfl) items

@[simp] theorem mapPairsPlaced_eq (items : List MapPair) :
    mapPairsPlaced place items = items.map (MapPair.placed place) :=
  eq_map_of_cons rfl (fun _ _ => rfl) items

@[simp] theorem argumentsPlaced_eq (items : List Argument) :
    argumentsPlaced place items = items.map (Argument.placed place) :=
  eq_map_of_cons rfl (fun _ _ => rfl) items

@[simp] theorem parametersPlaced_eq (items : List Parameter) :
    parametersPlaced place items = items.map (Parameter.placed place) :=
  eq_map_of_cons rfl (fun _ _ => rfl) items

@[simp] theorem stmtsPlaced_eq (items : List Stmt) :
    stmtsPlaced place items = items.map (Stmt.placed place) :=
  eq_map_of_cons rfl (fun _ _ => rfl) items

@[simp] theorem actionsPlaced_eq (items : List Action) :
    actionsPlaced place items = items.map (Action.placed place) :=
  eq_map_of_cons rfl (fun _ _ => rfl) items

@[simp] theorem Expr.span_placed (expr : Expr) :
    (expr.placed place).span = expr.span.placed place := by
  cases expr
  rfl

end Lists

section Identity

theorem Identifier.placed_id : Identifier.placed id = id :=
  rfl

mutual

theorem Expr.placed_id : (expr : Expr) → expr.placed id = expr
  | ⟨kind, span⟩ => by rw [Expr.placed, kind.placed_id]; rfl

theorem ExprKind.placed_id : (kind : ExprKind) → kind.placed id = kind
  | .identifier _ | .domainIdentifier _ _ | .string _ | .number _ | .boolean _ | .regexp _ _ => rfl
  | .chevron parts => by rw [ExprKind.placed, exprsPlaced_id parts]
  | .array items => by rw [ExprKind.placed, exprsPlaced_id items]
  | .map pairs => by rw [ExprKind.placed, mapPairsPlaced_id pairs]
  | .unary _ operand => by rw [ExprKind.placed, operand.placed_id]
  | .binary _ left right => by rw [ExprKind.placed, left.placed_id, right.placed_id]
  | .conditional test consequent alternate => by
      rw [ExprKind.placed, test.placed_id, consequent.placed_id, alternate.placed_id]
  | .member object property _ => by rw [ExprKind.placed, object.placed_id, property.placed_id]
  | .application callee arguments => by
      rw [ExprKind.placed, callee.placed_id, arguments.placed_id]
  | .function parameters body => by
      rw [ExprKind.placed, parameters.placed_id, stmtsPlaced_id body]

theorem MapPair.placed_id : (pair : MapPair) → pair.placed id = pair
  | ⟨key, value, span⟩ => by rw [MapPair.placed, key.placed_id, value.placed_id]; rfl

theorem Arguments.placed_id : (arguments : Arguments) → arguments.placed id = arguments
  | ⟨items, span⟩ => by rw [Arguments.placed, argumentsPlaced_id items]; rfl

theorem Argument.placed_id : (argument : Argument) → argument.placed id = argument
  | .positional value => by rw [Argument.placed, value.placed_id]
  | .named argument => by rw [Argument.placed, argument.placed_id]

theorem NamedArgument.placed_id : (argument : NamedArgument) → argument.placed id = argument
  | ⟨name, value, span⟩ => by rw [NamedArgument.placed, value.placed_id]; rfl

theorem Parameters.placed_id : (parameters : Parameters) → parameters.placed id = parameters
  | ⟨items, span⟩ => by rw [Parameters.placed, parametersPlaced_id items]; rfl

theorem Parameter.placed_id : (parameter : Parameter) → parameter.placed id = parameter
  | ⟨name, default, span⟩ => by rw [Parameter.placed, optionalExprPlaced_id default]; rfl

theorem Stmt.placed_id : (statement : Stmt) → statement.placed id = statement
  | ⟨kind, span⟩ => by rw [Stmt.placed, kind.placed_id]; rfl

theorem StmtKind.placed_id : (kind : StmtKind) → kind.placed id = kind
  | .expression value => by rw [StmtKind.placed, value.placed_id]
  | .declaration left right => by rw [StmtKind.placed, left.placed_id, right.placed_id]
  | .defaction definition => by rw [StmtKind.placed, definition.placed_id]
  | .persistent left path right => by
      rw [StmtKind.placed, left.placed_id, optionalExprPlaced_id path, right.placed_id]
  | .clear name => by rw [StmtKind.placed, name.placed_id]
  | .raise eventDomain eventType forRid attributes => by
      rw [StmtKind.placed, eventType.placed_id, optionalExprPlaced_id forRid,
        optionalExprPlaced_id attributes]
      rfl
  | .schedule timing eventDomain eventType attributes setting => by
      rw [StmtKind.placed, timing.placed_id, eventType.placed_id,
        optionalExprPlaced_id attributes, Identifier.placed_id, Option.map_id]
      rfl
  | .log _ value | .error _ value => by rw [StmtKind.placed, value.placed_id]
  | .guarded condition statement => by
      rw [StmtKind.placed, condition.placed_id, statement.placed_id]
  | .last => rfl

theorem DefAction.placed_id : (definition : DefAction) → definition.placed id = definition
  | ⟨name, parameters, body, actionBlock, returns⟩ => by
      rw [DefAction.placed, parameters.placed_id, stmtsPlaced_id body, actionBlock.placed_id,
        exprsPlaced_id returns]
      rfl

theorem ActionBlock.placed_id : (block : ActionBlock) → block.placed id = block
  | ⟨condition, blockType, discriminant, actions, span⟩ => by
      rw [ActionBlock.placed, optionalExprPlaced_id condition,
        optionalExprPlaced_id discriminant, actionsPlaced_id actions]
      rfl

theorem Action.placed_id : (action : Action) → action.placed id = action
  | ⟨label, action, arguments, setting, span⟩ => by
      rw [Action.placed, action.placed_id, arguments.placed_id, Identifier.placed_id,
        Option.map_id, List.map_id]
      rfl

theorem ScheduleTiming.placed_id : (timing : ScheduleTiming) → timing.placed id = timing
  | .at time => by rw [ScheduleTiming.placed, time.placed_id]
  | .repeat timespec => by rw [ScheduleTiming.placed, timespec.placed_id]

theorem GuardCondition.placed_id : (condition : GuardCondition) → condition.placed id = condition
  | .onFinal => rfl
  | .if test => by rw [GuardCondition.placed, test.placed_id]

theorem optionalExprPlaced_id : (value : Option Expr) → optionalExprPlaced id value = value
  | none => rfl
  | some value => by rw [optionalExprPlaced, value.placed_id]

theorem exprsPlaced_id : (items : List Expr) → exprsPlaced id items = items
  | [] => rfl
  | item :: others => by rw [exprsPlaced, item.placed_id, exprsPlaced_id others]

theorem mapPairsPlaced_id : (items : List MapPair) → mapPairsPlaced id items = items
  | [] => rfl
  | item :: others => by rw [mapPairsPlaced, item.placed_id, mapPairsPlaced_id others]

theorem argumentsPlaced_id : (items : List Argument) → argumentsPlaced id items = items
  | [] => rfl
  | item :: others => by rw [argumentsPlaced, item.placed_id, argumentsPlaced_id others]

theorem parametersPlaced_id : (items : List Parameter) → parametersPlaced id items = items
  | [] => rfl
  | item :: others => by rw [parametersPlaced, item.placed_id, parametersPlaced_id others]

theorem stmtsPlaced_id : (items : List Stmt) → stmtsPlaced id items = items
  | [] => rfl
  | item :: others => by rw [stmtsPlaced, item.placed_id, stmtsPlaced_id others]

theorem actionsPlaced_id : (items : List Action) → actionsPlaced id items = items
  | [] => rfl
  | item :: others => by rw [actionsPlaced, item.placed_id, actionsPlaced_id others]

end

end Identity

section Events

variable (place : Nat → Nat)

def AttributeMatch.placed (test : AttributeMatch) : AttributeMatch :=
  ⟨test.key.placed place, test.value.placed place, test.span.placed place⟩

def EventAggregator.placed (aggregator : EventAggregator) : EventAggregator :=
  ⟨aggregator.op, aggregator.names.map (Identifier.placed place), aggregator.span.placed place⟩

def EventExpression.placed (event : EventExpression) : EventExpression where
  eventDomain := event.eventDomain.placed place
  eventType := event.eventType.placed place
  attributes := event.attributes.map (AttributeMatch.placed place)
  whereClause := event.whereClause.map (Expr.placed place)
  setting := event.setting.map (Identifier.placed place)
  aggregator := event.aggregator.map (EventAggregator.placed place)

mutual

/-- The event expression with other offsets. -/
def Event.placed : Event → Event
  | ⟨kind, span⟩ => ⟨kind.placed, span.placed place⟩

def EventKind.placed : EventKind → EventKind
  | .expression value => .expression (value.placed place)
  | .operator op operands => .operator op (eventsPlaced operands)
  | .any count operands => .any (count.placed place) (eventsPlaced operands)
  | .group op times event => .group op (times.placed place) event.placed

def eventsPlaced : List Event → List Event
  | [] => []
  | item :: others => item.placed :: eventsPlaced others

end

@[simp] theorem eventsPlaced_eq (items : List Event) :
    eventsPlaced place items = items.map (Event.placed place) :=
  eq_map_of_cons rfl (fun _ _ => rfl) items

end Events

section Rulesets

variable (place : Nat → Nat)

def MetaValue.placed : MetaValue → MetaValue
  | .expr value => .expr (value.placed place)
  | .key name value => .key (name.placed place) (value.placed place)
  | .use kind rid version localName bindings =>
      .use (kind.placed place) (rid.placed place) (version.map (Expr.placed place))
        (localName.map (Identifier.placed place)) (bindings.map (List.map (Stmt.placed place)))
  | .errors rid version => .errors (rid.placed place) (version.map (Expr.placed place))
  | .provides operator names rulesets =>
      .provides (operator.map (Keyword.placed place)) (names.map (Identifier.placed place))
        (rulesets.map (RulesetId.placed place))
  | .shares names => .shares (names.map (Identifier.placed place))
  | .configure declarations => .configure (declarations.map (Stmt.placed place))

def MetaProperty.placed (property : MetaProperty) : MetaProperty :=
  ⟨property.key.placed place, property.value.placed place, property.span.placed place⟩

def RulesetMeta.placed (block : RulesetMeta) : RulesetMeta :=
  ⟨block.properties.map (MetaProperty.placed place), block.span.placed place⟩

def EventWithin.placed (within : EventWithin) : EventWithin :=
  ⟨within.value.placed place, within.timePeriod, within.span.placed place⟩

def RuleSelect.placed (select : RuleSelect) : RuleSelect :=
  ⟨select.event.placed place, select.within.map (EventWithin.placed place),
    select.span.placed place⟩

def RuleForEach.placed (loop : RuleForEach) : RuleForEach :=
  ⟨loop.value.placed place, loop.setting.map (Identifier.placed place), loop.span.placed place⟩

def RulePostlude.placed (postlude : RulePostlude) : RulePostlude :=
  ⟨postlude.fired.map (List.map (Stmt.placed place)),
    postlude.notFired.map (List.map (Stmt.placed place)),
    postlude.always.map (List.map (Stmt.placed place)), postlude.span.placed place⟩

def Rule.placed (rule : Rule) : Rule where
  name := rule.name.placed place
  state := rule.state
  select := rule.select.map (RuleSelect.placed place)
  loops := rule.loops.map (RuleForEach.placed place)
  prelude := rule.prelude.map (Stmt.placed place)
  actionBlock := rule.actionBlock.map (ActionBlock.placed place)
  postlude := rule.postlude.map (RulePostlude.placed place)
  span := rule.span.placed place

def Ruleset.placed (ruleset : Ruleset) : Ruleset where
  rid := ruleset.rid.placed place
  properties := ruleset.properties.map (RulesetMeta.placed place)
  globals := ruleset.globals.map (Stmt.placed place)
  rules := ruleset.rules.map (Rule.placed place)
  span := ruleset.span.placed place

/-- The program with other offsets. -/
def Program.placed : Program → Program
  | .ruleset value => .ruleset (value.placed place)
  | .statements items => .statements (items.map (Stmt.placed place))

end Rulesets

end Krl

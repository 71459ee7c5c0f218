import Krl.Error
import Krl.Proofs.Syntax.Lists
import Krl.Syntax.Ruleset
import Krl.Word

/-!
# Trees that can be stored

A tree, or a location, can be stored if all of its numbers are finite and all of its
offsets and counts are words. Texts can be stored whatever they are.
-/

namespace Krl

def Span.Storable (span : Span) : Prop :=
  span.start < wordLimit ∧ span.stop < wordLimit

def Identifier.Storable (name : Identifier) : Prop :=
  name.span.Storable

def Keyword.Storable (keyword : Keyword) : Prop :=
  keyword.span.Storable

def RulesetId.Storable (rid : RulesetId) : Prop :=
  rid.span.Storable

mutual

/-- All numbers in the expression are finite, and all offsets are words. -/
def Expr.Storable : Expr → Prop
  | ⟨kind, span⟩ => kind.Storable ∧ span.Storable

def ExprKind.Storable : ExprKind → Prop
  | .identifier _ | .domainIdentifier _ _ | .string _ | .boolean _ | .regexp _ _ => True
  | .number value => value.isFinite
  | .chevron parts => ExprsStorable parts
  | .array items => ExprsStorable items
  | .map pairs => MapPairsStorable pairs
  | .unary _ operand => operand.Storable
  | .binary _ left right => left.Storable ∧ right.Storable
  | .conditional test consequent alternate =>
      test.Storable ∧ consequent.Storable ∧ alternate.Storable
  | .member object property _ => object.Storable ∧ property.Storable
  | .application callee arguments => callee.Storable ∧ arguments.Storable
  | .function parameters body => parameters.Storable ∧ StmtsStorable body

def MapPair.Storable : MapPair → Prop
  | ⟨key, value, span⟩ => key.Storable ∧ value.Storable ∧ span.Storable

def Arguments.Storable : Arguments → Prop
  | ⟨items, span⟩ => ArgumentsStorable items ∧ span.Storable

def Argument.Storable : Argument → Prop
  | .positional value => value.Storable
  | .named argument => argument.Storable

def NamedArgument.Storable : NamedArgument → Prop
  | ⟨name, value, span⟩ => name.Storable ∧ value.Storable ∧ span.Storable

def Parameters.Storable : Parameters → Prop
  | ⟨items, span⟩ => ParametersStorable items ∧ span.Storable

def Parameter.Storable : Parameter → Prop
  | ⟨name, default, span⟩ => name.Storable ∧ OptionalExprStorable default ∧ span.Storable

/-- All numbers in the statement are finite, and all offsets are words. -/
def Stmt.Storable : Stmt → Prop
  | ⟨kind, span⟩ => kind.Storable ∧ span.Storable

def StmtKind.Storable : StmtKind → Prop
  | .expression value => value.Storable
  | .declaration left right => left.Storable ∧ right.Storable
  | .defaction definition => definition.Storable
  | .persistent left path right => left.Storable ∧ OptionalExprStorable path ∧ right.Storable
  | .clear name => name.Storable
  | .raise eventDomain eventType forRid attributes =>
      eventDomain.Storable ∧ eventType.Storable ∧ OptionalExprStorable forRid ∧
        OptionalExprStorable attributes
  | .schedule timing eventDomain eventType attributes setting =>
      timing.Storable ∧ eventDomain.Storable ∧ eventType.Storable ∧
        OptionalExprStorable attributes ∧ ∀ name ∈ setting, name.Storable
  | .log _ value | .error _ value => value.Storable
  | .guarded condition statement => condition.Storable ∧ statement.Storable
  | .last => True

def DefAction.Storable : DefAction → Prop
  | ⟨name, parameters, body, actionBlock, returns⟩ =>
      name.Storable ∧ parameters.Storable ∧ StmtsStorable body ∧ actionBlock.Storable ∧
        ExprsStorable returns

def ActionBlock.Storable : ActionBlock → Prop
  | ⟨condition, _, discriminant, actions, span⟩ =>
      OptionalExprStorable condition ∧ OptionalExprStorable discriminant ∧
        ActionsStorable actions ∧ span.Storable

def Action.Storable : Action → Prop
  | ⟨label, action, arguments, setting, span⟩ =>
      (∀ name ∈ label, name.Storable) ∧ action.Storable ∧ arguments.Storable ∧
        (∀ name ∈ setting, name.Storable) ∧ span.Storable

def ScheduleTiming.Storable : ScheduleTiming → Prop
  | .at time => time.Storable
  | .repeat timespec => timespec.Storable

def GuardCondition.Storable : GuardCondition → Prop
  | .onFinal => True
  | .if test => test.Storable

def OptionalExprStorable : Option Expr → Prop
  | none => True
  | some value => value.Storable

def ExprsStorable : List Expr → Prop
  | [] => True
  | item :: others => item.Storable ∧ ExprsStorable others

def MapPairsStorable : List MapPair → Prop
  | [] => True
  | item :: others => item.Storable ∧ MapPairsStorable others

def ArgumentsStorable : List Argument → Prop
  | [] => True
  | item :: others => item.Storable ∧ ArgumentsStorable others

def ParametersStorable : List Parameter → Prop
  | [] => True
  | item :: others => item.Storable ∧ ParametersStorable others

def StmtsStorable : List Stmt → Prop
  | [] => True
  | item :: others => item.Storable ∧ StmtsStorable others

def ActionsStorable : List Action → Prop
  | [] => True
  | item :: others => item.Storable ∧ ActionsStorable others

end

section Lists

@[simp] theorem optionalExprStorable_iff {value : Option Expr} :
    OptionalExprStorable value ↔ ∀ item ∈ value, item.Storable := by
  cases value <;> simp [OptionalExprStorable]

@[simp] theorem exprsStorable_iff {items : List Expr} :
    ExprsStorable items ↔ ∀ item ∈ items, item.Storable :=
  iff_forall_mem_of_cons trivial fun _ _ => .rfl

@[simp] theorem mapPairsStorable_iff {items : List MapPair} :
    MapPairsStorable items ↔ ∀ item ∈ items, item.Storable :=
  iff_forall_mem_of_cons trivial fun _ _ => .rfl

@[simp] theorem argumentsStorable_iff {items : List Argument} :
    ArgumentsStorable items ↔ ∀ item ∈ items, item.Storable :=
  iff_forall_mem_of_cons trivial fun _ _ => .rfl

@[simp] theorem parametersStorable_iff {items : List Parameter} :
    ParametersStorable items ↔ ∀ item ∈ items, item.Storable :=
  iff_forall_mem_of_cons trivial fun _ _ => .rfl

@[simp] theorem stmtsStorable_iff {items : List Stmt} :
    StmtsStorable items ↔ ∀ item ∈ items, item.Storable :=
  iff_forall_mem_of_cons trivial fun _ _ => .rfl

@[simp] theorem actionsStorable_iff {items : List Action} :
    ActionsStorable items ↔ ∀ item ∈ items, item.Storable :=
  iff_forall_mem_of_cons trivial fun _ _ => .rfl

end Lists

section Events

def AttributeMatch.Storable : AttributeMatch → Prop
  | ⟨key, value, span⟩ => key.Storable ∧ value.Storable ∧ span.Storable

def EventAggregator.Storable : EventAggregator → Prop
  | ⟨_, names, span⟩ => (∀ name ∈ names, name.Storable) ∧ span.Storable

def EventExpression.Storable : EventExpression → Prop
  | ⟨eventDomain, eventType, attributes, whereClause, setting, aggregator⟩ =>
      eventDomain.Storable ∧ eventType.Storable ∧ (∀ test ∈ attributes, test.Storable) ∧
        (∀ test ∈ whereClause, test.Storable) ∧ (∀ name ∈ setting, name.Storable) ∧
        ∀ group ∈ aggregator, group.Storable

mutual

/-- All numbers in the event expression are finite, and all offsets are words. -/
def Event.Storable : Event → Prop
  | ⟨kind, span⟩ => kind.Storable ∧ span.Storable

def EventKind.Storable : EventKind → Prop
  | .expression value => value.Storable
  | .operator _ operands => EventsStorable operands
  | .any count operands => count.Storable ∧ EventsStorable operands
  | .group _ times event => times.Storable ∧ event.Storable

def EventsStorable : List Event → Prop
  | [] => True
  | item :: others => item.Storable ∧ EventsStorable others

end

@[simp] theorem eventsStorable_iff {items : List Event} :
    EventsStorable items ↔ ∀ item ∈ items, item.Storable :=
  iff_forall_mem_of_cons trivial fun _ _ => .rfl

end Events

section Rulesets

def EventWithin.Storable : EventWithin → Prop
  | ⟨value, _, span⟩ => value.Storable ∧ span.Storable

def RuleSelect.Storable : RuleSelect → Prop
  | ⟨event, within, span⟩ =>
      event.Storable ∧ (∀ limit ∈ within, limit.Storable) ∧ span.Storable

def RuleForEach.Storable : RuleForEach → Prop
  | ⟨value, setting, span⟩ =>
      value.Storable ∧ (∀ name ∈ setting, name.Storable) ∧ span.Storable

def RulePostlude.Storable : RulePostlude → Prop
  | ⟨fired, notFired, always, span⟩ =>
      (∀ items ∈ fired, ∀ item ∈ items, item.Storable) ∧
        (∀ items ∈ notFired, ∀ item ∈ items, item.Storable) ∧
        (∀ items ∈ always, ∀ item ∈ items, item.Storable) ∧ span.Storable

/-- All numbers in the rule are finite, and all offsets are words. -/
def Rule.Storable : Rule → Prop
  | ⟨name, _, select, loops, prelude, actionBlock, postlude, span⟩ =>
      name.Storable ∧ (∀ condition ∈ select, condition.Storable) ∧
        (∀ loop ∈ loops, loop.Storable) ∧ (∀ item ∈ prelude, item.Storable) ∧
        (∀ block ∈ actionBlock, block.Storable) ∧ (∀ branches ∈ postlude, branches.Storable) ∧
        span.Storable

def MetaValue.Storable : MetaValue → Prop
  | .expr value => value.Storable
  | .key name value => name.Storable ∧ value.Storable
  | .use kind rid version localName bindings =>
      kind.Storable ∧ rid.Storable ∧ (∀ value ∈ version, value.Storable) ∧
        (∀ name ∈ localName, name.Storable) ∧ ∀ items ∈ bindings, ∀ item ∈ items, item.Storable
  | .errors rid version => rid.Storable ∧ ∀ value ∈ version, value.Storable
  | .provides operator names rulesets =>
      (∀ keyword ∈ operator, keyword.Storable) ∧ (∀ name ∈ names, name.Storable) ∧
        ∀ rid ∈ rulesets, rid.Storable
  | .shares names => ∀ name ∈ names, name.Storable
  | .configure declarations => ∀ item ∈ declarations, item.Storable

/-- All numbers in the property are finite, and all offsets are words. -/
def MetaProperty.Storable : MetaProperty → Prop
  | ⟨key, value, span⟩ => key.Storable ∧ value.Storable ∧ span.Storable

def RulesetMeta.Storable : RulesetMeta → Prop
  | ⟨properties, span⟩ => (∀ property ∈ properties, property.Storable) ∧ span.Storable

def Ruleset.Storable : Ruleset → Prop
  | ⟨rid, properties, globals, rules, span⟩ =>
      rid.Storable ∧ (∀ block ∈ properties, block.Storable) ∧
        (∀ item ∈ globals, item.Storable) ∧ (∀ rule ∈ rules, rule.Storable) ∧ span.Storable

/-- All numbers in the program are finite, and all offsets are words. -/
def Program.Storable : Program → Prop
  | .ruleset value => value.Storable
  | .statements items => ∀ item ∈ items, item.Storable

end Rulesets

/-- The line and the column are words. -/
def Location.Storable (location : Location) : Prop :=
  location.line < wordLimit ∧ location.column < wordLimit

end Krl

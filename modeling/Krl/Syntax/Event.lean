import Krl.Syntax.Expression

/-!
# Event expressions

What a rule waits for: a single event, a combination of events, or a group of
events that must occur a number of times.
-/

namespace Krl

/-- `name re#pattern#` -/
structure AttributeMatch where
  key : Identifier
  value : Expr
  span : Span

/-- `max(names)` after a group of events -/
structure EventAggregator where
  op : AggregateOp
  names : List Identifier
  span : Span

/-- `domain type name re#pattern# where test setting(names)` -/
structure EventExpression where
  eventDomain : Identifier
  eventType : Identifier
  attributes : List AttributeMatch
  whereClause : Option Expr
  setting : List Identifier
  /-- Belongs to the group around the event, whose end is then the end of the
  event too. -/
  aggregator : Option EventAggregator

mutual

/-- An event expression and the bytes it was read from. -/
structure Event where
  kind : EventKind
  span : Span

inductive EventKind where
  | expression (value : EventExpression)
  /-- A combination, with its operands in source order. -/
  | operator (op : EventOp) (operands : List Event)
  /-- `any count (events)` -/
  | any (count : Expr) (operands : List Event)
  /-- `count n (event)` or `repeat n (event)` -/
  | group (op : GroupOp) (times : Expr) (event : Event)

end

end Krl

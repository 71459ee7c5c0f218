import Krl.Fragment.Reducing

/-!
# Reducers of event expressions
-/

namespace Krl.Reducers

open Fragment (into intoIdentifier)
open Reducing

/-- An operator between two events. -/
def eventInfix : Reducer := fun span => do
  let op ← known "event operator" EventOp.ofWord? (← word 1)
  return .piece .event ⟨.operator op [← piece .event 0, ← piece .event 2], span⟩

/-- An event between two others. -/
def eventBetween : Reducer := fun span =>
  return .piece .event
    ⟨.operator .between [← piece .event 0, ← piece .event 3, ← piece .event 5], span⟩

/-- An event that is not between two others. -/
def eventNotBetween : Reducer := fun span =>
  return .piece .event
    ⟨.operator .notBetween [← piece .event 0, ← piece .event 4, ← piece .event 6], span⟩

/-- An operator before a list of events. -/
def eventPrefix : Reducer := fun span => do
  let op ← known "event operator" EventOp.ofWord? (← word 0)
  return .piece .event ⟨.operator op (← items 2 (into .event)), span⟩

/-- Any of several events, a number of them. -/
def eventAny : Reducer := fun span => do
  let leaf ← piece .token 1
  return .piece .event ⟨.any (← ofExcept leaf.number) (← items 3 (into .event)), span⟩

/-- A single event. -/
def eventExpression : Reducer := fun span =>
  return .piece .event
    ⟨.expression
      ⟨← identifier 0, ← identifier 1, ← items 2 (into .attributeMatch),
        ← option 3 (into .expression), ← items 4 intoIdentifier, none⟩,
      span⟩

/-- An attribute with the expression it must match. -/
def attributeMatch : Reducer := fun span => do
  let key ← identifier 0
  let leaf ← piece .token 1
  return .piece .attributeMatch ⟨key, ← ofExcept leaf.regexp, span⟩

/-- An event with an aggregator, which it then reaches up to. It must be a single event. -/
def aggregated (event : Event) : Option EventAggregator → Reducing Event
  | none => return event
  | some aggregator =>
      match event.kind with
      | .expression value =>
          return ⟨.expression { value with aggregator := some aggregator },
            event.span.merge aggregator.span⟩
      | _ => throw (.internal "aggregator on a non-base event")

/-- A group of events. -/
def eventGroup : Reducer := fun span => do
  let op := if (← word 0) == "count" then GroupOp.count else GroupOp.repeat
  let leaf ← piece .token 1
  let times ← ofExcept leaf.number
  let event ← piece .event 3
  let inner ← aggregated event (← option 5 (into .aggregator))
  return .piece .event ⟨.group op times inner, span⟩

/-- An aggregator. -/
def aggregator : Reducer := fun span => do
  let op ← known "aggregator" AggregateOp.ofWord? (← word 0)
  return .piece .aggregator ⟨op, ← items 2 intoIdentifier, span⟩

/-- The reducers of `Productions.eventOperators`. -/
def eventOperators : List Reducer :=
  [eventInfix, pass 0, eventInfix, pass 0] ++ List.replicate 3 eventInfix ++
    [pass 0, eventBetween, eventNotBetween, pass 0]

/-- The reducers of `Productions.eventOperands`. -/
def eventOperands : List Reducer :=
  [pass 0, pass 1, pass 0] ++ List.replicate 5 eventPrefix ++ [eventAny, listPair, listPush 2]

/-- The reducers of `Productions.baseEvents`. -/
def baseEvents : List Reducer :=
  [eventExpression, listEmpty, listPush 1, attributeMatch, nothing, pass 1]

/-- The reducers of `Productions.eventGroups`. -/
def eventGroups : List Reducer :=
  List.replicate 2 eventGroup ++ [nothing, pass 0] ++ List.replicate 5 aggregator

/-- The reducers of `Productions.eventRules`. -/
def eventRules : List Reducer :=
  eventOperators ++ eventOperands ++ baseEvents ++ eventGroups

end Krl.Reducers

import Krl.Proofs.Syntax.Places

/-!
# The expressions in a tree

All expressions that a tree holds, at any depth. Two kinds of nodes are no expressions of
the source although they are built like expressions: the name that a binding of `with`
binds, and the Boolean that stands for the switch of a `logging` property. They are left out.
-/

namespace Krl

mutual

/-- The expression itself and all expressions in it. -/
@[simp] def Expr.nodes : Expr → List Expr
  | ⟨kind, span⟩ => ⟨kind, span⟩ :: kind.nodes

@[simp] def ExprKind.nodes : ExprKind → List Expr
  | .identifier _ | .domainIdentifier _ _ | .string _ | .number _ | .boolean _ | .regexp _ _ => []
  | .chevron parts => exprsNodes parts
  | .array items => exprsNodes items
  | .map pairs => mapPairsNodes pairs
  | .unary _ operand => operand.nodes
  | .binary _ left right => left.nodes ++ right.nodes
  | .conditional test consequent alternate =>
      test.nodes ++ consequent.nodes ++ alternate.nodes
  | .member object property _ => object.nodes ++ property.nodes
  | .application callee arguments => callee.nodes ++ arguments.nodes
  | .function parameters body => parameters.nodes ++ stmtsNodes body

@[simp] def MapPair.nodes : MapPair → List Expr
  | ⟨key, value, _⟩ => key.nodes ++ value.nodes

@[simp] def Arguments.nodes : Arguments → List Expr
  | ⟨items, _⟩ => argumentsNodes items

@[simp] def Argument.nodes : Argument → List Expr
  | .positional value => value.nodes
  | .named argument => argument.nodes

@[simp] def NamedArgument.nodes : NamedArgument → List Expr
  | ⟨_, value, _⟩ => value.nodes

@[simp] def Parameters.nodes : Parameters → List Expr
  | ⟨items, _⟩ => parametersNodes items

@[simp] def Parameter.nodes : Parameter → List Expr
  | ⟨_, default, _⟩ => optionalExprNodes default

/-- The expressions in a statement. -/
@[simp] def Stmt.nodes : Stmt → List Expr
  | ⟨kind, _⟩ => kind.nodes

@[simp] def StmtKind.nodes : StmtKind → List Expr
  | .expression value => value.nodes
  | .declaration left right => left.nodes ++ right.nodes
  | .defaction definition => definition.nodes
  | .persistent left path right => left.nodes ++ optionalExprNodes path ++ right.nodes
  | .clear name => name.nodes
  | .raise _ eventType forRid attributes =>
      eventType.nodes ++ optionalExprNodes forRid ++ optionalExprNodes attributes
  | .schedule timing _ eventType attributes _ =>
      timing.nodes ++ eventType.nodes ++ optionalExprNodes attributes
  | .log _ value | .error _ value => value.nodes
  | .guarded condition statement => condition.nodes ++ statement.nodes
  | .last => []

@[simp] def DefAction.nodes : DefAction → List Expr
  | ⟨_, parameters, body, actionBlock, returns⟩ =>
      parameters.nodes ++ stmtsNodes body ++ actionBlock.nodes ++ exprsNodes returns

/-- The expressions in a block of actions. -/
@[simp] def ActionBlock.nodes : ActionBlock → List Expr
  | ⟨condition, _, discriminant, actions, _⟩ =>
      optionalExprNodes condition ++ optionalExprNodes discriminant ++ actionsNodes actions

@[simp] def Action.nodes : Action → List Expr
  | ⟨_, action, arguments, _, _⟩ => action.nodes ++ arguments.nodes

@[simp] def ScheduleTiming.nodes : ScheduleTiming → List Expr
  | .at time => time.nodes
  | .repeat timespec => timespec.nodes

@[simp] def GuardCondition.nodes : GuardCondition → List Expr
  | .onFinal => []
  | .if test => test.nodes

@[simp] def optionalExprNodes : Option Expr → List Expr
  | none => []
  | some value => value.nodes

@[simp] def exprsNodes : List Expr → List Expr
  | [] => []
  | item :: others => item.nodes ++ exprsNodes others

@[simp] def mapPairsNodes : List MapPair → List Expr
  | [] => []
  | item :: others => item.nodes ++ mapPairsNodes others

@[simp] def argumentsNodes : List Argument → List Expr
  | [] => []
  | item :: others => item.nodes ++ argumentsNodes others

@[simp] def parametersNodes : List Parameter → List Expr
  | [] => []
  | item :: others => item.nodes ++ parametersNodes others

@[simp] def stmtsNodes : List Stmt → List Expr
  | [] => []
  | item :: others => item.nodes ++ stmtsNodes others

@[simp] def actionsNodes : List Action → List Expr
  | [] => []
  | item :: others => item.nodes ++ actionsNodes others

end

section Lists

@[simp] theorem optionalExprNodes_eq (value : Option Expr) :
    optionalExprNodes value = value.toList.flatMap Expr.nodes := by
  cases value <;> simp [optionalExprNodes]

@[simp] theorem exprsNodes_eq (items : List Expr) :
    exprsNodes items = items.flatMap Expr.nodes :=
  eq_flatMap_of_cons rfl (fun _ _ => rfl) items

@[simp] theorem mapPairsNodes_eq (items : List MapPair) :
    mapPairsNodes items = items.flatMap MapPair.nodes :=
  eq_flatMap_of_cons rfl (fun _ _ => rfl) items

@[simp] theorem argumentsNodes_eq (items : List Argument) :
    argumentsNodes items = items.flatMap Argument.nodes :=
  eq_flatMap_of_cons rfl (fun _ _ => rfl) items

@[simp] theorem parametersNodes_eq (items : List Parameter) :
    parametersNodes items = items.flatMap Parameter.nodes :=
  eq_flatMap_of_cons rfl (fun _ _ => rfl) items

@[simp] theorem stmtsNodes_eq (items : List Stmt) :
    stmtsNodes items = items.flatMap Stmt.nodes :=
  eq_flatMap_of_cons rfl (fun _ _ => rfl) items

@[simp] theorem actionsNodes_eq (items : List Action) :
    actionsNodes items = items.flatMap Action.nodes :=
  eq_flatMap_of_cons rfl (fun _ _ => rfl) items

end Lists

/-- The expressions in a binding of `with`, of which the name is none. -/
@[simp] def Stmt.bindingNodes : Stmt → List Expr
  | ⟨.declaration _ right, _⟩ => right.nodes
  | statement => statement.nodes

section Events

@[simp] def AttributeMatch.nodes (test : AttributeMatch) : List Expr :=
  test.value.nodes

@[simp] def EventExpression.nodes (event : EventExpression) : List Expr :=
  event.attributes.flatMap AttributeMatch.nodes ++ event.whereClause.toList.flatMap Expr.nodes

mutual

/-- The expressions in an event expression. -/
@[simp] def Event.nodes : Event → List Expr
  | ⟨kind, _⟩ => kind.nodes

@[simp] def EventKind.nodes : EventKind → List Expr
  | .expression value => value.nodes
  | .operator _ operands => eventsNodes operands
  | .any count operands => count.nodes ++ eventsNodes operands
  | .group _ times event => times.nodes ++ event.nodes

@[simp] def eventsNodes : List Event → List Expr
  | [] => []
  | item :: others => item.nodes ++ eventsNodes others

end

@[simp] theorem eventsNodes_eq (items : List Event) :
    eventsNodes items = items.flatMap Event.nodes :=
  eq_flatMap_of_cons rfl (fun _ _ => rfl) items

end Events

section Rulesets

@[simp] def MetaValue.nodes : MetaValue → List Expr
  | .expr value | .key _ value => value.nodes
  | .use _ _ version _ bindings =>
      version.toList.flatMap Expr.nodes ++ (bindings.getD []).flatMap Stmt.bindingNodes
  | .errors _ version => version.toList.flatMap Expr.nodes
  | .provides _ _ _ | .shares _ => []
  | .configure declarations => declarations.flatMap Stmt.nodes

/-- The expressions in a property. The value of a switch is none. -/
@[simp] def MetaProperty.nodes (property : MetaProperty) : List Expr :=
  if property.key.value = "logging" then [] else property.value.nodes

@[simp] def RulesetMeta.nodes (block : RulesetMeta) : List Expr :=
  block.properties.flatMap MetaProperty.nodes

@[simp] def EventWithin.nodes (within : EventWithin) : List Expr :=
  within.value.nodes

@[simp] def RuleSelect.nodes (select : RuleSelect) : List Expr :=
  select.event.nodes ++ select.within.toList.flatMap EventWithin.nodes

@[simp] def RuleForEach.nodes (loop : RuleForEach) : List Expr :=
  loop.value.nodes

@[simp] def RulePostlude.nodes (postlude : RulePostlude) : List Expr :=
  (postlude.fired.getD []).flatMap Stmt.nodes ++ (postlude.notFired.getD []).flatMap Stmt.nodes ++
    (postlude.always.getD []).flatMap Stmt.nodes

@[simp] def Rule.nodes (rule : Rule) : List Expr :=
  rule.select.toList.flatMap RuleSelect.nodes ++ rule.loops.flatMap RuleForEach.nodes ++
    rule.prelude.flatMap Stmt.nodes ++ rule.actionBlock.toList.flatMap ActionBlock.nodes ++
      rule.postlude.toList.flatMap RulePostlude.nodes

@[simp] def Ruleset.nodes (ruleset : Ruleset) : List Expr :=
  ruleset.properties.toList.flatMap RulesetMeta.nodes ++ ruleset.globals.flatMap Stmt.nodes ++
    ruleset.rules.flatMap Rule.nodes

/-- The expressions in a program. -/
@[simp] def Program.nodes : Program → List Expr
  | .ruleset value => value.nodes
  | .statements items => items.flatMap Stmt.nodes

end Rulesets

end Krl

import Krl.Proofs.Syntax.Lists
import Krl.Syntax.Expression

/-!
# The operands in a tree

The leaves of a tree, from left to right: names, literals, and the texts in templates. A name
that is no expression of its own, as that of a parameter, counts as the expression that it
would be.
-/

namespace Krl

mutual

/-- The leaves of an expression, in the order of its fields. -/
@[simp] def Expr.operands : Expr → List Expr
  | ⟨kind, span⟩ => kind.operands span

/-- The leaves of an expression over a span. -/
@[simp] def ExprKind.operands : ExprKind → Span → List Expr
  | .identifier name, span => [⟨.identifier name, span⟩]
  | .domainIdentifier domain name, span => [⟨.domainIdentifier domain name, span⟩]
  | .string value, span => [⟨.string value, span⟩]
  | .number value, span => [⟨.number value, span⟩]
  | .boolean value, span => [⟨.boolean value, span⟩]
  | .regexp pattern flags, span => [⟨.regexp pattern flags, span⟩]
  | .chevron parts, _ => exprsOperands parts
  | .array items, _ => exprsOperands items
  | .map pairs, _ => mapPairsOperands pairs
  | .unary _ operand, _ => operand.operands
  | .binary _ left right, _ => left.operands ++ right.operands
  | .conditional test consequent alternate, _ =>
      test.operands ++ consequent.operands ++ alternate.operands
  | .member object property _, _ => object.operands ++ property.operands
  | .application callee arguments, _ => callee.operands ++ arguments.operands
  | .function parameters body, _ => parameters.operands ++ stmtsOperands body

@[simp] def MapPair.operands : MapPair → List Expr
  | ⟨key, value, _⟩ => key.operands ++ value.operands

@[simp] def Arguments.operands : Arguments → List Expr
  | ⟨items, _⟩ => argumentsOperands items

@[simp] def Argument.operands : Argument → List Expr
  | .positional value => value.operands
  | .named argument => argument.operands

@[simp] def NamedArgument.operands : NamedArgument → List Expr
  | ⟨name, value, _⟩ => name.toExpr :: value.operands

@[simp] def Parameters.operands : Parameters → List Expr
  | ⟨items, _⟩ => parametersOperands items

@[simp] def Parameter.operands : Parameter → List Expr
  | ⟨name, default, _⟩ => name.toExpr :: optionalExprOperands default

/-- The leaves of a statement. -/
@[simp] def Stmt.operands : Stmt → List Expr
  | ⟨kind, _⟩ => kind.operands

@[simp] def StmtKind.operands : StmtKind → List Expr
  | .expression value => value.operands
  | .declaration left right => left.operands ++ right.operands
  | .defaction definition => definition.operands
  | .persistent left path right => left.operands ++ optionalExprOperands path ++ right.operands
  | .clear name => name.operands
  | .raise eventDomain eventType forRid attributes =>
      eventDomain.toExpr :: (eventType.operands ++ optionalExprOperands forRid ++
        optionalExprOperands attributes)
  | .schedule timing eventDomain eventType attributes setting =>
      timing.operands ++ eventDomain.toExpr :: (eventType.operands ++
        optionalExprOperands attributes ++ setting.toList.map Identifier.toExpr)
  | .log _ value | .error _ value => value.operands
  | .guarded condition statement => condition.operands ++ statement.operands
  | .last => []

@[simp] def DefAction.operands : DefAction → List Expr
  | ⟨name, parameters, body, actionBlock, returns⟩ =>
      name.toExpr :: (parameters.operands ++ stmtsOperands body ++ actionBlock.operands ++
        exprsOperands returns)

/-- The leaves of a block of actions. -/
@[simp] def ActionBlock.operands : ActionBlock → List Expr
  | ⟨condition, _, discriminant, actions, _⟩ =>
      optionalExprOperands condition ++ optionalExprOperands discriminant ++
        actionsOperands actions

@[simp] def Action.operands : Action → List Expr
  | ⟨label, action, arguments, setting, _⟩ =>
      label.toList.map Identifier.toExpr ++ action.operands ++ arguments.operands ++
        setting.map Identifier.toExpr

@[simp] def ScheduleTiming.operands : ScheduleTiming → List Expr
  | .at time => time.operands
  | .repeat timespec => timespec.operands

@[simp] def GuardCondition.operands : GuardCondition → List Expr
  | .onFinal => []
  | .if test => test.operands

@[simp] def optionalExprOperands : Option Expr → List Expr
  | none => []
  | some value => value.operands

@[simp] def exprsOperands : List Expr → List Expr
  | [] => []
  | item :: others => item.operands ++ exprsOperands others

@[simp] def mapPairsOperands : List MapPair → List Expr
  | [] => []
  | item :: others => item.operands ++ mapPairsOperands others

@[simp] def argumentsOperands : List Argument → List Expr
  | [] => []
  | item :: others => item.operands ++ argumentsOperands others

@[simp] def parametersOperands : List Parameter → List Expr
  | [] => []
  | item :: others => item.operands ++ parametersOperands others

@[simp] def stmtsOperands : List Stmt → List Expr
  | [] => []
  | item :: others => item.operands ++ stmtsOperands others

@[simp] def actionsOperands : List Action → List Expr
  | [] => []
  | item :: others => item.operands ++ actionsOperands others

end

section Lists

@[simp] theorem exprsOperands_eq (items : List Expr) :
    exprsOperands items = items.flatMap Expr.operands :=
  eq_flatMap_of_cons rfl (fun _ _ => rfl) items

@[simp] theorem mapPairsOperands_eq (items : List MapPair) :
    mapPairsOperands items = items.flatMap MapPair.operands :=
  eq_flatMap_of_cons rfl (fun _ _ => rfl) items

@[simp] theorem argumentsOperands_eq (items : List Argument) :
    argumentsOperands items = items.flatMap Argument.operands :=
  eq_flatMap_of_cons rfl (fun _ _ => rfl) items

@[simp] theorem parametersOperands_eq (items : List Parameter) :
    parametersOperands items = items.flatMap Parameter.operands :=
  eq_flatMap_of_cons rfl (fun _ _ => rfl) items

@[simp] theorem stmtsOperands_eq (items : List Stmt) :
    stmtsOperands items = items.flatMap Stmt.operands :=
  eq_flatMap_of_cons rfl (fun _ _ => rfl) items

end Lists

end Krl

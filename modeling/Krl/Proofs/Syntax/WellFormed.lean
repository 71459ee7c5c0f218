import Krl.Language.Vocabulary
import Krl.Proofs.Syntax.Lists

/-!
# Well-formed trees

The types of the tree admit more than the language does. Here is what more can be relied on:
which statements a place holds, which expressions stand on left sides, how many operands events
have, and which value belongs to a property.
-/

namespace Krl

/-- Where a statement stands. -/
inductive StmtPlace where
  /-- In a function, or in a source that is no ruleset. -/
  | body
  /-- In the definition of an action, in `configure`, or in `with`. -/
  | definitions
  /-- In `global`, or in the prelude of a rule. -/
  | global
  | postlude
  /-- Under a condition, in a postlude. -/
  | guarded
  deriving DecidableEq

namespace StmtPlace

/-- The place can hold a statement of the kind. -/
@[simp] def Admits : StmtPlace → StmtKind → Prop
  | .body, .expression _ | .body, .declaration _ _ | .definitions, .declaration _ _
  | .global, .declaration _ _ | .global, .defaction _ => True
  | .body, _ | .definitions, _ | .global, _ => False
  | .postlude, .defaction _ => False
  | .guarded, .defaction _ | .guarded, .guarded _ _ => False
  | .postlude, _ | .guarded, _ => True

/-- All that the one place can hold, the other can hold too. -/
def IsWithin : StmtPlace → StmtPlace → Bool
  | .definitions, _ => true
  | .body, .postlude | .body, .guarded | .guarded, .postlude => true
  | place, other => place == other

theorem Admits.mono {place other : StmtPlace} {kind : StmtKind} (admits : place.Admits kind)
    (within : place.IsWithin other = true) : other.Admits kind := by
  cases place <;> cases other <;> cases kind <;> trivial

end StmtPlace

namespace ExprKind

/-- The expression is a string. -/
@[simp] def IsString : ExprKind → Prop
  | .string _ => True
  | _ => False

/-- The expression is a string or a template. -/
@[simp] def IsText : ExprKind → Prop
  | .string _ | .chevron _ => True
  | _ => False

@[simp] def IsNumber : ExprKind → Prop
  | .number _ => True
  | _ => False

@[simp] def IsBoolean : ExprKind → Prop
  | .boolean _ => True
  | _ => False

@[simp] def IsRegexp : ExprKind → Prop
  | .regexp _ _ => True
  | _ => False

/-- The expression is a variable that outlives the run of a rule. -/
@[simp] def IsPersistent : ExprKind → Prop
  | .domainIdentifier domain _ => domain = "ent" ∨ domain = "app"
  | _ => False

end ExprKind

mutual

/-- The expression can stand on the left side of a declaration: it is a name, and member
accesses behind it. -/
@[simp] def Expr.IsLeftSide : Expr → Prop
  | ⟨kind, _⟩ => kind.IsLeftSide

@[simp] def ExprKind.IsLeftSide : ExprKind → Prop
  | .identifier _ | .domainIdentifier _ _ => True
  | .member object _ _ => object.IsLeftSide
  | _ => False

end

mutual

/-- All statements and map keys in an expression are as they should be. -/
@[simp] def Expr.WellFormed : Expr → Prop
  | ⟨kind, _⟩ => kind.WellFormed

@[simp] def ExprKind.WellFormed : ExprKind → Prop
  | .identifier _ | .domainIdentifier _ _ | .string _ | .number _ | .boolean _ | .regexp _ _ =>
      True
  | .chevron parts => ExprsWellFormed parts
  | .array items => ExprsWellFormed items
  | .map pairs => MapPairsWellFormed pairs
  | .unary _ operand => operand.WellFormed
  | .binary _ left right => left.WellFormed ∧ right.WellFormed
  | .conditional test consequent alternate =>
      test.WellFormed ∧ consequent.WellFormed ∧ alternate.WellFormed
  | .member object property _ => object.WellFormed ∧ property.WellFormed
  | .application callee arguments => callee.WellFormed ∧ arguments.WellFormed
  | .function parameters body => parameters.WellFormed ∧ StmtsWellFormed .body body

@[simp] def MapPair.WellFormed : MapPair → Prop
  | ⟨key, value, _⟩ => key.kind.IsString ∧ value.WellFormed

@[simp] def Arguments.WellFormed : Arguments → Prop
  | ⟨items, _⟩ => ArgumentsWellFormed items

@[simp] def Argument.WellFormed : Argument → Prop
  | .positional value => value.WellFormed
  | .named argument => argument.WellFormed

@[simp] def NamedArgument.WellFormed : NamedArgument → Prop
  | ⟨_, value, _⟩ => value.WellFormed

@[simp] def Parameters.WellFormed : Parameters → Prop
  | ⟨items, _⟩ => ParametersWellFormed items

@[simp] def Parameter.WellFormed : Parameter → Prop
  | ⟨_, default, _⟩ => OptionalExprWellFormed default

/-- The statement is one that the place can hold, and well formed itself. -/
def Stmt.WellFormed (place : StmtPlace) : Stmt → Prop
  | ⟨kind, _⟩ => place.Admits kind ∧ kind.WellFormed

@[simp] def StmtKind.WellFormed : StmtKind → Prop
  | .expression value => value.WellFormed
  | .declaration left right => left.IsLeftSide ∧ left.WellFormed ∧ right.WellFormed
  | .defaction definition => definition.WellFormed
  | .persistent left path right =>
      left.kind.IsPersistent ∧ OptionalExprWellFormed path ∧ right.WellFormed
  | .clear name => name.kind.IsPersistent
  | .raise _ eventType forRid attributes =>
      eventType.WellFormed ∧ OptionalExprWellFormed forRid ∧ OptionalExprWellFormed attributes
  | .schedule timing _ eventType attributes _ =>
      timing.WellFormed ∧ eventType.WellFormed ∧ OptionalExprWellFormed attributes
  | .log _ value | .error _ value => value.WellFormed
  | .guarded condition statement => condition.WellFormed ∧ statement.WellFormed .guarded
  | .last => True

@[simp] def DefAction.WellFormed : DefAction → Prop
  | ⟨_, parameters, body, actionBlock, returns⟩ =>
      parameters.WellFormed ∧ StmtsWellFormed .definitions body ∧ actionBlock.WellFormed ∧
        ExprsWellFormed returns

/-- The block has an action, and a discriminant just if it chooses one. -/
@[simp] def ActionBlock.WellFormed : ActionBlock → Prop
  | ⟨condition, blockType, discriminant, actions, _⟩ =>
      OptionalExprWellFormed condition ∧ (discriminant.isSome = true ↔ blockType = .choose) ∧
        OptionalExprWellFormed discriminant ∧ actions ≠ [] ∧ ActionsWellFormed actions

@[simp] def Action.WellFormed : Action → Prop
  | ⟨_, action, arguments, _, _⟩ => action.WellFormed ∧ arguments.WellFormed

@[simp] def ScheduleTiming.WellFormed : ScheduleTiming → Prop
  | .at time => time.WellFormed
  | .repeat timespec => timespec.WellFormed

@[simp] def GuardCondition.WellFormed : GuardCondition → Prop
  | .onFinal => True
  | .if test => test.WellFormed

def OptionalExprWellFormed : Option Expr → Prop
  | none => True
  | some value => value.WellFormed

def ExprsWellFormed : List Expr → Prop
  | [] => True
  | item :: others => item.WellFormed ∧ ExprsWellFormed others

def MapPairsWellFormed : List MapPair → Prop
  | [] => True
  | item :: others => item.WellFormed ∧ MapPairsWellFormed others

def ArgumentsWellFormed : List Argument → Prop
  | [] => True
  | item :: others => item.WellFormed ∧ ArgumentsWellFormed others

def ParametersWellFormed : List Parameter → Prop
  | [] => True
  | item :: others => item.WellFormed ∧ ParametersWellFormed others

def StmtsWellFormed (place : StmtPlace) : List Stmt → Prop
  | [] => True
  | item :: others => item.WellFormed place ∧ StmtsWellFormed place others

def ActionsWellFormed : List Action → Prop
  | [] => True
  | item :: others => item.WellFormed ∧ ActionsWellFormed others

end

section Lists

@[simp] theorem optionalExprWellFormed_iff {value : Option Expr} :
    OptionalExprWellFormed value ↔ ∀ item ∈ value, item.WellFormed := by
  cases value <;> simp [OptionalExprWellFormed]

@[simp] theorem exprsWellFormed_iff {items : List Expr} :
    ExprsWellFormed items ↔ ∀ item ∈ items, item.WellFormed :=
  iff_forall_mem_of_cons trivial fun _ _ => .rfl

@[simp] theorem mapPairsWellFormed_iff {items : List MapPair} :
    MapPairsWellFormed items ↔ ∀ item ∈ items, item.WellFormed :=
  iff_forall_mem_of_cons trivial fun _ _ => .rfl

@[simp] theorem argumentsWellFormed_iff {items : List Argument} :
    ArgumentsWellFormed items ↔ ∀ item ∈ items, item.WellFormed :=
  iff_forall_mem_of_cons trivial fun _ _ => .rfl

@[simp] theorem parametersWellFormed_iff {items : List Parameter} :
    ParametersWellFormed items ↔ ∀ item ∈ items, item.WellFormed :=
  iff_forall_mem_of_cons trivial fun _ _ => .rfl

@[simp] theorem stmtsWellFormed_iff {place : StmtPlace} {items : List Stmt} :
    StmtsWellFormed place items ↔ ∀ item ∈ items, item.WellFormed place :=
  iff_forall_mem_of_cons trivial fun _ _ => .rfl

@[simp] theorem actionsWellFormed_iff {items : List Action} :
    ActionsWellFormed items ↔ ∀ item ∈ items, item.WellFormed :=
  iff_forall_mem_of_cons trivial fun _ _ => .rfl

end Lists

@[simp] theorem stmt_wellFormed_iff {place : StmtPlace} {kind : StmtKind} {span : Span} :
    Stmt.WellFormed place ⟨kind, span⟩ ↔ place.Admits kind ∧ kind.WellFormed :=
  .rfl

theorem Stmt.WellFormed.mono {place other : StmtPlace} {statement : Stmt}
    (wellFormed : statement.WellFormed place) (within : place.IsWithin other = true) :
    statement.WellFormed other := by
  obtain ⟨kind, span⟩ := statement
  exact ⟨wellFormed.1.mono within, wellFormed.2⟩

section Events

/-- Values of attributes are patterns. -/
def AttributeMatch.WellFormed : AttributeMatch → Prop
  | ⟨_, value, _⟩ => value.kind.IsRegexp

def EventExpression.WellFormed : EventExpression → Prop
  | ⟨_, _, attributes, whereClause, _, _⟩ =>
      (∀ test ∈ attributes, test.WellFormed) ∧ ∀ test ∈ whereClause, test.WellFormed

/-- An operator can have so many operands. -/
@[simp] def EventOp.Takes : EventOp → Nat → Prop
  | .between, count | .notBetween, count => count = 3
  | .or, count | .and, count | .before, count | .then, count | .after, count => 2 ≤ count

mutual

/-- An event has as many operands as it should, and an aggregator only in a group. -/
@[simp] def Event.WellFormed : Event → Prop
  | ⟨kind, _⟩ => kind.WellFormed

@[simp] def EventKind.WellFormed : EventKind → Prop
  | .expression value => value.WellFormed ∧ value.aggregator = none
  | .operator op operands => op.Takes operands.length ∧ EventsWellFormed operands
  | .any count operands =>
      count.kind.IsNumber ∧ 2 ≤ operands.length ∧ EventsWellFormed operands
  | .group _ times event => times.kind.IsNumber ∧ ∃ value, event.kind = .expression value ∧
      value.WellFormed

def EventsWellFormed : List Event → Prop
  | [] => True
  | item :: others => item.WellFormed ∧ EventsWellFormed others

end

@[simp] theorem eventsWellFormed_iff {items : List Event} :
    EventsWellFormed items ↔ ∀ item ∈ items, item.WellFormed :=
  iff_forall_mem_of_cons trivial fun _ _ => .rfl

end Events

section Rulesets

/-- A property with the key can have the value. -/
@[simp] def MetaValue.Suits (key : String) : MetaValue → Prop
  | .expr value => key ∈ ["name", "description", "author"] ∧ value.kind.IsText ∨
      key = "logging" ∧ value.kind.IsBoolean
  | .key _ _ => key = "keys"
  | .use kind _ _ _ _ => key = "use" ∧ kind.value = "module"
  | .errors _ _ => key = "errors"
  | .provides none names rulesets => key = "provides" ∧ names ≠ [] ∧ rulesets = []
  | .provides (some operator) names rulesets =>
      key = "provides" ∧ operator.value = "keys" ∧ names ≠ [] ∧ rulesets ≠ []
  | .shares names => key = "shares" ∧ names ≠ []
  | .configure declarations => key = "configure" ∧ declarations ≠ []

@[simp] def MetaValue.WellFormed : MetaValue → Prop
  | .expr value | .key _ value => value.WellFormed
  | .use _ _ version _ bindings => (∀ value ∈ version, value.kind.IsString) ∧
      ∀ items ∈ bindings, ∀ item ∈ items, item.WellFormed .definitions
  | .errors _ version => ∀ value ∈ version, value.kind.IsString
  | .provides _ _ _ | .shares _ => True
  | .configure declarations => ∀ item ∈ declarations, item.WellFormed .definitions

/-- The value of a property is one for its key. -/
def MetaProperty.WellFormed : MetaProperty → Prop
  | ⟨key, value, _⟩ => value.Suits key.value ∧ value.WellFormed

def RulesetMeta.WellFormed : RulesetMeta → Prop
  | ⟨properties, _⟩ => ∀ property ∈ properties, property.WellFormed

def EventWithin.WellFormed : EventWithin → Prop
  | ⟨value, _, _⟩ => value.WellFormed

def RuleSelect.WellFormed : RuleSelect → Prop
  | ⟨event, within, _⟩ => event.WellFormed ∧ ∀ limit ∈ within, limit.WellFormed

def RuleForEach.WellFormed : RuleForEach → Prop
  | ⟨value, _, _⟩ => value.WellFormed

/-- A postlude has a branch, and only in its branches are there effects. -/
def RulePostlude.WellFormed : RulePostlude → Prop
  | ⟨fired, notFired, always, _⟩ =>
      (fired.isSome ∨ notFired.isSome ∨ always.isSome) ∧
        (∀ items ∈ fired, ∀ item ∈ items, item.WellFormed .postlude) ∧
        (∀ items ∈ notFired, ∀ item ∈ items, item.WellFormed .postlude) ∧
        ∀ items ∈ always, ∀ item ∈ items, item.WellFormed .postlude

def Rule.WellFormed : Rule → Prop
  | ⟨_, _, select, loops, prelude, actionBlock, postlude, _⟩ =>
      (∀ condition ∈ select, condition.WellFormed) ∧ (∀ loop ∈ loops, loop.WellFormed) ∧
        (∀ item ∈ prelude, item.WellFormed .global) ∧
        (∀ block ∈ actionBlock, block.WellFormed) ∧
        ∀ branches ∈ postlude, branches.WellFormed

def Ruleset.WellFormed : Ruleset → Prop
  | ⟨_, properties, globals, rules, _⟩ =>
      (∀ block ∈ properties, block.WellFormed) ∧ (∀ item ∈ globals, item.WellFormed .global) ∧
        ∀ rule ∈ rules, rule.WellFormed

/-- Every part of the program is as the language has it. -/
@[simp] def Program.WellFormed : Program → Prop
  | .ruleset value => value.WellFormed
  | .statements items => ∀ item ∈ items, item.WellFormed .body

end Rulesets

end Krl

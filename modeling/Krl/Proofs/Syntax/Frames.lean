import Krl.Proofs.Syntax.Lists
import Krl.Syntax.Ruleset

/-!
# The spans in a tree

What a tree tells of its source, apart from all words. Every node with a span is a frame around
the frames of the nodes in its fields, where a field is a list of nodes, one node, or an optional
one. Parts of the syntax that have no span of their own, as the definition of an action or the
value of a property, lie in the frame of the node that holds them.
-/

namespace Krl

/-- What a span is around. -/
inductive FrameKind where
  /-- Whole tokens. -/
  | phrase
  /-- A part of a template that is a string: a text, or an interpolation of a string. -/
  | text
  /-- Nothing: an empty list of parameters. -/
  | void
  deriving DecidableEq

/-- The span of a node, and the frames of the nodes in each of its fields. -/
structure Frame where
  kind : FrameKind
  span : Span
  parts : List (List Frame)

namespace Frame

/-- The span of a node over whole tokens that holds no others. -/
@[simp] def leaf (span : Span) : Frame :=
  ⟨.phrase, span, []⟩

/-- The one span ends before the other begins. -/
def Precedes (left right : Frame) : Prop :=
  left.span.stop ≤ right.span.start

/-- Spans lie between two offsets, one behind another. -/
structure InOrder (low high : Nat) (frames : List Frame) : Prop where
  inside : ∀ frame ∈ frames, low ≤ frame.span.start ∧ frame.span.stop ≤ high
  ordered : frames.Pairwise Precedes

namespace InOrder

variable {low high low' high' : Nat} {frames others : List Frame} {frame : Frame}

theorem nil : InOrder low high [] :=
  ⟨List.forall_mem_nil _, .nil⟩

theorem singleton (starts : low ≤ frame.span.start) (stops : frame.span.stop ≤ high) :
    InOrder low high [frame] :=
  ⟨List.forall_mem_singleton.mpr ⟨starts, stops⟩, List.pairwise_singleton ..⟩

theorem weaken (inOrder : InOrder low high frames) (below : low' ≤ low) (above : high ≤ high') :
    InOrder low' high' frames :=
  ⟨fun frame member => ⟨Nat.le_trans below (inOrder.inside frame member).1,
    Nat.le_trans (inOrder.inside frame member).2 above⟩, inOrder.ordered⟩

theorem sublist (inOrder : InOrder low high frames) (sublist : others.Sublist frames) :
    InOrder low high others :=
  ⟨fun frame member => inOrder.inside frame (sublist.subset member),
    inOrder.ordered.sublist sublist⟩

theorem append {middle middle' : Nat} (first : InOrder low middle frames)
    (second : InOrder middle' high others) (meet : middle ≤ middle') (below : low ≤ middle')
    (above : middle ≤ high) : InOrder low high (frames ++ others) where
  inside := List.forall_mem_append.mpr
    ⟨(first.weaken (Nat.le_refl _) above).inside, (second.weaken below (Nat.le_refl _)).inside⟩
  ordered := by
    refine List.pairwise_append.mpr ⟨first.ordered, second.ordered, ?_⟩
    intro frame member other member'
    exact Nat.le_trans (first.inside frame member).2
      (Nat.le_trans meet (second.inside other member').1)

end InOrder

/-- The spans in every field lie inside that of the node, one behind another. -/
def Nests (frame : Frame) : Prop :=
  ∀ part ∈ frame.parts, InOrder frame.span.start frame.span.stop part

/-- A property holds of a frame and of all frames inside, at any depth. -/
inductive Throughout (holds : Frame → Prop) : Frame → Prop where
  | intro {frame : Frame} (itself : holds frame)
      (inside : ∀ part ∈ frame.parts, ∀ inner ∈ part, Throughout holds inner) :
      Throughout holds frame

namespace Throughout

variable {holds : Frame → Prop} {frame : Frame}

theorem itself (throughout : frame.Throughout holds) : holds frame := by
  cases throughout with
  | intro itself _ => exact itself

theorem inside (throughout : frame.Throughout holds) :
    ∀ part ∈ frame.parts, ∀ inner ∈ part, inner.Throughout holds := by
  cases throughout with
  | intro _ inside => exact inside

end Throughout

end Frame

@[simp] def Identifier.frame (name : Identifier) : Frame :=
  .leaf name.span

@[simp] def Keyword.frame (keyword : Keyword) : Frame :=
  .leaf keyword.span

@[simp] def RulesetId.frame (rid : RulesetId) : Frame :=
  .leaf rid.span

section Expressions

/-- The kind of a part of a template. -/
@[simp] def ExprKind.frameKind : ExprKind → FrameKind
  | .string _ => .text
  | _ => .phrase

mutual

/-- The spans in an expression. -/
@[simp] def Expr.frame : Expr → Frame
  | ⟨kind, span⟩ => ⟨.phrase, span, kind.parts⟩

/-- The spans in an expression that is a part of a template. -/
@[simp] def Expr.partFrame : Expr → Frame
  | ⟨kind, span⟩ => ⟨kind.frameKind, span, kind.parts⟩

@[simp] def ExprKind.parts : ExprKind → List (List Frame)
  | .identifier _ | .domainIdentifier _ _ | .string _ | .number _ | .boolean _ | .regexp _ _ => []
  | .chevron parts => [partsFrames parts]
  | .array items => [exprsFrames items]
  | .map pairs => [mapPairsFrames pairs]
  | .unary _ operand => [[operand.frame]]
  | .binary _ left right => [[left.frame], [right.frame]]
  | .conditional test consequent alternate => [[test.frame], [consequent.frame], [alternate.frame]]
  | .member object property _ => [[object.frame], [property.frame]]
  | .application callee arguments => [[callee.frame], [arguments.frame]]
  | .function parameters body => [[parameters.frame], stmtsFrames body]

@[simp] def MapPair.frame : MapPair → Frame
  | ⟨key, value, span⟩ => ⟨.phrase, span, [[key.frame], [value.frame]]⟩

@[simp] def Arguments.frame : Arguments → Frame
  | ⟨items, span⟩ => ⟨.phrase, span, [argumentsFrames items]⟩

@[simp] def Argument.frame : Argument → Frame
  | .positional value => value.frame
  | .named argument => argument.frame

@[simp] def NamedArgument.frame : NamedArgument → Frame
  | ⟨name, value, span⟩ => ⟨.phrase, span, [[name.frame], [value.frame]]⟩

@[simp] def Parameters.frame : Parameters → Frame
  | ⟨items, span⟩ => ⟨if items.isEmpty then .void else .phrase, span, [parametersFrames items]⟩

@[simp] def Parameter.frame : Parameter → Frame
  | ⟨name, default, span⟩ => ⟨.phrase, span, [[name.frame], optionalExprFrames default]⟩

/-- The spans in a statement. -/
@[simp] def Stmt.frame : Stmt → Frame
  | ⟨kind, span⟩ => ⟨.phrase, span, kind.parts⟩

@[simp] def StmtKind.parts : StmtKind → List (List Frame)
  | .expression value => [[value.frame]]
  | .declaration left right => [[left.frame], [right.frame]]
  | .defaction definition => definition.parts
  | .persistent left path right => [[left.frame], optionalExprFrames path, [right.frame]]
  | .clear name => [[name.frame]]
  | .raise eventDomain eventType forRid attributes =>
      [[eventDomain.frame], [eventType.frame], optionalExprFrames forRid,
        optionalExprFrames attributes]
  | .schedule timing eventDomain eventType attributes setting =>
      [[timing.frame], [eventDomain.frame], [eventType.frame], optionalExprFrames attributes,
        setting.toList.map Identifier.frame]
  | .log _ value | .error _ value => [[value.frame]]
  | .guarded condition statement => [condition.frames, [statement.frame]]
  | .last => []

@[simp] def DefAction.parts : DefAction → List (List Frame)
  | ⟨name, parameters, body, actionBlock, returns⟩ =>
      [[name.frame], [parameters.frame], stmtsFrames body, [actionBlock.frame],
        exprsFrames returns]

/-- The spans in a block of actions. -/
@[simp] def ActionBlock.frame : ActionBlock → Frame
  | ⟨condition, _, discriminant, actions, span⟩ =>
      ⟨.phrase, span,
        [optionalExprFrames condition, optionalExprFrames discriminant, actionsFrames actions]⟩

@[simp] def Action.frame : Action → Frame
  | ⟨label, action, arguments, setting, span⟩ =>
      ⟨.phrase, span,
        [label.toList.map Identifier.frame, [action.frame], [arguments.frame],
          setting.map Identifier.frame]⟩

@[simp] def ScheduleTiming.frame : ScheduleTiming → Frame
  | .at time => time.frame
  | .repeat timespec => timespec.frame

@[simp] def GuardCondition.frames : GuardCondition → List Frame
  | .onFinal => []
  | .if test => [test.frame]

def optionalExprFrames : Option Expr → List Frame
  | none => []
  | some value => [value.frame]

def exprsFrames : List Expr → List Frame
  | [] => []
  | item :: others => item.frame :: exprsFrames others

def partsFrames : List Expr → List Frame
  | [] => []
  | item :: others => item.partFrame :: partsFrames others

def mapPairsFrames : List MapPair → List Frame
  | [] => []
  | item :: others => item.frame :: mapPairsFrames others

def argumentsFrames : List Argument → List Frame
  | [] => []
  | item :: others => item.frame :: argumentsFrames others

def parametersFrames : List Parameter → List Frame
  | [] => []
  | item :: others => item.frame :: parametersFrames others

def stmtsFrames : List Stmt → List Frame
  | [] => []
  | item :: others => item.frame :: stmtsFrames others

def actionsFrames : List Action → List Frame
  | [] => []
  | item :: others => item.frame :: actionsFrames others

end

end Expressions

theorem Expr.span_frame (expr : Expr) : expr.frame.span = expr.span := by
  cases expr
  rfl

theorem Expr.span_partFrame (expr : Expr) : expr.partFrame.span = expr.span := by
  cases expr
  rfl

theorem Expr.kind_frame (expr : Expr) : expr.frame.kind = .phrase := by
  cases expr
  rfl

section Lists

@[simp] theorem optionalExprFrames_eq (value : Option Expr) :
    optionalExprFrames value = value.toList.map Expr.frame := by
  cases value <;> rfl

@[simp] theorem exprsFrames_eq (items : List Expr) : exprsFrames items = items.map Expr.frame :=
  eq_map_of_cons rfl (fun _ _ => rfl) items

@[simp] theorem partsFrames_eq (items : List Expr) :
    partsFrames items = items.map Expr.partFrame :=
  eq_map_of_cons rfl (fun _ _ => rfl) items

@[simp] theorem mapPairsFrames_eq (items : List MapPair) :
    mapPairsFrames items = items.map MapPair.frame :=
  eq_map_of_cons rfl (fun _ _ => rfl) items

@[simp] theorem argumentsFrames_eq (items : List Argument) :
    argumentsFrames items = items.map Argument.frame :=
  eq_map_of_cons rfl (fun _ _ => rfl) items

@[simp] theorem parametersFrames_eq (items : List Parameter) :
    parametersFrames items = items.map Parameter.frame :=
  eq_map_of_cons rfl (fun _ _ => rfl) items

@[simp] theorem stmtsFrames_eq (items : List Stmt) : stmtsFrames items = items.map Stmt.frame :=
  eq_map_of_cons rfl (fun _ _ => rfl) items

@[simp] theorem actionsFrames_eq (items : List Action) :
    actionsFrames items = items.map Action.frame :=
  eq_map_of_cons rfl (fun _ _ => rfl) items

end Lists

section Events

@[simp] def AttributeMatch.frame : AttributeMatch → Frame
  | ⟨key, value, span⟩ => ⟨.phrase, span, [[key.frame], [value.frame]]⟩

@[simp] def EventAggregator.frame : EventAggregator → Frame
  | ⟨_, names, span⟩ => ⟨.phrase, span, [names.map Identifier.frame]⟩

@[simp] def EventExpression.parts : EventExpression → List (List Frame)
  | ⟨eventDomain, eventType, attributes, whereClause, setting, aggregator⟩ =>
      [[eventDomain.frame], [eventType.frame], attributes.map AttributeMatch.frame,
        whereClause.toList.map Expr.frame, setting.map Identifier.frame,
        aggregator.toList.map EventAggregator.frame]

mutual

/-- The spans in an event expression. -/
@[simp] def Event.frame : Event → Frame
  | ⟨kind, span⟩ => ⟨.phrase, span, kind.parts⟩

@[simp] def EventKind.parts : EventKind → List (List Frame)
  | .expression value => value.parts
  | .operator _ operands => [eventsFrames operands]
  | .any count operands => [[count.frame], eventsFrames operands]
  | .group _ times event => [[times.frame], [event.frame]]

def eventsFrames : List Event → List Frame
  | [] => []
  | item :: others => item.frame :: eventsFrames others

end

@[simp] theorem eventsFrames_eq (items : List Event) :
    eventsFrames items = items.map Event.frame :=
  eq_map_of_cons rfl (fun _ _ => rfl) items

end Events

section Rulesets

@[simp] def MetaValue.parts : MetaValue → List (List Frame)
  | .expr value => [[value.frame]]
  | .key name value => [[name.frame], [value.frame]]
  | .use kind rid version localName bindings =>
      [[kind.frame], [rid.frame], version.toList.map Expr.frame,
        localName.toList.map Identifier.frame, (bindings.getD []).map Stmt.frame]
  | .errors rid version => [[rid.frame], version.toList.map Expr.frame]
  | .provides operator names rulesets =>
      [operator.toList.map Keyword.frame, names.map Identifier.frame,
        rulesets.map RulesetId.frame]
  | .shares names => [names.map Identifier.frame]
  | .configure declarations => [declarations.map Stmt.frame]

@[simp] def MetaProperty.frame : MetaProperty → Frame
  | ⟨key, value, span⟩ => ⟨.phrase, span, [key.frame] :: value.parts⟩

@[simp] def RulesetMeta.frame : RulesetMeta → Frame
  | ⟨properties, span⟩ => ⟨.phrase, span, [properties.map MetaProperty.frame]⟩

@[simp] def EventWithin.frame : EventWithin → Frame
  | ⟨value, _, span⟩ => ⟨.phrase, span, [[value.frame]]⟩

@[simp] def RuleSelect.frame : RuleSelect → Frame
  | ⟨event, within, span⟩ =>
      ⟨.phrase, span, [[event.frame], within.toList.map EventWithin.frame]⟩

@[simp] def RuleForEach.frame : RuleForEach → Frame
  | ⟨value, setting, span⟩ => ⟨.phrase, span, [[value.frame], setting.map Identifier.frame]⟩

@[simp] def RulePostlude.frame : RulePostlude → Frame
  | ⟨fired, notFired, always, span⟩ =>
      ⟨.phrase, span,
        [(fired.getD []).map Stmt.frame, (notFired.getD []).map Stmt.frame,
          (always.getD []).map Stmt.frame]⟩

@[simp] def Rule.frame : Rule → Frame
  | ⟨name, _, select, loops, prelude, actionBlock, postlude, span⟩ =>
      ⟨.phrase, span,
        [[name.frame], select.toList.map RuleSelect.frame, loops.map RuleForEach.frame,
          prelude.map Stmt.frame, actionBlock.toList.map ActionBlock.frame,
          postlude.toList.map RulePostlude.frame]⟩

/-- The spans in a ruleset. -/
@[simp] def Ruleset.frame : Ruleset → Frame
  | ⟨rid, properties, globals, rules, span⟩ =>
      ⟨.phrase, span,
        [[rid.frame], properties.toList.map RulesetMeta.frame, globals.map Stmt.frame,
          rules.map Rule.frame]⟩

/-- The spans in a program, which has none itself. -/
@[simp] def Program.frames : Program → List Frame
  | .ruleset value => [value.frame]
  | .statements items => items.map Stmt.frame

end Rulesets

end Krl

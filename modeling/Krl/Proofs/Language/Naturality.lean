import Krl.Language
import Krl.Proofs.Syntax.Places
import Mathlib.Order.MinMax

/-!
# Actions keep places

What an action makes of its parts has the places of the parts and of the phrase, and no
other offset. So it does not matter whether the offsets are replaced in the parts or in
the result. Where an action compares offsets, to cover two parts by one span, this holds
as long as the order of offsets is kept.
-/

namespace Krl

/-- Values with offsets that can be replaced. -/
class HasPlaces (α : Type) where
  placed : (Nat → Nat) → α → α

export HasPlaces (placed)

section Instances

instance : HasPlaces Span := ⟨Span.placed⟩
instance : HasPlaces Unit := ⟨fun _ value => value⟩
instance : HasPlaces String := ⟨fun _ value => value⟩
instance : HasPlaces RuleState := ⟨fun _ value => value⟩
instance : HasPlaces LogLevel := ⟨fun _ value => value⟩
instance : HasPlaces Identifier := ⟨Identifier.placed⟩
instance : HasPlaces RulesetId := ⟨RulesetId.placed⟩
instance : HasPlaces Expr := ⟨Expr.placed⟩
instance : HasPlaces Stmt := ⟨Stmt.placed⟩
instance : HasPlaces MapPair := ⟨MapPair.placed⟩
instance : HasPlaces Arguments := ⟨Arguments.placed⟩
instance : HasPlaces Argument := ⟨Argument.placed⟩
instance : HasPlaces Parameters := ⟨Parameters.placed⟩
instance : HasPlaces Parameter := ⟨Parameter.placed⟩
instance : HasPlaces ActionBlock := ⟨ActionBlock.placed⟩
instance : HasPlaces Action := ⟨Action.placed⟩
instance : HasPlaces AttributeMatch := ⟨AttributeMatch.placed⟩
instance : HasPlaces EventAggregator := ⟨EventAggregator.placed⟩
instance : HasPlaces Event := ⟨Event.placed⟩
instance : HasPlaces MetaProperty := ⟨MetaProperty.placed⟩
instance : HasPlaces RulesetMeta := ⟨RulesetMeta.placed⟩
instance : HasPlaces EventWithin := ⟨EventWithin.placed⟩
instance : HasPlaces RuleSelect := ⟨RuleSelect.placed⟩
instance : HasPlaces RuleForEach := ⟨RuleForEach.placed⟩
instance : HasPlaces RulePostlude := ⟨RulePostlude.placed⟩
instance : HasPlaces Rule := ⟨Rule.placed⟩
instance : HasPlaces Ruleset := ⟨Ruleset.placed⟩
instance : HasPlaces Program := ⟨Program.placed⟩

instance : HasPlaces ActionSet where
  placed place set :=
    ⟨set.blockType, set.discriminant.map (Expr.placed place), set.actions.map (Action.placed place)⟩

instance : HasPlaces BaseEvent where
  placed place event := ⟨event.expression.placed place, event.span.placed place⟩

instance {α : Type} [HasPlaces α] : HasPlaces (List α) :=
  ⟨fun place => List.map (placed place)⟩

instance {α : Type} [HasPlaces α] : HasPlaces (Option α) :=
  ⟨fun place => Option.map (placed place)⟩

instance {α : Type} [HasPlaces α] : HasPlaces (Traced α) :=
  ⟨fun place value => placed place <$> value⟩

instance (name : Nonterminal) : HasPlaces name.Value := by
  cases name <;> infer_instance

instance (tokens : Terminal) : HasPlaces tokens.Datum := by
  cases tokens <;> infer_instance

instance (symbol : Symbol Nonterminal Terminal) :
    HasPlaces (symbol.Meaning Nonterminal.Value Terminal.Datum) :=
  match symbol with
  | .nonterminal name => inferInstanceAs (HasPlaces name.Value)
  | .terminal tokens => inferInstanceAs (HasPlaces tokens.Datum)

end Instances

namespace Productions

/-- Replacing the offsets of the arguments of a curried function replaces those of its
result, which the other function gives. -/
def Keeps (place : Nat → Nat) {Result : Type} [HasPlaces Result] :
    (symbols : List (Symbol Nonterminal Terminal)) →
      Curried Nonterminal.Value Terminal.Datum symbols Result →
        Curried Nonterminal.Value Terminal.Datum symbols Result → Prop
  | [], one, other => placed place one = other
  | _ :: others, one, other =>
      ∀ argument, Keeps place others (one argument) (other (placed place argument))

/-- Whether a symbol is not the class of templates, which stand for computations. -/
def isPlain : Symbol Nonterminal Terminal → Bool
  | .terminal .chevron => false
  | _ => true

/-- The action of a production keeps places. -/
inductive Natural : Entry → Prop where
  | rule {lhs : Nonterminal} {rhs : List (Symbol Nonterminal Terminal)}
      {action : Span → Curried Nonterminal.Value Terminal.Datum rhs lhs.Value}
      (plain : rhs.all isPlain = true)
      (keeps : ∀ place : Nat → Nat, Monotone place → ∀ span,
        Keeps place rhs (action span) (action (span.placed place))) :
      Natural (rule lhs rhs action)
  | template {lhs : Nonterminal} {value : Expr → lhs.Value}
      (keeps : ∀ (place : Nat → Nat) expr,
        placed place (value expr) = value (expr.placed place)) :
      Natural (template lhs value)
  | guarded {guard : Guard Leaf} {entry : Entry}
      (known : guard = contiguous ∨ guard = notAfterGroup) (natural : Natural entry) :
      Natural (guarded guard entry)

theorem aggregate_placed {place : Nat → Nat} (monotone : Monotone place) (event : BaseEvent)
    (aggregator : Option EventAggregator) :
    (event.aggregate aggregator).toEvent.placed place =
      ((placed place event).aggregate (placed place aggregator)).toEvent := by
  cases aggregator with
  | none => rfl
  | some aggregator =>
      simp [BaseEvent.aggregate, BaseEvent.toEvent, placed, Event.placed, EventKind.placed,
        EventExpression.placed, EventAggregator.placed, Span.placed, Span.merge,
        monotone.map_min, monotone.map_max]

theorem action_placed (place : Nat → Nat) (action : Action) :
    action.placed place = ⟨action.label.map (Identifier.placed place),
      action.action.placed place, action.arguments.placed place,
      action.setting.map (Identifier.placed place), action.span.placed place⟩ := by
  cases action
  rfl

theorem natural_rulesetRules : ∀ entry ∈ rulesetRules, Natural entry := by
  simp only [rulesetRules, rulesets, descriptions, connections, connectionParts,
    List.forall_mem_append, List.forall_mem_cons, List.forall_mem_flatMap, List.map_cons,
    List.map_nil]
  repeat' apply And.intro
  all_goals intros
  all_goals
    first
    | contradiction
    | exact .template fun _ _ => rfl
    | refine .guarded (.inl rfl) (.rule rfl fun place monotone span => ?_)
    | refine .rule rfl fun place monotone span => ?_
  all_goals
    first
    | (simp only [Keeps]; intros; rfl)
    | simp [Keeps, placed]

theorem natural_declarationRules : ∀ entry ∈ declarationRules, Natural entry := by
  simp only [declarationRules, declarations, defactions, actionBlocks, actions, identifierLists,
    List.forall_mem_append, List.forall_mem_cons]
  repeat' apply And.intro
  all_goals intros
  all_goals
    first
    | contradiction
    | refine .guarded (.inr rfl) (.rule rfl fun place monotone span => ?_)
    | refine .rule rfl fun place monotone span => ?_
  all_goals
    first
    | (simp only [Keeps]; intros; rfl)
    | simp [Keeps, placed, Stmt.placed, StmtKind.placed, DefAction.placed, ActionBlock.placed,
        action_placed]

theorem natural_ruleRules : ∀ entry ∈ ruleRules, Natural entry := by
  simp only [ruleRules, rules, postludes, postludeStatements, effects, List.forall_mem_append,
    List.forall_mem_cons, List.forall_mem_map]
  repeat' apply And.intro
  all_goals intros
  all_goals
    first
    | contradiction
    | refine .rule rfl fun place monotone span => ?_
  all_goals
    first
    | (simp only [Keeps]; intros; rfl)
    | simp [Keeps, placed, Stmt.placed, StmtKind.placed, ScheduleTiming.placed]

theorem natural_eventRules : ∀ entry ∈ eventRules, Natural entry := by
  simp only [eventRules, eventOperators, eventOperands, baseEvents, eventGroups,
    List.forall_mem_append, List.forall_mem_cons, List.forall_mem_map, List.map_cons,
    List.map_nil, Prod.forall]
  repeat' apply And.intro
  all_goals intros
  all_goals
    first
    | contradiction
    | refine .rule rfl fun place monotone span => ?_
  all_goals
    first
    | (simp only [Keeps]; intros; rfl)
    | simp [Keeps, placed, Event.placed, EventKind.placed, aggregate_placed monotone]

theorem natural_expressionRules : ∀ entry ∈ expressionRules, Natural entry := by
  simp only [expressionRules, operators, suffixes, operands, collections, functions, calls,
    statements, List.forall_mem_append, List.forall_mem_cons, List.map_cons, List.map_nil]
  repeat' apply And.intro
  all_goals intros
  all_goals
    first
    | contradiction
    | exact .template fun _ _ => rfl
    | refine .rule rfl fun place monotone span => ?_
  all_goals
    first
    | (simp only [Keeps]; intros; rfl)
    | simp [Keeps, placed, Expr.placed, ExprKind.placed, Arguments.placed, Parameters.placed,
        Stmt.placed, StmtKind.placed]

/-- The actions of all productions keep places. -/
theorem natural_of_mem : ∀ entry ∈ rulesetRules ++ declarationRules ++ ruleRules ++ eventRules ++
    expressionRules, Natural entry := by
  simp only [List.forall_mem_append]
  exact ⟨⟨⟨⟨natural_rulesetRules, natural_declarationRules⟩, natural_ruleRules⟩,
    natural_eventRules⟩, natural_expressionRules⟩

/-- There are two guards. -/
theorem Natural.guard_known {entry : Entry} (natural : Natural entry) :
    ∀ guard ∈ entry.guard, guard = contiguous ∨ guard = notAfterGroup := by
  intro guard carried
  cases natural with
  | rule => cases carried
  | template => cases carried
  | guarded known =>
      cases carried
      exact known

end Productions

end Krl

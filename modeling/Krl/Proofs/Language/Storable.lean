import Krl.Proofs.Language.Evaluation
import Krl.Proofs.Syntax.Storable

/-!
# Productions keep numbers

What a production makes can be stored just when its parts can. No production makes up a number,
and none of them drops the number of a part.
-/

namespace Krl

/-- The value of a phrase can be stored just if a condition on its tokens holds. -/
@[simp] def Nonterminal.Tells : (name : Nonterminal) → name.Value → Prop → Prop
  | .main, value, finite => value.Storable ↔ finite
  | .ruleset, value, finite => value.Storable ↔ finite
  | .rulesetId, value, finite => value.Storable ∧ finite
  | .ridWords, _, finite | .timePeriod, _, finite | .ruleState, _, finite
  | .logLevel, _, finite => finite
  | .metaOpt, value, finite => (∀ block ∈ value, block.Storable) ↔ finite
  | .metaBlock, value, finite => value.Storable ↔ finite
  | .metaProperties, items, finite => (∀ item ∈ items, item.Storable) ↔ finite
  | .metaProperty, value, finite => value.Storable ↔ finite
  | .versionOpt, value, finite | .whereOpt, value, finite | .forOpt, value, finite
  | .attributesOpt, value, finite => (∀ item ∈ value, item.Storable) ↔ finite
  | .aliasOpt, value, finite | .scheduleSettingOpt, value, finite =>
      (∀ name ∈ value, name.Storable) ∧ finite
  | .withOpt, value, finite => (∀ items ∈ value, ∀ item ∈ items, item.Storable) ↔ finite
  | .identifiers, names, finite | .settingOpt, names, finite =>
      (∀ name ∈ names, name.Storable) ∧ finite
  | .rulesetIds, rids, finite => (∀ rid ∈ rids, rid.Storable) ∧ finite
  | .withSpaced, items, finite | .withJoined, items, finite | .configuration, items, finite
  | .globalOpt, items, finite | .declarations, items, finite | .plainDeclarations, items, finite
  | .preludeOpt, items, finite | .postludeBody, items, finite
  | .postludeStatements, items, finite | .postludeSequence, items, finite
  | .statements, items, finite | .statementSequence, items, finite =>
      (∀ item ∈ items, item.Storable) ↔ finite
  | .withBinding, value, finite | .declarationItem, value, finite
  | .declarationOrDefaction, value, finite | .declaration, value, finite
  | .defaction, value, finite | .plainDeclaration, value, finite
  | .postludeStatement, value, finite | .postludeCore, value, finite
  | .persistentAssignment, value, finite | .clearStatement, value, finite
  | .raiseStatement, value, finite | .scheduleStatement, value, finite
  | .logStatement, value, finite | .errorStatement, value, finite
  | .statement, value, finite => value.Storable ↔ finite
  | .returnsOpt, items, finite | .expressions, items, finite | .arrayItems, items, finite =>
      (∀ item ∈ items, item.Storable) ↔ finite
  | .rules, items, finite => (∀ item ∈ items, item.Storable) ↔ finite
  | .rule, value, finite => value.Storable ↔ finite
  | .selectOpt, value, finite => (∀ select ∈ value, select.Storable) ↔ finite
  | .ruleSelect, value, finite => value.Storable ↔ finite
  | .withinOpt, value, finite => (∀ within ∈ value, within.Storable) ↔ finite
  | .loops, items, finite => (∀ item ∈ items, item.Storable) ↔ finite
  | .loop, value, finite => value.Storable ↔ finite
  | .actionBlockOpt, value, finite => (∀ block ∈ value, block.Storable) ↔ finite
  | .postludeOpt, value, finite => (∀ postlude ∈ value, postlude.Storable) ↔ finite
  | .postlude, value, finite => value.Storable ↔ finite
  | .actionBlock, value, finite => value.Storable ↔ finite
  | .actionSet, value, finite =>
      ((∀ item ∈ value.discriminant, item.Storable) ∧
        ∀ action ∈ value.actions, action.Storable) ↔ finite
  | .actions, items, finite => (∀ item ∈ items, item.Storable) ↔ finite
  | .actionItem, value, finite | .action, value, finite => value.Storable ↔ finite
  -- Another label may still be put in, and the span becomes that of the label too.
  | .actionCore, value, finite =>
      (∀ name ∈ value.label, name.Storable) ∧ value.span.Storable ∧ (value.Storable ↔ finite)
  | .eventOr, value, finite | .eventAnd, value, finite | .eventSequence, value, finite
  | .eventBetween, value, finite | .eventPrimary, value, finite | .eventGroup, value, finite =>
      value.Storable ↔ finite
  -- The aggregator is still missing, so that it can be put in.
  | .eventBase, value, finite =>
      value.expression.aggregator = none ∧ value.span.Storable ∧ (value.toEvent.Storable ↔ finite)
  | .events, items, finite => (∀ item ∈ items, item.Storable) ↔ finite
  | .attributeMatches, items, finite => (∀ item ∈ items, item.Storable) ↔ finite
  | .attributeMatch, value, finite => value.Storable ↔ finite
  | .aggregatorOpt, value, finite => (∀ item ∈ value, item.Storable) ∧ finite
  | .aggregator, value, finite => value.Storable ∧ finite
  | .metaText, value, finite | .declarationLeft, value, finite | .actionName, value, finite
  | .expression, value, finite | .disjunction, value, finite | .conjunction, value, finite
  | .comparison, value, finite | .sum, value, finite | .product, value, finite
  | .unary, value, finite | .suffixed, value, finite | .primary, value, finite
  | .arrayLiteral, value, finite | .mapLiteral, value, finite | .function, value, finite =>
      value.Storable ↔ finite
  | .mapPairs, items, finite => (∀ item ∈ items, item.Storable) ↔ finite
  | .mapPair, value, finite => value.Storable ↔ finite
  | .parameters, value, finite => value.Storable ↔ finite
  | .parameterList, items, finite => (∀ item ∈ items, item.Storable) ↔ finite
  | .parameter, value, finite => value.Storable ↔ finite
  | .arguments, value, finite => value.Storable ↔ finite
  | .argumentList, items, finite | .argumentSequence, items, finite =>
      (∀ item ∈ items, item.Storable) ↔ finite
  | .argument, value, finite => value.Storable ↔ finite

/-- What a token means can be stored just if a condition on the token holds. Only numbers and
templates can fail to. -/
@[simp] def Terminal.Tells : (tokens : Terminal) → tokens.Datum → Prop → Prop
  | .punct _, _, finite => finite
  | .word _, place, finite => place.Storable ∧ finite
  | .identifier, name, finite | .symbol, name, finite => name.Storable ∧ finite
  | .number, value, finite => value.Storable ↔ finite
  | .string, value, finite | .regexp, value, finite | .domainName, value, finite
  | .persistent, value, finite => value.Storable ∧ finite
  | .chevron, parts, finite => ∀ value, Traced.Yields parts value → (value.Storable ↔ finite)

/-- A label takes no number away and adds none. -/
theorem storable_label {action : Action} {label : Identifier} {span : Span}
    (old : ∀ name ∈ action.label, name.Storable) (place : action.span.Storable)
    (new : label.Storable) (whole : span.Storable) :
    Action.Storable { action with label := some label, span := span } ↔ action.Storable := by
  cases action
  simp_all [Action.Storable]

theorem storable_merge {span other : Span} (first : span.Storable) (second : other.Storable) :
    (span.merge other).Storable :=
  ⟨Nat.lt_of_le_of_lt (Nat.min_le_left _ _) first.1, Nat.max_lt.mpr ⟨first.2, second.2⟩⟩

/-- An aggregator takes no number away and adds none. -/
theorem storable_aggregate {event : BaseEvent} {aggregator : Option EventAggregator}
    (missing : event.expression.aggregator = none) (place : event.span.Storable)
    (storable : ∀ item ∈ aggregator, item.Storable) :
    (event.aggregate aggregator).toEvent.Storable ↔ event.toEvent.Storable := by
  obtain ⟨⟨domain, type, attributes, test, setting, _⟩, span⟩ := event
  cases missing
  cases aggregator with
  | none => exact .rfl
  | some aggregator =>
      have known := storable aggregator rfl
      have merged := storable_merge place (show aggregator.span.Storable from known.2)
      simp_all [BaseEvent.aggregate, BaseEvent.toEvent, Event.Storable, EventKind.Storable,
        EventExpression.Storable]

@[simp] theorem storable_toExpr {name : Identifier} : name.toExpr.Storable ↔ name.Storable :=
  and_iff_right trivial

theorem Expr.storable_iff {value : Expr} :
    value.Storable ↔ value.kind.Storable ∧ value.span.Storable := by
  cases value
  exact .rfl

/-- A statement that is an expression has the span of it. -/
@[simp] theorem storable_expression {value : Expr} :
    Stmt.Storable ⟨.expression value, value.span⟩ ↔ value.Storable :=
  and_iff_left_of_imp fun storable => (Expr.storable_iff.mp storable).2

namespace Productions

/-- A phrase leads from a condition to that and its own. -/
def tellsPhrase (name : Nonterminal) (value : name.Value) (before after : Prop) : Prop :=
  ∃ finite, name.Tells value finite ∧ after = (before ∧ finite)

/-- A token leads from a condition to that and its own. -/
def tellsToken (tokens : Terminal) (datum : tokens.Datum) (before after : Prop) : Prop :=
  ∃ finite, tokens.Tells datum finite ∧ after = (before ∧ finite)

/-- What the production makes can be stored just if its parts can. -/
abbrev KeepsNumbers : Entry → Prop :=
  Makes tellsPhrase tellsToken True
    fun name span finite value => span.Storable → name.Tells value finite

theorem keepsNumbers_rule {lhs : Nonterminal} {rhs : List (Symbol Nonterminal Terminal)}
    {action : Span → Curried Nonterminal.Value Terminal.Datum rhs lhs.Value}
    (keeps : ∀ span : Span, span.Storable → Threads tellsPhrase tellsToken
      (fun finite value => lhs.Tells value finite) rhs True (action span)) :
    KeepsNumbers (rule lhs rhs action) :=
  makes_rule_iff.mpr fun span => threads_imp_iff.mpr (keeps span)

theorem keepsNumbers_template {lhs : Nonterminal} {value : Expr → lhs.Value}
    (same : ∀ expr finite, (expr.Storable ↔ finite) → lhs.Tells (value expr) finite) :
    KeepsNumbers (template lhs value) := by
  refine makes_template_iff.mpr ?_
  rintro span parts _ ⟨finite, tells, rfl⟩ expr yields _
  exact same expr _ ((tells expr yields).trans (iff_of_eq (true_and finite)).symm)

theorem keepsNumbers_expressionRules : ∀ entry ∈ expressionRules, KeepsNumbers entry := by
  simp only [expressionRules, operators, suffixes, operands, collections, functions, calls,
    statements, List.forall_mem_append, List.forall_mem_cons, List.map_cons, List.map_nil]
  repeat' apply And.intro
  all_goals
    first
    | exact List.forall_mem_nil _
    | exact keepsNumbers_template fun _ _ same => same
    | apply keepsNumbers_rule
      simp only [Threads, tellsPhrase, tellsToken, forall_exists_index, and_imp]
      intros
      simp_all [or_imp, forall_and]
      done
    | apply keepsNumbers_rule
      simp only [Threads, tellsPhrase, tellsToken, forall_exists_index, and_imp]
      intros
      simp_all [and_assoc, Expr.Storable, ExprKind.Storable, Parameters.Storable,
        Parameter.Storable, Arguments.Storable, Argument.Storable, NamedArgument.Storable,
        MapPair.Storable]

theorem keepsNumbers_group (text : String) (op : GroupOp) : KeepsNumbers
    (rule .eventGroup
      [word text, token .number, mark .leftParen, the .eventBase, mark .rightParen,
        the .aggregatorOpt]
      fun span _ times _ event _ aggregator =>
        ⟨.group op times (event.aggregate aggregator).toEvent, span⟩) := by
  apply keepsNumbers_rule
  simp only [Threads, tellsPhrase, tellsToken, forall_exists_index, and_imp]
  intro span place
  intros
  have aggregate := @storable_aggregate
  simp_all [Event.Storable, EventKind.Storable]

theorem keepsNumbers_eventRules : ∀ entry ∈ eventRules, KeepsNumbers entry := by
  simp only [eventRules, eventOperators, eventOperands, baseEvents, eventGroups, eventWords,
    List.forall_mem_append, List.forall_mem_cons, List.forall_mem_map, List.map_cons, List.map_nil]
  repeat' apply And.intro
  all_goals
    first
    | exact List.forall_mem_nil _
    | exact keepsNumbers_group _ _
    | intros
      apply keepsNumbers_rule
      simp only [Threads, tellsPhrase, tellsToken, forall_exists_index, and_imp]
      intros
      simp_all [or_imp, forall_and]
      done
    | intros
      apply keepsNumbers_rule
      simp only [Threads, tellsPhrase, tellsToken, forall_exists_index, and_imp]
      intros
      simp_all [and_assoc, BaseEvent.toEvent, Event.Storable, EventKind.Storable,
        EventExpression.Storable, AttributeMatch.Storable, EventAggregator.Storable]

theorem keepsNumbers_rules : ∀ entry ∈ rules, KeepsNumbers entry := by
  simp only [rules, List.forall_mem_append, List.forall_mem_cons, List.forall_mem_map]
  repeat' apply And.intro
  all_goals
    first
    | exact List.forall_mem_nil _
    | intros
      apply keepsNumbers_rule
      simp only [Threads, tellsPhrase, tellsToken, forall_exists_index, and_imp]
      intros
      simp_all [or_imp, forall_and]
      done
    | apply keepsNumbers_rule
      simp only [Threads, tellsPhrase, tellsToken, forall_exists_index, and_imp]
      intros
      simp_all [and_assoc, Rule.Storable, RuleSelect.Storable, EventWithin.Storable,
        RuleForEach.Storable]

theorem keepsNumbers_postludeRules :
    ∀ entry ∈ postludes ++ postludeStatements ++ effects, KeepsNumbers entry := by
  simp only [postludes, postludeStatements, effects, List.forall_mem_append,
    List.forall_mem_cons, List.forall_mem_map]
  repeat' apply And.intro
  all_goals
    first
    | exact List.forall_mem_nil _
    | intros
      apply keepsNumbers_rule
      simp only [Threads, tellsPhrase, tellsToken, forall_exists_index, and_imp]
      intros
      simp_all [or_imp, forall_and]
      done
    | apply keepsNumbers_rule
      simp only [Threads, tellsPhrase, tellsToken, forall_exists_index, and_imp]
      intros
      simp_all [and_comm, and_left_comm, RulePostlude.Storable, Stmt.Storable,
        StmtKind.Storable, GuardCondition.Storable, ScheduleTiming.Storable]

theorem keepsNumbers_rulesetRules : ∀ entry ∈ rulesetRules, KeepsNumbers entry := by
  simp only [rulesetRules, rulesets, descriptions, connections, connectionParts,
    List.forall_mem_append, List.forall_mem_cons, List.forall_mem_flatMap, List.map_cons,
    List.map_nil, makes_guarded_iff]
  repeat' apply And.intro
  all_goals
    first
    | exact List.forall_mem_nil _
    | exact keepsNumbers_template fun _ _ same => same
    | apply keepsNumbers_rule
      simp only [Threads, tellsPhrase, tellsToken, forall_exists_index, and_imp]
      intros
      simp_all [or_imp, forall_and]
      done
    | apply keepsNumbers_rule
      simp only [Threads, tellsPhrase, tellsToken, forall_exists_index, and_imp]
      intros
      simp_all [and_assoc, Program.Storable, Ruleset.Storable, RulesetMeta.Storable,
        RulesetId.Storable, MetaProperty.Storable, MetaValue.Storable, Keyword.Storable,
        Identifier.Storable, Identifier.toKeyword, Stmt.Storable, StmtKind.Storable, Expr.Storable,
        ExprKind.Storable]

theorem keepsNumbers_label : KeepsNumbers
    (rule .action [token .identifier, mark .arrow, the .actionCore] fun span label _ action =>
      { action with label := some label, span := span }) := by
  apply keepsNumbers_rule
  rintro span place label _ ⟨_, ⟨labelled, atLabel⟩, rfl⟩ _ _ ⟨_, atMark, rfl⟩ action _
    ⟨finite, ⟨old, placed, tells⟩, rfl⟩
  refine (storable_label old placed labelled place).trans (tells.trans ?_)
  exact (and_iff_right ⟨⟨trivial, atLabel⟩, atMark⟩).symm

theorem keepsNumbers_declarationRules : ∀ entry ∈ declarationRules, KeepsNumbers entry := by
  simp only [declarationRules, declarations, defactions, actionBlocks, actions, identifierLists,
    List.forall_mem_append, List.forall_mem_cons, makes_guarded_iff]
  repeat' apply And.intro
  all_goals
    first
    | exact List.forall_mem_nil _
    | exact keepsNumbers_label
    | apply keepsNumbers_rule
      simp only [Threads, tellsPhrase, tellsToken, forall_exists_index, and_imp]
      intros
      simp_all [or_imp, forall_and]
      done
    | apply keepsNumbers_rule
      simp only [Threads, tellsPhrase, tellsToken, forall_exists_index, and_imp]
      intros
      simp_all [and_assoc, Stmt.Storable, StmtKind.Storable, DefAction.Storable,
        ActionBlock.Storable, Action.Storable, Expr.Storable, ExprKind.Storable]

/-- All productions of the language keep numbers. -/
theorem keepsNumbers_of_mem : ∀ entry ∈ rulesetRules ++ declarationRules ++ ruleRules ++
    eventRules ++ expressionRules, KeepsNumbers entry := by
  have postludes := keepsNumbers_postludeRules
  simp only [ruleRules, List.forall_mem_append] at postludes ⊢
  exact ⟨⟨⟨⟨keepsNumbers_rulesetRules, keepsNumbers_declarationRules⟩,
    ⟨⟨keepsNumbers_rules, postludes.1.1⟩, postludes.1.2⟩, postludes.2⟩,
    keepsNumbers_eventRules⟩, keepsNumbers_expressionRules⟩

end Productions

end Krl

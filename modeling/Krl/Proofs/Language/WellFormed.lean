import Krl.Proofs.Language.Evaluation
import Krl.Proofs.Syntax.WellFormed

/-!
# Productions make well-formed trees

What each production makes of well-formed parts is well formed. A statement is so where its
phrase stands; one that can stand in a narrower place can stand in a wider one too.
-/

namespace Krl

/-- The actions of a block, and what chooses among them. -/
def ActionSet.WellFormed : ActionSet → Prop
  | ⟨blockType, discriminant, actions⟩ =>
      (discriminant.isSome = true ↔ blockType = .choose) ∧ OptionalExprWellFormed discriminant ∧
        actions ≠ [] ∧ ∀ action ∈ actions, action.WellFormed

/-- What a phrase stands for is well formed, in the place of the phrase. -/
@[simp] def Nonterminal.WellFormed : (name : Nonterminal) → name.Value → Prop
  | .main, value => value.WellFormed
  | .ruleset, value => value.WellFormed
  | .rulesetId, _ | .ridWords, _ | .aliasOpt, _ | .settingOpt, _ | .scheduleSettingOpt, _
  | .ruleState, _ | .timePeriod, _ | .logLevel, _ | .aggregatorOpt, _ | .aggregator, _ => True
  | .rulesetIds, items => items ≠ []
  | .identifiers, items => items ≠ []
  | .metaOpt, value => ∀ block ∈ value, block.WellFormed
  | .metaBlock, value => value.WellFormed
  | .metaProperties, items => ∀ item ∈ items, item.WellFormed
  | .metaProperty, value => value.WellFormed
  | .metaText, value => value.kind.IsText ∧ value.WellFormed
  | .versionOpt, value => ∀ version ∈ value, version.kind.IsString
  | .withOpt, value => ∀ items ∈ value, ∀ item ∈ items, item.WellFormed .definitions
  | .withSpaced, items | .withJoined, items | .plainDeclarations, items =>
      ∀ item ∈ items, item.WellFormed .definitions
  | .configuration, items => items ≠ [] ∧ ∀ item ∈ items, item.WellFormed .definitions
  | .withBinding, value | .declaration, value | .plainDeclaration, value =>
      value.WellFormed .definitions
  | .globalOpt, items | .declarations, items | .preludeOpt, items =>
      ∀ item ∈ items, item.WellFormed .global
  | .declarationItem, value | .declarationOrDefaction, value | .defaction, value =>
      value.WellFormed .global
  | .declarationLeft, value => value.IsLeftSide ∧ value.WellFormed
  | .returnsOpt, items | .expressions, items | .arrayItems, items =>
      ∀ item ∈ items, item.WellFormed
  | .rules, items => ∀ item ∈ items, item.WellFormed
  | .rule, value => value.WellFormed
  | .selectOpt, value => ∀ select ∈ value, select.WellFormed
  | .ruleSelect, value => value.WellFormed
  | .withinOpt, value => ∀ within ∈ value, within.WellFormed
  | .loops, items => ∀ item ∈ items, item.WellFormed
  | .loop, value => value.WellFormed
  | .actionBlockOpt, value => ∀ block ∈ value, block.WellFormed
  | .postludeOpt, value => ∀ postlude ∈ value, postlude.WellFormed
  | .postlude, value => value.WellFormed
  | .postludeBody, items | .postludeStatements, items | .postludeSequence, items =>
      ∀ item ∈ items, item.WellFormed .postlude
  | .postludeStatement, value => value.WellFormed .postlude
  | .postludeCore, value | .persistentAssignment, value | .clearStatement, value
  | .raiseStatement, value | .scheduleStatement, value | .logStatement, value
  | .errorStatement, value => value.WellFormed .guarded
  | .forOpt, value | .attributesOpt, value | .whereOpt, value => ∀ item ∈ value, item.WellFormed
  | .actionBlock, value => value.WellFormed
  | .actionSet, value => value.WellFormed
  | .actions, items => items ≠ [] ∧ ∀ item ∈ items, item.WellFormed
  | .actionItem, value | .action, value | .actionCore, value => value.WellFormed
  | .eventOr, value | .eventAnd, value | .eventSequence, value | .eventBetween, value
  | .eventPrimary, value | .eventGroup, value => value.WellFormed
  | .eventBase, value => value.expression.WellFormed ∧ value.expression.aggregator = none
  | .events, items => 2 ≤ items.length ∧ ∀ item ∈ items, item.WellFormed
  | .attributeMatches, items => ∀ item ∈ items, item.WellFormed
  | .attributeMatch, value => value.WellFormed
  | .mapPairs, items => ∀ item ∈ items, item.WellFormed
  | .mapPair, value => value.WellFormed
  | .parameters, value => value.WellFormed
  | .parameterList, items => ∀ item ∈ items, item.WellFormed
  | .parameter, value => value.WellFormed
  | .arguments, value => value.WellFormed
  | .argumentList, items | .argumentSequence, items => ∀ item ∈ items, item.WellFormed
  | .argument, value => value.WellFormed
  | .actionName, value | .expression, value | .disjunction, value | .conjunction, value
  | .comparison, value | .sum, value | .product, value | .unary, value | .suffixed, value
  | .primary, value | .arrayLiteral, value | .mapLiteral, value | .function, value =>
      value.WellFormed
  | .statements, items | .statementSequence, items => ∀ item ∈ items, item.WellFormed .body
  | .statement, value => value.WellFormed .body

/-- What a token means is an expression of its class. -/
@[simp] def Terminal.WellFormed : (tokens : Terminal) → tokens.Datum → Prop
  | .number, value => value.kind.IsNumber ∧ value.WellFormed
  | .string, value => value.kind.IsString ∧ value.kind.IsText ∧ value.WellFormed
  | .regexp, value => value.kind.IsRegexp ∧ value.WellFormed
  | .domainName, value => value.IsLeftSide ∧ value.WellFormed
  | .persistent, value => value.kind.IsPersistent
  | .chevron, parts => ∀ value, Traced.Yields parts value → value.kind.IsText ∧ value.WellFormed
  | .punct _, _ | .word _, _ | .identifier, _ | .symbol, _ => True

@[simp] theorem isLeftSide_toExpr (name : Identifier) : name.toExpr.IsLeftSide :=
  True.intro

@[simp] theorem wellFormed_toExpr (name : Identifier) : name.toExpr.WellFormed :=
  True.intro

/-- The label of an action has no form to keep. -/
theorem action_wellFormed_iff {action : Action} :
    action.WellFormed ↔ action.action.WellFormed ∧ action.arguments.WellFormed := by
  cases action
  exact .rfl

@[simp] theorem wellFormed_aggregate {event : BaseEvent} {aggregator : Option EventAggregator} :
    (event.aggregate aggregator).expression.WellFormed ↔ event.expression.WellFormed := by
  cases aggregator <;> exact .rfl

namespace Productions

/-- What the production makes of well-formed parts is well formed. -/
abbrev KeepsForm : Entry → Prop :=
  Makes (fun name value (_ _ : Unit) => name.WellFormed value)
    (fun tokens datum _ _ => tokens.WellFormed datum) ()
    (fun name _ _ value => name.WellFormed value)

theorem keepsForm_rule {lhs : Nonterminal} {rhs : List (Symbol Nonterminal Terminal)}
    {action : Span → Curried Nonterminal.Value Terminal.Datum rhs lhs.Value}
    (keeps : ∀ span, Threads (fun name value (_ _ : Unit) => name.WellFormed value)
      (fun tokens datum _ _ => tokens.WellFormed datum) (fun _ value => lhs.WellFormed value) rhs ()
      (action span)) :
    KeepsForm (rule lhs rhs action) :=
  makes_rule_iff.mpr keeps

theorem keepsForm_template {lhs : Nonterminal} {value : Expr → lhs.Value}
    (same : ∀ expr, expr.kind.IsText ∧ expr.WellFormed → lhs.WellFormed (value expr)) :
    KeepsForm (template lhs value) :=
  makes_template_iff.mpr fun _ _ _ known expr yields => same expr (known expr yields)

/-- A phrase that is passed on has to be well formed in its new place. -/
theorem keepsForm_same {lhs name : Nonterminal} {value : name.Value → lhs.Value}
    (same : ∀ item, name.WellFormed item → lhs.WellFormed (value item)) :
    KeepsForm (Productions.same lhs name value) :=
  makes_same_iff.mpr fun _ item _ wellFormed => same item wellFormed

theorem keepsForm_rulesetRules : ∀ entry ∈ rulesetRules, KeepsForm entry := by
  simp only [rulesetRules, rulesets, descriptions, connections, connectionParts,
    List.forall_mem_append, List.forall_mem_cons, List.forall_mem_flatMap, List.map_cons,
    List.map_nil, makes_guarded_iff]
  repeat' apply And.intro
  all_goals
    first
    | exact List.forall_mem_nil _
    | exact keepsForm_template fun _ wellFormed => wellFormed
    | apply keepsForm_rule
      simp only [Threads]
      intros
      simp_all [or_imp, Ruleset.WellFormed, RulesetMeta.WellFormed, MetaProperty.WellFormed]

theorem keepsForm_declarationRules : ∀ entry ∈ declarationRules, KeepsForm entry := by
  simp only [declarationRules, declarations, defactions, actionBlocks, actions, identifierLists,
    List.forall_mem_append, List.forall_mem_cons, makes_guarded_iff]
  repeat' apply And.intro
  all_goals
    first
    | exact List.forall_mem_nil _
    | exact keepsForm_same fun _ wellFormed => wellFormed.mono rfl
    | apply keepsForm_rule
      simp only [Threads]
      intros
      simp_all [or_imp, ActionSet.WellFormed]
      done
    | apply keepsForm_rule
      simp_all [Threads, action_wellFormed_iff]

theorem keepsForm_rules : ∀ entry ∈ rules, KeepsForm entry := by
  simp only [rules, List.forall_mem_append, List.forall_mem_cons, List.forall_mem_map]
  repeat' apply And.intro
  all_goals
    first
    | exact List.forall_mem_nil _
    | intros
      apply keepsForm_rule
      simp only [Threads]
      intros
      simp_all [or_imp]
      done
    | apply keepsForm_rule
      simp only [Threads]
      intros
      simp_all [Rule.WellFormed, RuleSelect.WellFormed, EventWithin.WellFormed,
        RuleForEach.WellFormed]

theorem keepsForm_postludeRules :
    ∀ entry ∈ postludes ++ postludeStatements ++ effects, KeepsForm entry := by
  simp only [postludes, postludeStatements, effects, List.forall_mem_append,
    List.forall_mem_cons, List.forall_mem_map]
  repeat' apply And.intro
  all_goals
    first
    | exact List.forall_mem_nil _
    | exact keepsForm_same fun _ wellFormed => wellFormed.mono rfl
    | intros
      apply keepsForm_rule
      simp only [Threads]
      intros
      simp_all [or_imp, RulePostlude.WellFormed]

theorem keepsForm_events : KeepsForm
    (rule .events [the .events, mark .comma, the .eventOr] fun _ items _ item =>
      items ++ [item]) := by
  apply keepsForm_rule
  rintro _ items _ ⟨several, wellFormed⟩ _ _ _ item _ inner
  refine ⟨?_, List.forall_mem_append.mpr ⟨wellFormed, List.forall_mem_singleton.mpr inner⟩⟩
  rw [List.length_append]
  exact Nat.le_add_right_of_le several

theorem keepsForm_eventRules : ∀ entry ∈ eventRules, KeepsForm entry := by
  simp only [eventRules, eventOperators, eventOperands, baseEvents, eventGroups, eventWords,
    List.forall_mem_append, List.forall_mem_cons, List.forall_mem_map, List.map_cons, List.map_nil]
  repeat' apply And.intro
  all_goals
    first
    | exact List.forall_mem_nil _
    | exact keepsForm_events
    | intros
      apply keepsForm_rule
      simp only [Threads]
      intros
      simp_all [or_imp, AttributeMatch.WellFormed, EventExpression.WellFormed]
      done
    | apply keepsForm_rule
      simp +contextual [Threads, BaseEvent.toEvent]

theorem keepsForm_expressionRules : ∀ entry ∈ expressionRules, KeepsForm entry := by
  simp only [expressionRules, operators, suffixes, operands, collections, functions, calls,
    statements, List.forall_mem_append, List.forall_mem_cons, List.map_cons, List.map_nil]
  repeat' apply And.intro
  all_goals
    first
    | exact List.forall_mem_nil _
    | exact keepsForm_template fun _ wellFormed => wellFormed.2
    | exact keepsForm_same fun _ wellFormed => wellFormed.mono rfl
    | apply keepsForm_rule
      simp only [Threads]
      intros
      simp_all [or_imp]

/-- All productions of the language keep to the forms of trees. -/
theorem keepsForm_of_mem : ∀ entry ∈ rulesetRules ++ declarationRules ++ ruleRules ++
    eventRules ++ expressionRules, KeepsForm entry := by
  have postludes := keepsForm_postludeRules
  simp only [ruleRules, List.forall_mem_append] at postludes ⊢
  exact ⟨⟨⟨⟨keepsForm_rulesetRules, keepsForm_declarationRules⟩,
    ⟨⟨keepsForm_rules, postludes.1.1⟩, postludes.1.2⟩, postludes.2⟩, keepsForm_eventRules⟩,
    keepsForm_expressionRules⟩

end Productions

end Krl

import Krl.Proofs.Language.Evaluation
import Krl.Proofs.Syntax.Nodes

/-!
# Where expressions come from

The expressions in what a production makes are those in its parts. Only where the phrase is
an expression itself, or the left side of a declaration, a new one may be among them: the
whole of what the production makes. Then it has the span of the phrase.
-/

namespace Krl

/-- The expressions in what a phrase stands for. -/
@[simp] def Nonterminal.nodes : (name : Nonterminal) → name.Value → List Expr
  | .main, value => value.nodes
  | .ruleset, value => value.nodes
  | .rulesetId, _ | .ridWords, _ | .rulesetIds, _ | .identifiers, _ | .aliasOpt, _
  | .settingOpt, _ | .scheduleSettingOpt, _ | .ruleState, _ | .timePeriod, _ | .logLevel, _
  | .aggregatorOpt, _ | .aggregator, _ => []
  | .metaOpt, value => value.toList.flatMap RulesetMeta.nodes
  | .metaBlock, value => value.nodes
  | .metaProperties, items => items.flatMap MetaProperty.nodes
  | .metaProperty, value => value.nodes
  | .withOpt, items => (items.getD []).flatMap Stmt.bindingNodes
  | .withSpaced, items | .withJoined, items => items.flatMap Stmt.bindingNodes
  | .withBinding, value => value.bindingNodes
  | .rules, items => items.flatMap Rule.nodes
  | .rule, value => value.nodes
  | .selectOpt, value => value.toList.flatMap RuleSelect.nodes
  | .ruleSelect, value => value.nodes
  | .withinOpt, value => value.toList.flatMap EventWithin.nodes
  | .loops, items => items.flatMap RuleForEach.nodes
  | .loop, value => value.nodes
  | .actionBlockOpt, value => value.toList.flatMap ActionBlock.nodes
  | .actionBlock, value => value.nodes
  | .postludeOpt, value => value.toList.flatMap RulePostlude.nodes
  | .postlude, value => value.nodes
  | .actionSet, value =>
      value.discriminant.toList.flatMap Expr.nodes ++ value.actions.flatMap Action.nodes
  | .actions, items => items.flatMap Action.nodes
  | .actionItem, value | .action, value | .actionCore, value => value.nodes
  | .eventOr, value | .eventAnd, value | .eventSequence, value | .eventBetween, value
  | .eventPrimary, value | .eventGroup, value => value.nodes
  | .eventBase, value => value.expression.nodes
  | .events, items => items.flatMap Event.nodes
  | .attributeMatches, items => items.flatMap AttributeMatch.nodes
  | .attributeMatch, value => value.nodes
  | .mapPairs, items => items.flatMap MapPair.nodes
  | .mapPair, value => value.nodes
  | .parameters, value => value.nodes
  | .parameterList, items => items.flatMap Parameter.nodes
  | .parameter, value => value.nodes
  | .arguments, value => value.nodes
  | .argumentList, items | .argumentSequence, items => items.flatMap Argument.nodes
  | .argument, value => value.nodes
  | .versionOpt, value | .forOpt, value | .attributesOpt, value | .whereOpt, value =>
      value.toList.flatMap Expr.nodes
  | .returnsOpt, items | .expressions, items | .arrayItems, items => items.flatMap Expr.nodes
  | .metaText, value | .declarationLeft, value | .actionName, value | .expression, value
  | .disjunction, value | .conjunction, value | .comparison, value | .sum, value
  | .product, value | .unary, value | .suffixed, value | .primary, value | .arrayLiteral, value
  | .mapLiteral, value | .function, value => value.nodes
  | .configuration, items | .globalOpt, items | .declarations, items | .plainDeclarations, items
  | .preludeOpt, items | .postludeBody, items | .postludeStatements, items
  | .postludeSequence, items | .statements, items | .statementSequence, items =>
      items.flatMap Stmt.nodes
  | .declarationItem, value | .declarationOrDefaction, value | .declaration, value
  | .defaction, value | .plainDeclaration, value | .postludeStatement, value
  | .postludeCore, value | .persistentAssignment, value | .clearStatement, value
  | .raiseStatement, value | .scheduleStatement, value | .logStatement, value
  | .errorStatement, value | .statement, value => value.nodes

/-- The expressions in what a token means as a member of a class. An identifier counts as
one, since it can be used like an expression. -/
@[simp] def Terminal.nodes : (tokens : Terminal) → tokens.Datum → List Expr
  | .identifier, name => [name.toExpr]
  | .number, value | .string, value | .regexp, value | .domainName, value
  | .persistent, value => value.nodes
  | .punct _, _ | .word _, _ | .symbol, _ | .chevron, _ => []

/-- The phrase stands for an expression, as those do that can be part of an expression, and
the left sides of declarations. -/
@[simp] def Nonterminal.Stands : (name : Nonterminal) → name.Value → Expr → Prop
  | .expression, value, expr | .disjunction, value, expr | .conjunction, value, expr
  | .comparison, value, expr | .sum, value, expr | .product, value, expr | .unary, value, expr
  | .suffixed, value, expr | .primary, value, expr | .arrayLiteral, value, expr
  | .mapLiteral, value, expr | .function, value, expr | .declarationLeft, value, expr =>
      value = expr
  | _, _, _ => False

section Gathering

variable (holds : Expr → Prop)

/-- A property of expressions holds of all expressions in a token, or in any value that a
template may get. -/
@[simp] def Terminal.Holds : (tokens : Terminal) → tokens.Datum → Prop
  | .chevron, parts => ∀ value, Traced.Yields parts value → ∀ node ∈ value.nodes, holds node
  | tokens, datum => ∀ node ∈ tokens.nodes datum, holds node

/-- What a curried function makes of parts, in which a property holds of all expressions. -/
def Gathers {Result : Type} (result : Result → Prop) :
    (symbols : List (Symbol Nonterminal Terminal)) →
      Curried Nonterminal.Value Terminal.Datum symbols Result → Prop
  | [], value => result value
  | .nonterminal name :: others, function =>
      ∀ value, (∀ node ∈ name.nodes value, holds node) → Gathers result others (function value)
  | .terminal tokens :: others, function =>
      ∀ datum, tokens.Holds holds datum → Gathers result others (function datum)

/-- All expressions in what a phrase stands for have a property, except that the phrase may
be an expression itself. -/
def HoldsBelow (name : Nonterminal) (span : Span) (value : name.Value) : Prop :=
  ∀ node ∈ name.nodes value, holds node ∨ name.Stands value node ∧ node.span = span

variable {holds}

theorem gathers_map_iff {Middle Result : Type} {result : Result → Prop} {after : Middle → Result}
    {symbols : List (Symbol Nonterminal Terminal)}
    {function : Curried Nonterminal.Value Terminal.Datum symbols Middle} :
    Gathers holds result symbols (Curried.map after symbols function) ↔
      Gathers holds (fun value => result (after value)) symbols function := by
  induction symbols with
  | nil => exact .rfl
  | cons symbol others ih =>
      cases symbol with
      | nonterminal name => exact forall_congr' fun value => imp_congr_right fun _ => ih
      | terminal tokens => exact forall_congr' fun datum => imp_congr_right fun _ => ih

/-- The property holds of all expressions in phrases and tokens. -/
def gathering (holds : Expr → Prop) : Invariant where
  value := fun name _ _ value => ∀ node ∈ name.nodes value, holds node
  datum := fun tokens _ datum => tokens.Holds holds datum

theorem Gathers.of_supplies {Result : Type} {result : Result → Prop}
    {symbols : List (Symbol Nonterminal Terminal)} {first last : Nat}
    {function : Curried Nonterminal.Value Terminal.Datum symbols Result} {value : Result}
    (gathers : Gathers holds result symbols function)
    (supplies : (gathering holds).Supplies symbols first last function value) : result value := by
  induction supplies with
  | nil => exact gathers
  | nonterminal _ known _ ih => exact ih (gathers _ known)
  | terminal known _ ih => exact ih (gathers _ known)

namespace Productions

/-- What a production makes holds no other expressions than its parts, but for one that
the phrase is itself. -/
def Gathered (holds : Expr → Prop) (entry : Entry) : Prop :=
  ∀ span, Gathers holds
    (fun computation => ∀ value, Traced.Yields computation value →
      HoldsBelow holds entry.lhs span value)
    entry.rhs (entry.action span)

theorem gathered_rule_iff {lhs : Nonterminal} {rhs : List (Symbol Nonterminal Terminal)}
    {action : Span → Curried Nonterminal.Value Terminal.Datum rhs lhs.Value} :
    Gathered holds (rule lhs rhs action) ↔
      ∀ span, Gathers holds (HoldsBelow holds lhs span) rhs (action span) := by
  refine forall_congr' fun span => gathers_map_iff.trans ?_
  have same : ∀ value : lhs.Value, (∀ result, Traced.Yields (pure value) result →
      HoldsBelow holds lhs span result) ↔ HoldsBelow holds lhs span value :=
    fun value => by simp only [Traced.yields_pure_iff, forall_eq']
  exact iff_of_eq (congrArg (fun result => Gathers holds result rhs (action span))
    (funext fun value => propext (same value)))

theorem gathered_template {lhs : Nonterminal} {value : Expr → lhs.Value}
    (same : ∀ expr, lhs.nodes (value expr) = expr.nodes) :
    Gathered holds (template lhs value) := by
  intro span parts held result yields node member
  obtain ⟨expr, inner, rfl⟩ := yields.of_map
  have member : node ∈ expr.nodes := same expr ▸ member
  exact .inl (held expr inner node member)

theorem gathered_guarded_iff {guard : Guard Leaf} {entry : Entry} :
    Gathered holds (guarded guard entry) ↔ Gathered holds entry :=
  .rfl

theorem gathered_same_iff {lhs name : Nonterminal} {value : name.Value → lhs.Value} :
    Gathered holds (same lhs name value) ↔
      ∀ span phrase, (∀ node ∈ name.nodes phrase, holds node) →
        HoldsBelow holds lhs span (value phrase) :=
  gathered_rule_iff

@[simp] theorem nodes_toEvent (event : BaseEvent) :
    event.toEvent.nodes = event.expression.nodes :=
  rfl

@[simp] theorem attributes_aggregate (event : BaseEvent) (aggregator : Option EventAggregator) :
    (event.aggregate aggregator).expression.attributes = event.expression.attributes := by
  cases aggregator <;> rfl

@[simp] theorem whereClause_aggregate (event : BaseEvent)
    (aggregator : Option EventAggregator) :
    (event.aggregate aggregator).expression.whereClause = event.expression.whereClause := by
  cases aggregator <;> rfl

theorem action_nodes (action : Action) :
    action.nodes = action.action.nodes ++ action.arguments.nodes := by
  cases action
  rfl

theorem gathered_rulesetRules (holds : Expr → Prop) :
    ∀ entry ∈ rulesetRules, Gathered holds entry := by
  simp only [rulesetRules, rulesets, descriptions, connections, connectionParts,
    List.forall_mem_append, List.forall_mem_cons, List.forall_mem_flatMap, List.map_cons,
    List.map_nil, gathered_guarded_iff, gathered_rule_iff, Gathers]
  repeat' apply And.intro
  all_goals
    first
    | exact gathered_template fun _ => rfl
    | simp +contextual [HoldsBelow, List.flatMap_append, Identifier.toExpr, or_imp, forall_and,
        -List.mem_flatMap, -Option.mem_toList]

theorem gathered_declarationRules (holds : Expr → Prop) :
    ∀ entry ∈ declarationRules, Gathered holds entry := by
  simp only [declarationRules, declarations, defactions, actionBlocks, actions, identifierLists,
    List.forall_mem_append, List.forall_mem_cons, gathered_same_iff, gathered_guarded_iff,
    gathered_rule_iff, Gathers]
  repeat' apply And.intro
  all_goals
    simp +contextual [HoldsBelow, List.flatMap_append, Identifier.toExpr, action_nodes, or_imp,
      forall_and, -List.mem_flatMap, -Option.mem_toList]

theorem gathered_ruleRules (holds : Expr → Prop) :
    ∀ entry ∈ ruleRules, Gathered holds entry := by
  simp only [ruleRules, rules, postludes, postludeStatements, effects, List.forall_mem_append,
    List.forall_mem_cons, List.forall_mem_map, gathered_same_iff, gathered_rule_iff, Gathers]
  repeat' apply And.intro
  all_goals
    simp +contextual [HoldsBelow, List.flatMap_append, or_imp, forall_and, -List.mem_flatMap,
      -Option.mem_toList]

theorem gathered_eventRules (holds : Expr → Prop) :
    ∀ entry ∈ eventRules, Gathered holds entry := by
  simp only [eventRules, eventOperators, eventOperands, baseEvents, eventGroups,
    List.forall_mem_append, List.forall_mem_cons, List.forall_mem_map, List.map_cons,
    List.map_nil, Prod.forall, gathered_same_iff, gathered_rule_iff, Gathers]
  repeat' apply And.intro
  all_goals
    simp +contextual [HoldsBelow, List.flatMap_append, or_imp, forall_and, -List.mem_flatMap,
      -Option.mem_toList]

theorem gathered_expressionRules (holds : Expr → Prop) :
    ∀ entry ∈ expressionRules, Gathered holds entry := by
  simp only [expressionRules, operators, suffixes, operands, collections, functions, calls,
    statements, List.forall_mem_append, List.forall_mem_cons, List.map_cons,
    List.map_nil, gathered_same_iff, gathered_rule_iff, Gathers]
  repeat' apply And.intro
  all_goals
    first
    | exact gathered_template fun _ => rfl
    | simp +contextual [HoldsBelow, List.flatMap_append, Identifier.toExpr, or_imp,
        -List.mem_flatMap, -Option.mem_toList]

/-- All productions of the language gather the expressions in their parts. -/
theorem gathered_of_mem (holds : Expr → Prop) : ∀ entry ∈ rulesetRules ++ declarationRules ++
    ruleRules ++ eventRules ++ expressionRules, Gathered holds entry := by
  simp only [List.forall_mem_append]
  exact ⟨⟨⟨⟨gathered_rulesetRules holds, gathered_declarationRules holds⟩,
    gathered_ruleRules holds⟩, gathered_eventRules holds⟩, gathered_expressionRules holds⟩

end Productions

section Derivations

variable {input : Input Leaf}
  (data : ∀ (index : Nat) (leaf : Leaf), input.tokens[index]? = some leaf → ∀ tokens datum,
    Terminal.read tokens leaf = some datum → tokens.Holds holds datum)
  (own : ∀ name first last tree value node,
    language.grammar.IsDerivation input.tokens name first last tree →
      Traced.Yields (language.evaluate input name tree) value → name.Stands value node →
        node.span = language.spanBetween input first last → holds node)

include data own

/-- A property of the expressions in tokens and of new expressions is one of all expressions
in the value of a derivation. -/
theorem holds_evaluate {name : Nonterminal} {first last : Nat} {tree : Derivation}
    (derivation : language.grammar.IsDerivation input.tokens name first last tree)
    {value : name.Value} (yields : Traced.Yields (language.evaluate input name tree) value) :
    ∀ node ∈ name.nodes value, holds node := by
  refine @Invariant.holds_evaluate (gathering holds) _ data ?_ _ _ _ _ derivation _ yields
  intro entry listed first last tree computation value derivation yields supplies yielded node
    member
  have gathers := Productions.gathered_of_mem holds entry listed
    (language.spanBetween input first last)
  rcases gathers.of_supplies supplies value yielded node member with held | ⟨stands, span⟩
  · exact held
  · exact own _ _ _ _ _ node derivation yields stands span

end Derivations

end Gathering

end Krl

import Krl.Proofs.Language.Evaluation
import Krl.Proofs.Syntax.Frames

/-!
# Productions nest spans in source order

A production makes a node over its own span, with nodes from its parts as fields, or passes on
nodes. So the nodes lie inside of one another and follow the source, as the parts do. The
exceptions are few: a statement that is an expression, a label before an action, a group of events
with an aggregator, and an empty list of parameters.
-/

namespace Krl

/-- The spans in what a phrase stands for, in the order of the source. -/
@[simp] def Nonterminal.frames : (name : Nonterminal) → name.Value → List Frame
  | .main, value => value.frames
  | .ruleset, value => [value.frame]
  | .rulesetId, value => [value.frame]
  | .rulesetIds, items => items.map RulesetId.frame
  | .ridWords, _ | .ruleState, _ | .timePeriod, _ | .logLevel, _ => []
  | .metaOpt, value => value.toList.map RulesetMeta.frame
  | .metaBlock, value => [value.frame]
  | .metaProperties, items => items.map MetaProperty.frame
  | .metaProperty, value => [value.frame]
  | .versionOpt, value | .forOpt, value | .attributesOpt, value | .whereOpt, value =>
      value.toList.map Expr.frame
  | .aliasOpt, value | .scheduleSettingOpt, value => value.toList.map Identifier.frame
  | .withOpt, value => (value.getD []).map Stmt.frame
  | .withSpaced, items | .withJoined, items | .configuration, items | .globalOpt, items
  | .declarations, items | .plainDeclarations, items | .preludeOpt, items
  | .postludeBody, items | .postludeStatements, items | .postludeSequence, items
  | .statements, items | .statementSequence, items => items.map Stmt.frame
  | .withBinding, value | .declarationItem, value | .declarationOrDefaction, value
  | .declaration, value | .defaction, value | .plainDeclaration, value
  | .postludeStatement, value | .postludeCore, value | .persistentAssignment, value
  | .clearStatement, value | .raiseStatement, value | .scheduleStatement, value
  | .logStatement, value | .errorStatement, value | .statement, value => [value.frame]
  | .identifiers, items | .settingOpt, items => items.map Identifier.frame
  | .returnsOpt, items | .expressions, items | .arrayItems, items => items.map Expr.frame
  | .rules, items => items.map Rule.frame
  | .rule, value => [value.frame]
  | .selectOpt, value => value.toList.map RuleSelect.frame
  | .ruleSelect, value => [value.frame]
  | .withinOpt, value => value.toList.map EventWithin.frame
  | .loops, items => items.map RuleForEach.frame
  | .loop, value => [value.frame]
  | .actionBlockOpt, value => value.toList.map ActionBlock.frame
  | .postludeOpt, value => value.toList.map RulePostlude.frame
  | .postlude, value => [value.frame]
  | .actionBlock, value => [value.frame]
  | .actionSet, value => value.discriminant.toList.map Expr.frame ++ value.actions.map Action.frame
  | .actions, items => items.map Action.frame
  | .actionItem, value | .action, value | .actionCore, value => [value.frame]
  | .eventOr, value | .eventAnd, value | .eventSequence, value | .eventBetween, value
  | .eventPrimary, value | .eventGroup, value => [value.frame]
  | .eventBase, value => [value.toEvent.frame]
  | .events, items => items.map Event.frame
  | .attributeMatches, items => items.map AttributeMatch.frame
  | .attributeMatch, value => [value.frame]
  | .aggregatorOpt, value => value.toList.map EventAggregator.frame
  | .aggregator, value => [value.frame]
  | .metaText, value | .declarationLeft, value | .actionName, value | .expression, value
  | .disjunction, value | .conjunction, value | .comparison, value | .sum, value
  | .product, value | .unary, value | .suffixed, value | .primary, value
  | .arrayLiteral, value | .mapLiteral, value | .function, value => [value.frame]
  | .mapPairs, items => items.map MapPair.frame
  | .mapPair, value => [value.frame]
  | .parameters, value => [value.frame]
  | .parameterList, items => items.map Parameter.frame
  | .parameter, value => [value.frame]
  | .arguments, value => [value.frame]
  | .argumentList, items | .argumentSequence, items => items.map Argument.frame
  | .argument, value => [value.frame]

/-- The spans in what a token means, if it is no template. -/
@[simp] def Terminal.frames : (tokens : Terminal) → tokens.Datum → List Frame
  | .punct _, _ | .chevron, _ => []
  | .word _, place => [.leaf place]
  | .identifier, name | .symbol, name => [name.frame]
  | .number, value | .string, value | .regexp, value | .domainName, value
  | .persistent, value => [value.frame]

/-- Phrases of the kind have tokens. -/
@[simp] def Nonterminal.isSolid : Nonterminal → Bool
  | .main | .metaOpt | .metaProperties | .versionOpt | .aliasOpt | .withOpt | .globalOpt
  | .declarations | .plainDeclarations | .returnsOpt | .rules | .ruleState | .selectOpt
  | .withinOpt | .loops | .preludeOpt | .actionBlockOpt | .postludeOpt | .postludeStatements
  | .forOpt | .attributesOpt | .scheduleSettingOpt | .settingOpt | .attributeMatches | .whereOpt
  | .aggregatorOpt | .parameters | .argumentList | .statements => false
  | _ => true

/-- Phrases of the kind have a span even if they have no tokens. -/
@[simp] def Nonterminal.isOpen : Nonterminal → Bool
  | .parameters => true
  | _ => false

/-- How far a production has been followed. -/
structure Progress where
  /-- The spans in the parts so far. -/
  frames : List Frame
  /-- The parts so far have tokens. -/
  covers : Bool
  /-- There may be an empty span behind the last token, where the next one begins. -/
  isOpen : Bool

namespace Progress

@[simp] def initial : Progress :=
  ⟨[], false, false⟩

/-- Behind a phrase. -/
@[simp] def phrase (before : Progress) (name : Nonterminal) (value : name.Value) : Progress :=
  ⟨before.frames ++ name.frames value, before.covers || name.isSolid,
    before.isOpen || name.isOpen⟩

/-- Behind a token, before which all spans end. -/
@[simp] def token (before : Progress) (tokens : Terminal) (datum : tokens.Datum) : Progress :=
  ⟨before.frames ++ tokens.frames datum, true, false⟩

end Progress

/-- Where the nodes in a field of a new node come from, given the spans in the parts of the
production. -/
inductive Drawn (frames : List Frame) : List Frame → Prop where
  | taken {part : List Frame} (sublist : part.Sublist frames) : Drawn frames part
  /-- A part gets another field, while its other fields stay. -/
  | inner {whole : Frame} {part : List Frame} (member : whole ∈ frames)
      (inside : part ∈ whole.parts) : Drawn frames part
  /-- A part gets another part as a field, up to which it reaches then. -/
  | stretched {first last : Frame} {parts : List (List Frame)}
      (sublist : [first, last].Sublist frames) (opens : first.kind = .phrase)
      (closes : last.kind = .phrase)
      (inside : ∀ part ∈ parts, part ∈ first.parts ∨ part = [last]) :
      Drawn frames [⟨.phrase, first.span.merge last.span, parts⟩]

/-- Where the spans in a phrase come from, given those in its parts and the span of the
production. -/
inductive Arranged (name : Nonterminal) (span : Span) (progress : Progress) :
    List Frame → Prop where
  | passed {frames : List Frame} (sublist : frames.Sublist progress.frames) :
      Arranged name span progress frames
  | made {kind : FrameKind} {parts : List (List Frame)} (covers : progress.covers = true)
      (drawn : ∀ part ∈ parts, Drawn progress.frames part) :
      Arranged name span progress [⟨kind, span, parts⟩]
  /-- A statement has the same span as the expression that it consists of. -/
  | wrapped {value : Expr} (member : value.frame ∈ progress.frames) :
      Arranged name span progress [⟨.phrase, value.span, [[value.frame]]⟩]
  | void (isOpen : name.isOpen = true) : Arranged name span progress [⟨.void, span, [[]]⟩]

/-- The spans in a phrase are made up of those in its parts. -/
structure Nested (name : Nonterminal) (span : Span) (progress : Progress) (value : name.Value) :
    Prop where
  covers : name.isSolid = true → progress.covers = true
  closed : progress.isOpen = false
  arranged : Arranged name span progress (name.frames value)

@[simp] theorem Expr.frame_toExpr (name : Identifier) : name.toExpr.frame = name.frame :=
  rfl

@[simp] theorem Identifier.span_toKeyword (name : Identifier) : name.toKeyword.span = name.span :=
  rfl

/-- An event reaches up to its aggregator, which becomes its last field. -/
theorem drawn_aggregate {frames : List Frame} {event : BaseEvent}
    {aggregator : Option EventAggregator}
    (sublist :
      (event.toEvent.frame :: aggregator.toList.map EventAggregator.frame).Sublist frames) :
    Drawn frames [(event.aggregate aggregator).toEvent.frame] := by
  cases aggregator with
  | none => exact .taken sublist
  | some aggregator =>
      refine .stretched sublist rfl rfl ?_
      simp [BaseEvent.aggregate, BaseEvent.toEvent]

namespace Productions

/-- A phrase leads on with its spans behind those so far. -/
def nestsPhrase (name : Nonterminal) (value : name.Value) (before after : Progress) : Prop :=
  after = before.phrase name value

/-- A token leads on with its spans behind those so far. -/
def nestsToken (tokens : Terminal) (datum : tokens.Datum) (before after : Progress) : Prop :=
  after = before.token tokens datum

/-- The spans in what a production makes are made up of those in its parts. -/
inductive Nests : Entry → Prop where
  | parts {entry : Entry} (makes : Makes nestsPhrase nestsToken .initial Nested entry) :
      Nests entry
  | template {lhs : Nonterminal} {value : Expr → lhs.Value}
      (same : ∀ expr, lhs.frames (value expr) = [expr.frame]) : Nests (template lhs value)

section Rules

variable {lhs : Nonterminal} {rhs : List (Symbol Nonterminal Terminal)}
  {action : Span → Curried Nonterminal.Value Terminal.Datum rhs lhs.Value}

theorem nests_rule
    (nests : ∀ span, Threads nestsPhrase nestsToken (Nested lhs span) rhs .initial (action span)) :
    Nests (rule lhs rhs action) :=
  .parts (makes_rule_iff.mpr nests)

theorem nests_guarded {guard : Guard Leaf}
    (nests : ∀ span, Threads nestsPhrase nestsToken (Nested lhs span) rhs .initial (action span)) :
    Nests (guarded guard (rule lhs rhs action)) :=
  .parts (makes_guarded_iff.mpr (makes_rule_iff.mpr nests))

end Rules

theorem nests_statement :
    Nests (rule .statement [the .expression] fun _ value => ⟨.expression value, value.span⟩) := by
  apply nests_rule
  rintro span value _ rfl
  exact ⟨fun _ => rfl, rfl, .wrapped (List.mem_singleton.mpr rfl)⟩

theorem nests_noParameters : Nests (rule .parameters [] fun span => ⟨[], span⟩) := by
  apply nests_rule
  intro span
  exact ⟨nofun, rfl, .void rfl⟩

/-- The labelled action has the fields of the action, and the label. -/
theorem nests_labelled :
    Nests (rule .action [token .identifier, mark .arrow, the .actionCore]
      fun span label _ action => { action with label := some label, span := span }) := by
  apply nests_rule
  rintro span label _ rfl _ _ rfl ⟨old, name, arguments, setting, place⟩ _ rfl
  refine ⟨fun _ => rfl, rfl, .made rfl ?_⟩
  have whole : (Action.mk old name arguments setting place).frame ∈
      [label.frame, (Action.mk old name arguments setting place).frame] := by simp
  simp only [List.forall_mem_cons]
  exact ⟨.taken (by simp), .inner whole (by simp), .inner whole (by simp), .inner whole (by simp),
    List.forall_mem_nil _⟩

theorem nests_group {text : String} {op : GroupOp} :
    Nests (rule .eventGroup
      [word text, token .number, mark .leftParen, the .eventBase, mark .rightParen,
        the .aggregatorOpt]
      fun span _ times _ event _ aggregator =>
        ⟨.group op times (event.aggregate aggregator).toEvent, span⟩) := by
  apply nests_rule
  rintro span _ _ rfl times _ rfl _ _ rfl event _ rfl _ _ rfl aggregator _ rfl
  refine ⟨fun _ => rfl, rfl, ?_⟩
  rw [Nonterminal.frames, Event.frame, EventKind.parts]
  refine .made rfl ?_
  simp only [List.forall_mem_cons]
  exact ⟨.taken (by simp), drawn_aggregate (by simp), List.forall_mem_nil _⟩

/-- The spans in whatever a production makes are made up of those in its parts. -/
theorem nests_of_mem : ∀ entry ∈ rulesetRules ++ declarationRules ++ ruleRules ++ eventRules ++
    expressionRules, Nests entry := by
  simp only [rulesetRules, rulesets, descriptions, connections, connectionParts, declarationRules,
    declarations, defactions, actionBlocks, actions, identifierLists, ruleRules, rules, postludes,
    postludeStatements, effects, eventRules, eventOperators, eventOperands, baseEvents,
    eventGroups, eventWords, expressionRules, operators, suffixes, operands, collections,
    functions, calls, statements, List.forall_mem_append, List.forall_mem_cons,
    List.forall_mem_map, List.forall_mem_flatMap, List.map_cons, List.map_nil]
  repeat' apply And.intro
  all_goals
    first
    | exact List.forall_mem_nil _
    | exact nests_statement
    | exact nests_noParameters
    | exact nests_labelled
    | exact nests_group
    | exact .template fun _ => rfl
    | intros
      first
      | apply nests_rule
      | apply nests_guarded
      simp only [Threads, nestsPhrase, nestsToken, forall_eq]
      intros
      refine ⟨by simp, rfl, ?_⟩
      -- The nodes are written out, with the spans in their fields.
      simp [BaseEvent.toEvent]
      -- Either the node is over the span of the production, or nodes are passed on.
      first
      | refine .made rfl ?_
        simp only [List.forall_mem_cons]
        repeat' apply And.intro
        all_goals first | exact List.forall_mem_nil _ | apply Drawn.taken
      | refine .passed ?_
      -- What is taken from the parts stands among them in the same order.
      repeat'
        first
        | exact .refl _
        | exact List.nil_sublist _
        | exact List.sublist_append_left _ _
        | refine List.Sublist.append (.refl _) ?_
        | refine List.Sublist.cons_cons _ ?_
        | refine List.sublist_append_of_sublist_right ?_
        | refine List.Sublist.cons _ ?_

end Productions

end Krl

import Krl.Proofs.Fragment.Reading
import Mathlib.Data.List.Forall2

/-!
# Reducers do what actions do

The table of reducers fits the table of productions: given fragments that are read as what an
action is given, each reducer makes a fragment that is read as what the action makes. It takes
only parts that are there, and they are what it asks for.
-/

namespace Krl

namespace Reducing

variable {α β : Type}

attribute [simp] piece option items identifier keyword

@[simp] theorem on_pure (value : α) (parts : List Fragment) :
    (pure value : Reducing α).on parts = pure value := by
  simp [on, StateT.run'_eq]

@[simp] theorem on_map (after : α → β) (computation : Reducing α) (parts : List Fragment) :
    (after <$> computation).on parts = after <$> computation.on parts := by
  simp [on, StateT.run'_eq]

@[simp] theorem on_liftM (computation : Traced α) (parts : List Fragment) :
    (liftM computation : Reducing α).on parts = computation := by
  simp [on, StateT.run'_eq]

@[simp] theorem on_take_bind (index : Nat) (next : Fragment → Reducing β)
    (parts : List Fragment) :
    (take index >>= next).on parts =
      match parts[index]? with
      | some part => (next part).on (parts.set index .nothing)
      | none => throw (.internal ("missing child " ++ toString index)) := by
  cases found : parts[index]? with
  | some part => simp [on, take, StateT.run'_eq, found]
  | none =>
      simp only [on, take, StateT.run'_eq, bind_assoc, StateT.run_bind, StateT.run_get, pure_bind,
        found]
      rfl

@[simp] theorem on_take (index : Nat) (parts : List Fragment) :
    (take index).on parts =
      match parts[index]? with
      | some part => pure part
      | none => throw (.internal ("missing child " ++ toString index)) := by
  rw [← bind_pure (take index), on_take_bind]
  rfl

theorem on_ofExcept_bind (outcome : Except ParseError α) (next : α → Reducing β)
    (parts : List Fragment) :
    ((ofExcept outcome : Reducing α) >>= next).on parts =
      match outcome with
      | .ok value => (next value).on parts
      | .error error => throw error := by
  cases outcome with
  | ok value => simp
  | error error => rfl

@[simp] theorem on_read_bind (index : Nat) (reading : Fragment → Except ParseError α)
    (next : α → Reducing β) (parts : List Fragment) :
    (read index reading >>= next).on parts =
      match parts[index]? with
      | some part =>
          match reading part with
          | .ok value => (next value).on (parts.set index .nothing)
          | .error error => throw error
      | none => throw (.internal ("missing child " ++ toString index)) := by
  rw [read, bind_assoc, on_take_bind]
  simp only [on_ofExcept_bind]

@[simp] theorem on_read (index : Nat) (reading : Fragment → Except ParseError α)
    (parts : List Fragment) :
    (read index reading).on parts =
      match parts[index]? with
      | some part =>
          match reading part with
          | .ok value => pure value
          | .error error => throw error
      | none => throw (.internal ("missing child " ++ toString index)) := by
  rw [← bind_pure (read index reading), on_read_bind]
  rfl

@[simp] theorem on_word_bind (index : Nat) (next : String → Reducing β) (parts : List Fragment) :
    (word index >>= next).on parts =
      match parts[index]? with
      | some part =>
          match Fragment.into .token part with
          | .ok leaf =>
              match leaf.word with
              | .ok text => (next text).on (parts.set index .nothing)
              | .error error => throw error
          | .error error => throw error
      | none => throw (.internal ("missing child " ++ toString index)) := by
  rw [word, bind_assoc, piece, on_read_bind]
  simp only [on_ofExcept_bind]
  cases parts[index]? with
  | none => rfl
  | some part =>
      dsimp only
      cases Fragment.into .token part with
      | error error => rfl
      | ok leaf =>
          dsimp only
          cases leaf.word <;> rfl

@[simp] theorem on_word (index : Nat) (parts : List Fragment) :
    (word index).on parts =
      match parts[index]? with
      | some part =>
          match Fragment.into .token part with
          | .ok leaf =>
              match leaf.word with
              | .ok text => pure text
              | .error error => throw error
          | .error error => throw error
      | none => throw (.internal ("missing child " ++ toString index)) := by
  rw [← bind_pure (word index), on_word_bind]
  rfl

@[simp] theorem on_known_bind (what : String) (table : String → Option α) (text : String)
    (next : α → Reducing β) (parts : List Fragment) :
    (known what table text >>= next).on parts =
      match table text with
      | some value => (next value).on parts
      | none => throw (.internal ("unknown " ++ what ++ " `" ++ text ++ "`")) := by
  rw [known]
  cases table text with
  | some value => simp
  | none => rfl

@[simp] theorem on_known (what : String) (table : String → Option α) (text : String)
    (parts : List Fragment) :
    (known what table text).on parts =
      match table text with
      | some value => pure value
      | none => throw (.internal ("unknown " ++ what ++ " `" ++ text ++ "`")) := by
  rw [← bind_pure (known what table text), on_known_bind]
  rfl

end Reducing

namespace Productions

open Traced

/-- Whatever fragments stand for the arguments of a curried function, its result is as it should be
for these fragments. -/
def Mirrors {Result : Type} (result : List Fragment → Result → Prop) :
    (symbols : List (Symbol Nonterminal Terminal)) →
      Curried Nonterminal.Value Terminal.Datum symbols Result → Prop
  | [], value => result [] value
  | .nonterminal name :: others, function =>
      ∀ value part, name.reading part = .ok value →
        Mirrors (fun parts => result (part :: parts)) others (function value)
  | .terminal tokens :: others, function =>
      ∀ datum leaf, tokens.Gives leaf datum →
        Mirrors (fun parts => result (.piece .token leaf :: parts)) others (function datum)

theorem mirrors_map_iff {Middle Result : Type} {after : Middle → Result}
    {result : List Fragment → Result → Prop} {symbols : List (Symbol Nonterminal Terminal)}
    {function : Curried Nonterminal.Value Terminal.Datum symbols Middle} :
    Mirrors result symbols (Curried.map after symbols function) ↔
      Mirrors (fun parts value => result parts (after value)) symbols function := by
  induction symbols generalizing result with
  | nil => exact .rfl
  | cons symbol others ih =>
      cases symbol with
      | nonterminal name =>
          exact forall_congr' fun value => forall_congr' fun part => imp_congr_right fun _ => ih
      | terminal tokens =>
          exact forall_congr' fun datum => forall_congr' fun leaf => imp_congr_right fun _ => ih

theorem Mirrors.mono {Result : Type} {result result' : List Fragment → Result → Prop}
    {symbols : List (Symbol Nonterminal Terminal)}
    {function : Curried Nonterminal.Value Terminal.Datum symbols Result}
    (mirrors : Mirrors result symbols function)
    (weaker : ∀ parts value, result parts value → result' parts value) :
    Mirrors result' symbols function := by
  induction symbols generalizing result result' with
  | nil => exact weaker [] _ mirrors
  | cons symbol others ih =>
      cases symbol with
      | nonterminal name =>
          exact fun value part read =>
            ih (mirrors value part read) fun parts => weaker (part :: parts)
      | terminal tokens =>
          exact fun datum leaf gives => ih (mirrors datum leaf gives) fun parts => weaker (_ :: parts)

/-- The reducer makes a fragment that is read as what the action makes, of fragments that are read
as the arguments of the action. A phrase of one token covers the bytes of the token. -/
def Performs (reducer : Reducer) (entry : Entry) : Prop :=
  ∀ span, Mirrors
    (fun parts computation =>
      (∀ tokens leaf, entry.rhs = [.terminal tokens] → parts = [.piece .token leaf] →
        span = leaf.lexeme.span) →
      ReadsAs entry.lhs.reading ((reducer span).on parts) computation)
    entry.rhs (entry.action span)

/-- What is made of the fragments of the parts is read as the value of the phrase. -/
theorem performs_rule {reducer : Reducer} {lhs : Nonterminal}
    {rhs : List (Symbol Nonterminal Terminal)}
    {action : Span → Curried Nonterminal.Value Terminal.Datum rhs lhs.Value}
    (makes : ∀ span, Mirrors
      (fun parts value =>
        (do ofExcept (lhs.reading (← (reducer span).on parts))) = (pure value : Traced lhs.Value))
      rhs (action span)) :
    Performs reducer (rule lhs rhs action) :=
  fun span => mirrors_map_iff.mpr ((makes span).mono fun _ _ same _ => .of_eq_pure same)

theorem performs_guarded_iff {reducer : Reducer} {guard : Guard Leaf} {entry : Entry} :
    Performs reducer (guarded guard entry) ↔ Performs reducer entry :=
  .rfl

/-- To pass on the only part is to read it in another way. -/
theorem performs_pass {lhs name : Nonterminal} {value : name.Value → lhs.Value}
    (reads : ∀ part content, name.reading part = .ok content →
      lhs.reading part = .ok (value content)) :
    Performs (Reducers.pass 0) (rule lhs [the name] fun _ content => value content) :=
  fun _ content part read _ => .pure (reads part content read)

/-- To pass on the part behind a token is to read it in another way. -/
theorem performs_passBehind {lhs name : Nonterminal} {tokens : Terminal}
    {value : name.Value → lhs.Value}
    (reads : ∀ part content, name.reading part = .ok content →
      lhs.reading part = .ok (value content)) :
    Performs (Reducers.pass 1)
      (rule lhs [token tokens, the name] fun _ _ content => value content) :=
  fun _ _ _ _ content part read _ => .pure (reads part content read)

/-- The parts of a template are parsed, and nothing else can fail. -/
theorem performs_template {lhs : Nonterminal} {value : Expr → lhs.Value}
    (reads : ∀ expr, lhs.reading (.piece .expression expr) = .ok (value expr)) :
    Performs Reducers.template (template lhs value) := by
  intro span datum leaf (gives : datum = do return ⟨.chevron (← leaf.template), _⟩) covers
  obtain rfl := covers .chevron leaf rfl rfl
  have made : (Reducers.template leaf.lexeme.span).on [.piece .token leaf] = do
      return .piece .expression ⟨.chevron (← leaf.template), leaf.lexeme.span⟩ := by
    simp [Reducers.template]
  subst gives
  rw [made]
  show ReadsAs lhs.reading _ (value <$> _)
  rw [map_eq_pure_bind, bind_assoc]
  simp only [pure_bind]
  exact .after leaf.template fun _ => .pure (reads _)

/-- The aggregator of a group is put into the single event that the group is of. -/
@[simp] theorem aggregated_toEvent (event : BaseEvent) (aggregator : Option EventAggregator) :
    Reducers.aggregated event.toEvent aggregator = pure (event.aggregate aggregator).toEvent := by
  cases aggregator <;> rfl

section Tables

open Fragment

/-- The reducers of rulesets do what the actions do. -/
theorem performs_rulesetRules : List.Forall₂ Performs Reducers.rulesetRules rulesetRules := by
  simp only [Reducers.rulesetRules, rulesetRules, Reducers.rulesets, rulesets,
    Reducers.descriptions, descriptions, Reducers.connections, connections,
    Reducers.connectionParts, connectionParts, performs_guarded_iff, List.flatMap_cons,
    List.flatMap_nil, List.append_nil, List.map_cons, List.map_nil, List.cons_append,
    List.nil_append, List.reduceReplicate, List.forall₂_cons]
  repeat' apply And.intro
  -- Most productions pass a part on. For the others the parts are put in and the reducer is run.
  all_goals
    first
    | exact .nil
    | with_reducible apply performs_pass
      first
      | exact fun _ _ read => read
      | exact fun _ _ => intoOption_of_ok fun _ same => by cases same
    | with_reducible apply performs_passBehind
      exact fun _ _ => intoOption_of_ok fun _ same => by cases same
    | with_reducible apply performs_template
      exact fun _ => rfl
    | refine performs_rule fun span => ?_
      simp only [Mirrors, Terminal.Gives, Nonterminal.reading, intoListOf_eq_ok_iff,
        forall_exists_index, and_imp, forall_apply_eq_imp_iff₂]
      intros
      simp_all [Reducers.pass, Reducers.listEmpty, Reducers.listFirst, Reducers.listPush,
        Reducers.listPair, Reducers.nothing, Reducers.identifierAt, Reducers.string,
        Reducers.literal, Reducers.programRuleset, Reducers.programStatements, Reducers.ruleset,
        Reducers.rulesetId, Reducers.text, Reducers.textJoin, Reducers.metaBlock,
        Reducers.canonicalKey, Reducers.metaExpression, Reducers.metaKey, Reducers.metaLogging,
        Reducers.metaUse, Reducers.metaErrors, Reducers.metaProvides, Reducers.metaProvidesKeys,
        Reducers.metaShares, Reducers.metaConfigure, Reducers.version, Reducers.binding,
        Identifier.toKeyword, Punct.text, Punct.chars]

/-- The reducers of declarations and actions do what the actions do. -/
theorem performs_declarationRules :
    List.Forall₂ Performs Reducers.declarationRules declarationRules := by
  simp only [Reducers.declarationRules, declarationRules, Reducers.declarations, declarations,
    Reducers.defactions, defactions, Reducers.actionBlocks, actionBlocks, Reducers.actions, actions,
    Reducers.identifierLists, identifierLists, same, performs_guarded_iff, List.cons_append,
    List.nil_append, List.forall₂_cons]
  repeat' apply And.intro
  all_goals
    first
    | exact .nil
    | with_reducible apply performs_pass
      exact fun _ _ read => read
    | refine performs_rule fun span => ?_
      simp only [Mirrors, Terminal.Gives, Nonterminal.reading, intoListOf_eq_ok_iff,
        forall_exists_index, and_imp, forall_apply_eq_imp_iff₂]
      intros
      simp_all [Reducers.pass, Reducers.listEmpty, Reducers.listFirst, Reducers.listPush,
        Reducers.nothing, Reducers.name, Reducers.literal, Reducers.domainName, Reducers.memberDot,
        Reducers.memberAt, Reducers.declaration, Reducers.defaction, Reducers.block,
        Reducers.actionBlock, Reducers.actionBlockIf, Reducers.actionSetSingle,
        Reducers.actionSetOf, Reducers.actionSetChoose, Reducers.action, Reducers.actionLabeled]

/-- The reducers of rules do what the actions do. -/
theorem performs_ruleRules : List.Forall₂ Performs Reducers.ruleRules ruleRules := by
  simp only [Reducers.ruleRules, ruleRules, Reducers.rules, rules, Reducers.postludes, postludes,
    Reducers.postludeStatements, postludeStatements, Reducers.effects, effects, same, timePeriods,
    LogLevel.all, List.map_cons, List.map_nil, List.cons_append, List.nil_append,
    List.reduceReplicate, List.forall₂_cons]
  repeat' apply And.intro
  all_goals
    first
    | exact .nil
    | with_reducible apply performs_pass
      first
      | exact fun _ _ read => read
      | exact fun _ _ => intoOption_of_ok fun _ same => by cases same
    | with_reducible apply performs_passBehind
      exact fun _ _ => intoOption_of_ok fun _ same => by cases same
    | refine performs_rule fun span => ?_
      simp only [Mirrors, Terminal.Gives, Nonterminal.reading, intoListOf_eq_ok_iff,
        forall_exists_index, and_imp, forall_apply_eq_imp_iff₂]
      intros
      simp_all [Reducers.pass, Reducers.listEmpty, Reducers.listFirst, Reducers.listPush,
        Reducers.nothing, Reducers.identifierAt, Reducers.text, Reducers.rule, Reducers.ruleState,
        Reducers.ruleSelect, Reducers.within, Reducers.loop, Reducers.postlude,
        Reducers.postlude.body, Reducers.postludeAlways, Reducers.postludePhase,
        Reducers.guardOnFinal, Reducers.guardIf, Reducers.last, Reducers.persistentAssign,
        Reducers.persistentAssignPath, Reducers.clear, Reducers.raise, Reducers.schedule,
        Reducers.logStatement, Reducers.errorStatement, Reducers.logLevel, LogLevel.ofWord?,
        LogLevel.all, LogLevel.word]

/-- The reducers of events do what the actions do. -/
theorem performs_eventRules : List.Forall₂ Performs Reducers.eventRules eventRules := by
  simp only [Reducers.eventRules, eventRules, Reducers.eventOperators, eventOperators,
    Reducers.eventOperands, eventOperands, Reducers.baseEvents, baseEvents, Reducers.eventGroups,
    eventGroups, same, eventWords, AggregateOp.all, List.map_cons, List.map_nil, List.cons_append,
    List.nil_append, List.reduceReplicate, List.forall₂_cons]
  repeat' apply And.intro
  all_goals
    first
    | exact .nil
    | with_reducible apply performs_pass
      first
      | exact fun _ _ read => read
      | exact fun _ _ => intoOption_of_ok fun _ same => by cases same
    | with_reducible apply performs_passBehind
      exact fun _ _ => intoOption_of_ok fun _ same => by cases same
    | refine performs_rule fun span => ?_
      simp only [Mirrors, Terminal.Gives, Nonterminal.reading, intoListOf_eq_ok_iff,
        forall_exists_index, and_imp, forall_apply_eq_imp_iff₂]
      intros
      simp_all [Reducers.pass, Reducers.listEmpty, Reducers.listPush, Reducers.listPair,
        Reducers.nothing, Reducers.eventInfix, Reducers.eventBetween, Reducers.eventNotBetween,
        Reducers.eventPrefix, Reducers.eventAny, Reducers.eventExpression, Reducers.attributeMatch,
        Reducers.eventGroup, Reducers.aggregator, EventOp.ofWord?, EventOp.words, EventOp.text,
        AggregateOp.ofWord?, AggregateOp.all, AggregateOp.word]

/-- The reducers of expressions and statements do what the actions do. -/
theorem performs_expressionRules :
    List.Forall₂ Performs Reducers.expressionRules expressionRules := by
  simp only [Reducers.expressionRules, expressionRules, Reducers.operators, operators,
    Reducers.suffixes, suffixes, Reducers.operands, operands, Reducers.collections, collections,
    Reducers.functions, functions, Reducers.calls, calls, Reducers.statements, statements, same,
    List.map_cons, List.map_nil, List.cons_append, List.nil_append, List.reduceReplicate,
    List.forall₂_cons]
  repeat' apply And.intro
  all_goals
    first
    | exact .nil
    | with_reducible apply performs_pass
      exact fun _ _ read => read
    | with_reducible apply performs_template
      exact fun _ => rfl
    | refine performs_rule fun span => ?_
      simp only [Mirrors, Terminal.Gives, Nonterminal.reading, intoListOf_eq_ok_iff,
        forall_exists_index, and_imp, forall_apply_eq_imp_iff₂]
      intros
      simp_all [Reducers.pass, Reducers.listEmpty, Reducers.listFirst, Reducers.listPush,
        Reducers.conditional, Reducers.binary, Reducers.unary, Reducers.memberDot,
        Reducers.memberAt, Reducers.application, Reducers.arguments, Reducers.argumentPositional,
        Reducers.argumentNamed, Reducers.function, Reducers.parametersEmpty, Reducers.parameters,
        Reducers.parameter, Reducers.parameterDefault, Reducers.name, Reducers.literal,
        Reducers.domainName, Reducers.number, Reducers.string, Reducers.regexp, Reducers.boolean,
        Reducers.arrayEmpty, Reducers.array, Reducers.mapEmpty, Reducers.map, Reducers.mapPair,
        Reducers.statementExpression, BinaryOp.ofText?, BinaryOp.all, BinaryOp.text,
        UnaryOp.ofText?, UnaryOp.all, UnaryOp.text, Punct.text, Punct.chars]

/-- Every reducer does what the action in its place does. -/
theorem performs_all : List.Forall₂ Performs Reducers.all language.reductions :=
  List.rel_append
    (List.rel_append
      (List.rel_append (List.rel_append performs_rulesetRules performs_declarationRules)
        performs_ruleRules)
      performs_eventRules)
    performs_expressionRules

end Tables

end Productions

end Krl

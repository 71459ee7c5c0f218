import Krl.Proofs.Grammar.Pieces
import Krl.Proofs.Language.Calls
import Krl.Proofs.Parse.Ambiguity
import Krl.Proofs.Parse.Templates
import Krl.Proofs.Syntax.Groups
import Krl.Proofs.Token.Boundaries

/-!
# Aggregators of groups

What reads as the call of an aggregator right after a group of events is the aggregator of the
group, and is stored there. No action takes its place.
-/

namespace Krl

open Grammar Distinction

/-- The groups of events in what a phrase stands for. -/
def Nonterminal.groupsIn : (name : Nonterminal) → name.Value → List Event
  | .main, value => value.groups
  | .ruleset, value => value.groups
  | .rules, items => items.flatMap Rule.groups
  | .rule, value => value.groups
  | .selectOpt, value => value.toList.flatMap fun select => select.event.groups
  | .ruleSelect, value => value.event.groups
  | .eventOr, value | .eventAnd, value | .eventSequence, value | .eventBetween, value
  | .eventPrimary, value | .eventGroup, value => value.groups
  | .events, items => items.flatMap Event.groups
  | _, _ => []

/-- The actions in what a phrase stands for. -/
def Nonterminal.actionsIn : (name : Nonterminal) → name.Value → List Action
  | .main, value => value.actions
  | .ruleset, value => value.actions
  | .rules, items => items.flatMap Rule.actions
  | .rule, value => value.actions
  | .globalOpt, items | .preludeOpt, items | .declarations, items => items.flatMap Stmt.actions
  | .declarationItem, value | .declarationOrDefaction, value | .declaration, value
  | .defaction, value => value.actions
  | .actionBlockOpt, value => value.toList.flatMap ActionBlock.actions
  | .actionBlock, value => value.actions
  | .actionSet, value => value.actions
  | .actions, items => items
  | .actionItem, value | .action, value | .actionCore, value => [value]
  | _, _ => []

theorem Nonterminal.holds_nothing {name : Nonterminal} (other : name ∉ holding)
    (value : name.Value) : name.groupsIn value = [] ∧ name.actionsIn value = [] := by
  cases name <;> first | exact ⟨rfl, rfl⟩ | exact absurd (by decide) other

/-- At some tokens a group of events stands: its word that counts and the number behind it, and
its parentheses. What is called right behind these is its aggregator, at its place. -/
structure Event.Stands (tokens : List Leaf) (event : Event) (counter close : Nat) : Prop where
  starts : ∃ leaf, tokens[counter]? = some leaf ∧ leaf.lexeme.start = event.span.start
  counts : ∃ text ∈ ["count", "repeat"], tokenAt? tokens counter = some (.symbol text)
  number : ∃ value, tokenAt? tokens (counter + 1) = some (.number value)
  opens : OpensBefore tokens (counter + 2) (close + 1)
  closes : tokenAt? tokens close = some (.punct .rightParen)
  stored : ∀ op, CallsAggregator tokens (close + 1) op → ∃ aggregator leaf,
    event.aggregator? = some aggregator ∧ aggregator.op = op ∧
      tokens[close + 1]? = some leaf ∧ leaf.lexeme.start = aggregator.span.start

/-- An action without a label begins where the guard lets it. -/
def Action.Stands (input : Input Leaf) (action : Action) : Prop :=
  action.label = none → ∃ first last, SpanOf input first last action.span ∧
    notAfterGroup input.tokens first last = true

/-- All groups and actions in what a phrase stands for are as they should be. -/
def Nonterminal.Settled (input : Input Leaf) (name : Nonterminal) (value : name.Value) : Prop :=
  (∀ event ∈ name.groupsIn value, ∃ counter close, event.Stands input.tokens counter close) ∧
    ∀ action ∈ name.actionsIn value, action.Stands input

/-- The tokens from one index up to another are those of an aggregator. -/
def EventAggregator.Stands (input : Input Leaf) (aggregator : EventAggregator) (first last : Nat) :
    Prop :=
  CallsAggregator input.tokens first aggregator.op ∧ SpanOf input first last aggregator.span

/-- No call of an aggregator is seen at an index. -/
def UncalledAt (tokens : List Leaf) (here : Nat) : Prop :=
  here ≤ tokens.length ∧ (scene tokens).Sees (beyond tokens) uncalled here

/-- What is known of a phrase, if no call of an aggregator is seen behind it. -/
def Nonterminal.Known (input : Input Leaf) :
    (name : Nonterminal) → (first last : Nat) → name.Value → Prop
  | .eventBase, _, _, value => value.expression.aggregator = none
  | .aggregator, first, last, value => value.Stands input first last
  | .aggregatorOpt, first, last, none => first = last
  | .aggregatorOpt, first, last, some value => value.Stands input first last
  | name, _, last, value => UncalledAt input.tokens last → name.Settled input value

/-- What is known of phrases and tokens about groups of events and actions. -/
def knowing (input : Input Leaf) : Invariant where
  value name first last value :=
    (∃ tree, language.grammar.IsDerivation input.tokens name first last tree) ∧
      name.Known input first last value
  datum tokens index datum := (input.tokens[index]?).bind tokens.read = some datum

/-- The same where no call of an aggregator is seen behind any phrase. -/
def settling (input : Input Leaf) : Invariant where
  value name _ _ value := name.Settled input value
  datum _ _ _ := True

variable {input : Input Leaf}

theorem Nonterminal.settled_of_not_mem {name : Nonterminal} (other : name ∉ holding)
    (value : name.Value) : name.Settled input value := by
  obtain ⟨noGroups, noActions⟩ := name.holds_nothing other value
  rw [Nonterminal.Settled, noGroups, noActions]
  exact ⟨List.forall_mem_nil _, List.forall_mem_nil _⟩

/-- The phrases of which something else is known. -/
def particular : List Nonterminal :=
  [.eventBase, .aggregator, .aggregatorOpt]

theorem Nonterminal.known_iff {name : Nonterminal} (ordinary : name ∉ particular)
    {first last : Nat} {value : name.Value} : name.Known input first last value ↔
      (UncalledAt input.tokens last → name.Settled input value) := by
  cases name <;> first | exact .rfl | exact absurd (by decide) ordinary

theorem Nonterminal.settled_of_known {name : Nonterminal} {first last : Nat} {value : name.Value}
    (known : name.Known input first last value)
    (uncalled : name ∈ holding → UncalledAt input.tokens last) : name.Settled input value := by
  by_cases holds : name ∈ holding
  · have apart : ∀ name ∈ holding, name ∉ particular := by decide
    exact (known_iff (apart name holds)).mp known (uncalled holds)
  · exact settled_of_not_mem holds value

/-- If no call of an aggregator is seen behind some phrases, none is seen behind any of them. The
induction is on the phrases. -/
theorem Invariant.Supplies.settles {Result : Type} {symbols : List (Symbol Nonterminal Terminal)}
    {first last : Nat} {function : Curried Nonterminal.Value Terminal.Datum symbols Result}
    {value : Result} (supplies : (knowing input).Supplies symbols first last function value)
    (remains : language.grammar.Remains input.tokens symbols first)
    (behind : uncalledBehind symbols = true) (seen : UncalledAt input.tokens last) :
    (settling input).Supplies symbols first last function value ∧
      ∃ trees, language.grammar.Derives input.tokens symbols first last trees := by
  induction supplies with
  | nil => exact ⟨.nil, [], .nil⟩
  | @nonterminal name others first middle last function part result onward known rest ih =>
      obtain ⟨⟨tree, derivation⟩, known⟩ := known
      rw [uncalledBehind, Bool.and_eq_true, Bool.or_eq_true] at behind
      have next := remains.next derivation
      obtain ⟨settled, trees, derived⟩ := ih next behind.2 seen
      refine ⟨.nonterminal onward (Nonterminal.settled_of_known known fun holds => ?_) settled,
        tree :: trees, derives_nonterminal_cons_iff.mpr ⟨_, _, _, derivation, derived, rfl⟩⟩
      -- The mask carries what is seen behind the other symbols back to where they begin.
      have contained := behind.1.resolve_left (by simp [holds])
      exact ⟨Nat.le_trans derived.le seen.1,
        (derived.sees covered heeded_scene next (Nat.le_succ_of_le seen.1) seen.2).mono
          (beq_iff_eq.mp contained)⟩
  | @terminal tokens others here last function datum result known rest ih =>
      obtain ⟨leaf, found, read⟩ := Option.bind_eq_some_iff.mp known
      have accepted : language.grammar.accepts tokens leaf = true :=
        Option.isSome_iff_exists.mpr ⟨datum, read⟩
      obtain ⟨settled, trees, derived⟩ := ih (remains.next (.leaf found accepted .nil)) behind seen
      exact ⟨.terminal trivial settled, _, .leaf found accepted derived⟩

namespace Productions

/-- What a production makes is known to be as it should be, if this is known of the parts. -/
def Knows (input : Input Leaf) (entry : Entry) : Prop :=
  ∀ first last tree computation value,
    language.grammar.IsDerivation input.tokens entry.lhs first last tree →
      (knowing input).Supplies entry.rhs first last
        (entry.action (language.spanBetween input first last)) computation →
          Traced.Yields computation value → entry.lhs.Known input first last value

/-- What a production makes holds no other groups and actions than its parts, if any. -/
structure PassesSettled (input : Input Leaf) (entry : Entry) : Prop where
  ordinary : entry.lhs ∉ particular
  makes : entry.lhs ∈ holding →
    Makes (fun name value (_ _ : Unit) => name.Settled input value) (fun _ _ _ _ => True) ()
      (fun name _ _ value => name.Settled input value) entry

theorem knows_of_passes {entry : Entry} (listed : entry ∈ language.reductions)
    (passes : PassesSettled input entry) : Knows input entry := by
  intro first last tree computation value _ supplies yields
  rw [Nonterminal.known_iff passes.ordinary]
  intro uncalled
  by_cases holds : entry.lhs ∈ holding
  · have production : entry.toProduction ∈ language.grammar.productions :=
      List.mem_map_of_mem listed
    have remains := remains_rhs input.tokens production first
    have settled := (supplies.settles remains (uncalledBehind_of_mem production holds)
      uncalled).1
    let reached : Unit → Nat → Prop := fun _ _ => True
    have begins : reached () first := trivial
    obtain ⟨_, _, made⟩ := settled.threads
      (fun _ _ _ _ state known _ => ⟨state, known, trivial⟩)
      (fun _ _ _ state _ _ => ⟨state, trivial, trivial⟩) begins (passes.makes holds _)
    exact made value yields
  · exact Nonterminal.settled_of_not_mem holds value

theorem passes_of_not_mem {entry : Entry} (other : entry.lhs ∉ holding)
    (ordinary : entry.lhs ∉ particular) : PassesSettled input entry :=
  ⟨ordinary, fun holds => absurd holds other⟩

theorem token_of_word {text : String} {index : Nat} {span : Span}
    (read : (knowing input).datum (.word text) index span) :
    tokenAt? input.tokens index = some (.symbol text) := by
  obtain ⟨leaf, found, read⟩ := Option.bind_eq_some_iff.mp read
  rw [tokenAt?, found, Option.map_some, Terminal.token_of_word (Option.isSome_of_eq_some read)]

theorem token_of_mark {mark : Punct} {index : Nat} {sign : Unit}
    (read : (knowing input).datum (.punct mark) index sign) :
    tokenAt? input.tokens index = some (.punct mark) := by
  obtain ⟨leaf, found, read⟩ := Option.bind_eq_some_iff.mp read
  rw [tokenAt?, found, Option.map_some, Terminal.token_of_punct (Option.isSome_of_eq_some read)]

theorem token_of_number {index : Nat} {number : Expr}
    (read : (knowing input).datum .number index number) :
    ∃ value, tokenAt? input.tokens index = some (.number value) := by
  obtain ⟨⟨⟨token, start, stop⟩, parts⟩, found, read⟩ := Option.bind_eq_some_iff.mp read
  rw [tokenAt?, found]
  cases token <;> cases read
  exact ⟨_, rfl⟩

/-- An event has no aggregator before it gets that of the group around it. -/
theorem knows_eventBase : Knows input
    (rule .eventBase
      [token .identifier, token .identifier, the .attributeMatches, the .whereOpt,
        the .settingOpt]
      fun span domain type attributes test setting =>
        ⟨⟨domain, type, attributes, test, setting, none⟩, span⟩) := by
  intro first last tree computation value _ supplies yields
  rcases supplies with _ | _ | ⟨_, _ | _ | ⟨_, _ | ⟨_, _, _ | ⟨_, _, _ | ⟨_, _, ⟨⟩⟩⟩⟩⟩⟩
  cases Traced.yields_pure_iff.mp yields
  rfl

/-- An aggregator stands where it is called. -/
theorem knows_aggregator (op : AggregateOp) : Knows input
    (rule .aggregator [word op.word, mark .leftParen, the .identifiers, mark .rightParen]
      fun span _ _ names _ => ⟨op, names, span⟩) := by
  intro first last tree computation value derivation supplies yields
  rcases supplies with _ | _ | ⟨name, rest⟩
  have nonempty : first < last := rest.le
  rcases rest with _ | _ | ⟨opens, _ | ⟨_, _, _ | _ | ⟨_, ⟨⟩⟩⟩⟩
  cases Traced.yields_pure_iff.mp yields
  exact ⟨⟨token_of_word name, token_of_mark opens⟩,
    .between nonempty (derivation.stop_le_of_lt nonempty)⟩

theorem knows_noAggregator : Knows input (rule .aggregatorOpt [] fun _ => none) := by
  intro first last tree computation value _ supplies yields
  cases supplies
  cases Traced.yields_pure_iff.mp yields
  rfl

theorem knows_someAggregator : Knows input
    (rule .aggregatorOpt [the .aggregator] fun _ aggregator => some aggregator) := by
  intro first last tree computation value _ supplies yields
  rcases supplies with _ | ⟨_, ⟨_, stands⟩, ⟨⟩⟩
  cases Traced.yields_pure_iff.mp yields
  exact stands

/-- A group stores what is called right behind its parentheses. -/
theorem knows_eventGroup {text : String} (counts : text ∈ ["count", "repeat"]) (op : GroupOp) :
    Knows input
      (rule .eventGroup
        [word text, token .number, mark .leftParen, the .eventBase, mark .rightParen,
          the .aggregatorOpt]
        fun span _ times _ event _ aggregator =>
          ⟨.group op times (event.aggregate aggregator).toEvent, span⟩) := by
  intro first last tree computation value derivation supplies yields uncalled
  rcases supplies with _ | _ | ⟨counter, rest⟩
  have nonempty : first < last := rest.le
  have covers := SpanOf.between nonempty (derivation.stop_le_of_lt nonempty)
  rcases rest with _ | _ | ⟨number, _ | _ | ⟨opens, _ | ⟨_, ⟨⟨_, inner⟩, plain⟩,
    _ | _ | ⟨closes, _ | ⟨_, ⟨_, stands⟩, ⟨⟩⟩⟩⟩⟩⟩
  cases Traced.yields_pure_iff.mp yields
  have counter := token_of_word counter
  have number := token_of_number number
  have closes := token_of_mark closes
  have opening := opensBefore_of_derives (token_of_mark opens) inner rfl closes
  have after : AfterGroup input.tokens _ := ⟨_, _, rfl, closes, opening, number, _, counts, counter⟩
  refine ⟨List.forall_mem_singleton.mpr ⟨_, _, covers.opens, ⟨_, counts, counter⟩, number, opening,
    closes, fun op calls => ?_⟩, List.forall_mem_nil _⟩
  rename_i optional _ _
  -- Without an aggregator the group ends where nothing called is seen.
  cases optional with
  | none =>
      obtain rfl : _ + 1 = last := stands
      exact absurd calls (not_callsAggregator after uncalled.2 op)
  | some aggregator =>
      obtain ⟨leaf, found, starts⟩ := stands.2.opens
      exact ⟨aggregator, leaf, rfl, stands.1.op_eq calls, found, starts⟩

/-- An action begins where the guard lets it. -/
theorem knows_actionCore : Knows input
    (guarded notAfterGroup <|
      rule .actionCore [the .actionName, the .arguments, the .settingOpt]
        fun span name arguments setting => ⟨none, name, arguments, setting, span⟩) := by
  intro first last tree computation value derivation supplies yields _
  have nonempty : first < last := Nat.lt_of_not_le fun empty =>
    absurd (derivation.erases empty).mem_nullable actionCore_not_mem_nullable
  rcases supplies with _ | ⟨_, _, _ | ⟨_, _, _ | ⟨_, _, ⟨⟩⟩⟩⟩
  cases Traced.yields_pure_iff.mp yields
  exact ⟨List.forall_mem_nil _, List.forall_mem_singleton.mpr fun _ =>
    ⟨first, last, .between nonempty (derivation.stop_le_of_lt nonempty),
      notAfterGroup_of_actionCore derivation⟩⟩

theorem knows_eventRules : ∀ entry ∈ eventRules,
    Knows input entry ∨ PassesSettled input entry := by
  simp only [eventRules, eventOperators, eventOperands, baseEvents, eventGroups, eventWords,
    AggregateOp.all, List.forall_mem_append, List.forall_mem_cons, List.map_cons, List.map_nil]
  repeat' apply And.intro
  all_goals
    first
    | exact List.forall_mem_nil _
    | exact .inr (passes_of_not_mem (by decide) (by decide))
    | exact .inl knows_eventBase
    | exact .inl (knows_aggregator _)
    | exact .inl knows_noAggregator
    | exact .inl knows_someAggregator
    | exact .inl (knows_eventGroup (by decide) _)
    | refine .inr ⟨by decide, fun _ => makes_rule_iff.mpr ?_⟩
      simp +contextual [Threads, Nonterminal.Settled, Nonterminal.groupsIn, Nonterminal.actionsIn,
        Event.groups, BaseEvent.toEvent, or_imp, -List.mem_flatMap, -Option.mem_toList]

theorem knows_declarationRules : ∀ entry ∈ declarationRules,
    Knows input entry ∨ PassesSettled input entry := by
  simp only [declarationRules, declarations, defactions, actionBlocks, actions, identifierLists,
    List.forall_mem_append, List.forall_mem_cons]
  repeat' apply And.intro
  all_goals
    first
    | exact List.forall_mem_nil _
    | exact .inr (passes_of_not_mem (by decide) (by decide))
    | exact .inl knows_actionCore
    | refine .inr ⟨by decide, fun _ => makes_rule_iff.mpr ?_⟩
      simp +contextual [Threads, Nonterminal.Settled, Nonterminal.groupsIn, Nonterminal.actionsIn,
        Stmt.actions, Action.Stands, or_imp, -List.mem_flatMap,
        -Option.mem_toList]

theorem knows_ruleRules : ∀ entry ∈ ruleRules, PassesSettled input entry := by
  simp only [ruleRules, rules, postludes, postludeStatements, effects, timePeriods, LogLevel.all,
    List.forall_mem_append, List.forall_mem_cons, List.map_cons, List.map_nil]
  repeat' apply And.intro
  all_goals
    first
    | exact List.forall_mem_nil _
    | exact passes_of_not_mem (by decide) (by decide)
    | refine ⟨by decide, fun _ => makes_rule_iff.mpr ?_⟩
      simp +contextual [Threads, Nonterminal.Settled, Nonterminal.groupsIn, Nonterminal.actionsIn,
        Rule.groups, Rule.actions, or_imp, forall_and, -List.mem_flatMap, -Option.mem_toList]

theorem knows_rulesetRules : ∀ entry ∈ rulesetRules, PassesSettled input entry := by
  simp only [rulesetRules, rulesets, descriptions, connections, connectionParts,
    List.forall_mem_append, List.forall_mem_cons, List.forall_mem_flatMap, List.map_cons,
    List.map_nil]
  repeat' apply And.intro
  all_goals
    first
    | exact List.forall_mem_nil _
    | exact passes_of_not_mem (by decide) (by decide)
    | refine ⟨by decide, fun _ => makes_rule_iff.mpr ?_⟩
      simp +contextual [Threads, Nonterminal.Settled, Nonterminal.groupsIn, Nonterminal.actionsIn,
        Program.groups, Program.actions, Ruleset.groups, Ruleset.actions, or_imp, forall_and,
        -List.mem_flatMap, -Option.mem_toList]

theorem knows_expressionRules : ∀ entry ∈ expressionRules, PassesSettled input entry := by
  have others : ∀ entry ∈ expressionRules, entry.lhs ∉ holding ∧ entry.lhs ∉ particular := by
    decide +kernel
  exact fun entry listed => passes_of_not_mem (others entry listed).1 (others entry listed).2

/-- What is known of groups and actions is kept by every production. -/
theorem knows_of_mem : ∀ entry ∈ language.reductions, Knows input entry := by
  suffices known : ∀ entry ∈ language.reductions,
      Knows input entry ∨ PassesSettled input entry from
    fun entry listed => (known entry listed).elim id (knows_of_passes listed)
  show ∀ entry ∈ rulesetRules ++ declarationRules ++ ruleRules ++ eventRules ++ expressionRules, _
  simp only [List.forall_mem_append]
  exact ⟨⟨⟨⟨fun entry listed => .inr (knows_rulesetRules entry listed),
    knows_declarationRules⟩, fun entry listed => .inr (knows_ruleRules entry listed)⟩,
      knows_eventRules⟩, fun entry listed => .inr (knows_expressionRules entry listed)⟩

end Productions

/-- Groups and actions in the value of some tokens are as they should be. -/
theorem settled_of_parseLeaves {lexemes : List Lexeme} {stop : Nat} {atEnd : Option Nat}
    {program : Program}
    (yields : Traced.Yields (parseLeaves .main (leavesOf lexemes) stop atEnd) program) :
    Nonterminal.main.Settled ⟨leavesOf (significant lexemes), stop⟩ program := by
  have known : (knowing ⟨leavesOf (significant lexemes), stop⟩).value .main 0
      (significant lexemes).length program := by
    refine Invariant.holds_parseLeaves ?_ ?_ yields
    · intro index lexeme found tokens datum read
      exact Option.bind_eq_some_iff.mpr
        ⟨_, getElem?_leavesOf_iff.mpr ⟨lexeme, found, rfl⟩, read⟩
    · intro entry listed first last tree computation value derivation supplies yields
      exact ⟨⟨tree, derivation⟩, Productions.knows_of_mem entry listed first last tree computation
        value derivation supplies yields⟩
  have same := length_leavesOf (significant lexemes)
  refine known.2 ⟨Nat.le_of_eq same.symm, ?_⟩
  rw [← same]
  exact sees_uncalled_end _

/-- A token of a source is known from where it begins. -/
theorem index_eq_of_tokenize {source : String} {lexemes : List Lexeme}
    (tokenized : Token.tokenize source = .ok lexemes) {index other : Nat} {leaf leaf' : Leaf}
    (found : (leavesOf (significant lexemes))[index]? = some leaf)
    (found' : (leavesOf (significant lexemes))[other]? = some leaf')
    (same : leaf.lexeme.start = leaf'.lexeme.start) : index = other := by
  obtain ⟨lexeme, listed, rfl⟩ := getElem?_leavesOf_iff.mp found
  obtain ⟨lexeme', listed', rfl⟩ := getElem?_leavesOf_iff.mp found'
  rw [lexeme_ofLexeme, lexeme_ofLexeme] at same
  have orderly := (Token.settled_of_tokenize tokenized).orderly.significant
  exact orderly.index_eq listed listed' same

/-- The guard of actions has an answer for all tokens and every index, and says no only where the
name of an aggregator stands right after a group of events. So a call of an aggregator that stands
there is the aggregator of the group, and no action without a label begins with it. -/
theorem parse_aggregators (options : ParseOptions) :
    (∀ tokens start stop,
      notAfterGroup? tokens start = some (notAfterGroup tokens start stop) ∧
        (notAfterGroup tokens start stop = false ↔
          (∃ text ∈ ["min", "max", "sum", "avg", "push"],
            tokenAt? tokens start = some (.symbol text)) ∧ AfterGroup tokens start)) ∧
    ∀ source ruleset, parse source options = .ok (.ruleset ruleset) →
      ∃ lexemes, Token.tokenize source = .ok lexemes ∧
        let tokens := leavesOf (significant lexemes)
        (∀ event ∈ ruleset.groups, ∃ counter close, event.Stands tokens counter close) ∧
        ∀ action ∈ ruleset.actions, action.label = none → ∀ index leaf,
          tokens[index]? = some leaf → leaf.lexeme.start = action.span.start →
            AfterGroup tokens index → ∀ op, ¬CallsAggregator tokens index op := by
  refine ⟨fun tokens start stop =>
    ⟨notAfterGroup?_eq tokens start stop, notAfterGroup_eq_false_iff tokens start stop⟩, ?_⟩
  intro source ruleset parsed
  rw [parse_eq] at parsed
  obtain ⟨lexemes, tokenized, yields⟩ := exists_yields_of_parseSource parsed
  obtain ⟨groups, actions⟩ := settled_of_parseLeaves yields
  refine ⟨lexemes, tokenized, groups, ?_⟩
  intro action member unlabelled index leaf found starts after op calls
  obtain ⟨first, last, covers, admitted⟩ := actions action member unlabelled
  obtain ⟨leaf', found', starts'⟩ := covers.opens
  obtain rfl : index = first :=
    index_eq_of_tokenize tokenized found found' (starts.trans starts'.symm)
  have named : ∃ text ∈ ["min", "max", "sum", "avg", "push"],
      tokenAt? (leavesOf (significant lexemes)) index = some (.symbol text) :=
    ⟨op.word, by cases op <;> decide, calls.1⟩
  rw [(notAfterGroup_eq_false_iff _ _ _).mpr ⟨named, after⟩] at admitted
  cases admitted

/-- A group with an aggregator, which could be an action as well. -/
theorem parse_aggregators_max :
    ∃ ruleset, parse "ruleset r\x7brule s\x7bselect when count 2(a b)max(c)\x7d\x7d" .none =
        .ok (.ruleset ruleset) ∧
      ruleset.groups.map (fun event => event.aggregator?.map EventAggregator.op) = [some .max] ∧
      ruleset.actions = [] ∧
      ∃ lexemes, ∀ event ∈ ruleset.groups, ∃ counter close,
        event.Stands (leavesOf (significant lexemes)) counter close := by
  -- The productions of the one derivation, a node before its children.
  have stored : (valueOfLeftParse? "ruleset r\x7brule s\x7bselect when count 2(a b)max(c)\x7d\x7d"
      [0, 2, 3, 4, 11, 9, 90, 89, 91, 92, 96, 97, 168, 170, 174, 177, 180, 195, 189, 190, 193, 85,
        198, 200, 87, 98, 114, 117, 119, 121]).map (fun program =>
          (program.groups.map (fun event => event.aggregator?.map EventAggregator.op),
            program.actions.length)) = some ([some .max], 0) := by
    decide +kernel
  obtain ⟨program, parsed, told⟩ := exists_ok_of_leftParse stored
  obtain ⟨max, none_⟩ := Prod.mk.inj told
  cases program with
  | statements items => cases max
  | ruleset ruleset =>
      obtain ⟨lexemes, _, groups, _⟩ := (parse_aggregators .none).2 _ ruleset parsed
      exact ⟨ruleset, parsed, max, List.eq_nil_of_length_eq_zero none_, lexemes, groups⟩

end Krl

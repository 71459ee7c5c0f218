import Krl.Proofs.Parse.Ambiguity
import Krl.Proofs.Syntax.Climbing
import Krl.Proofs.Token.Spacing

/-!
# The precedence of operators on events

A rule that waits for a chain of events, with operators between them, is read in one way, and
its event is the tree that precedence climbing answers. Each event of the chain may have a pair
of chains behind `between`, which is tighter than all operators.
-/

namespace Krl

/-- Operators between two events. -/
inductive EventInfix where
  | or | and | before | «then» | after
  deriving DecidableEq

namespace EventInfix

def op : EventInfix → EventOp
  | or => .or
  | and => .and
  | before => .before
  | «then» => .then
  | after => .after

/-- How the operator is written. -/
def sign (op : EventInfix) : Fixed :=
  .word op.op.text

/-- How tightly the operator binds, the loosest first. -/
def precedence : EventInfix → Nat
  | or => 0
  | and => 1
  | before | «then» | after => 2

theorem precedence_lt (op : EventInfix) : op.precedence < 3 := by
  cases op <;> decide

end EventInfix

/-- Operators on events with their precedences. What one makes of its sides covers both. -/
def eventInfixes : Infixes (Spanned EventInfix) Event where
  precedence := fun op => op.value.precedence
  join := fun left op right =>
    ⟨.operator op.value.op [left, right], left.span.start, right.span.stop⟩

/-- A name as a token, which is not a reserved word. -/
structure FreeName where
  name : Identifier
  free : isIdentifier name.value = true

/-- An event of a domain and a type, with nothing else. -/
structure BareEvent where
  domain : FreeName
  type : FreeName

namespace BareEvent

def lexemes (bare : BareEvent) : List Lexeme :=
  [bare.domain.name.lexeme, bare.type.name.lexeme]

def tree (bare : BareEvent) : Event :=
  ⟨.expression ⟨bare.domain.name, bare.type.name, [], none, [], none⟩,
    bare.domain.name.span.start, bare.type.name.span.stop⟩

end BareEvent

mutual

/-- An event, which may have to occur between two others, or may not. -/
inductive EventTerm where
  | bare (event : BareEvent)
  | between (event : BareEvent) (negation : Option Span) (between opening : Span)
      (first : EventChain) (comma : Span) (last : EventChain) (closing : Span)

/-- Events with operators between them. -/
inductive EventChain where
  | last (term : EventTerm)
  | more (term : EventTerm) (op : Spanned EventInfix) (others : EventChain)

end

mutual

def EventTerm.lexemes : EventTerm → List Lexeme
  | .bare event => event.lexemes
  | .between event negation between opening first comma last closing =>
      event.lexemes ++ (negation.toList.map (Fixed.word "not").lexeme ++
        ((Fixed.word "between").lexeme between :: (Fixed.mark .leftParen).lexeme opening ::
          (first.lexemes ++ ((Fixed.mark .comma).lexeme comma ::
            (last.lexemes ++ [(Fixed.mark .rightParen).lexeme closing])))))

def EventChain.lexemes : EventChain → List Lexeme
  | .last term => term.lexemes
  | .more term op others => term.lexemes ++ (op.value.sign.lexeme op.span :: others.lexemes)

end

mutual

def EventTerm.tree : EventTerm → Event
  | .bare event => event.tree
  | .between event negation _ _ first _ last closing =>
      ⟨.operator (if negation.isSome then .notBetween else .between)
          [event.tree, eventInfixes.tree first.head first.others,
            eventInfixes.tree last.head last.others],
        event.tree.span.start, closing.stop⟩

/-- The event with which the chain begins. -/
def EventChain.head : EventChain → Event
  | .last term => term.tree
  | .more term _ _ => term.tree

/-- The operators of the chain, each with the event behind it. -/
def EventChain.others : EventChain → List (Spanned EventInfix × Event)
  | .last _ => []
  | .more _ op others => (op, others.head) :: others.others

end

def EventChain.tree (chain : EventChain) : Event :=
  eventInfixes.tree chain.head chain.others

namespace Productions

/-- The tokens form an event of a layer of operators. -/
def EventLayer (input : Input Leaf) : (level first last : Nat) → Event → Prop
  | 0 => Phrase input .eventOr
  | 1 => Phrase input .eventAnd
  | 2 => Phrase input .eventSequence
  | _ => Phrase input .eventBetween

theorem mem_of_eventRules {entry : Entry} (listed : entry ∈ eventRules) :
    entry ∈ language.reductions :=
  List.mem_append_left _ (List.mem_append_right _ listed)

theorem mem_of_ruleRules {entry : Entry} (listed : entry ∈ ruleRules) :
    entry ∈ language.reductions :=
  List.mem_append_left _ (List.mem_append_left _ (List.mem_append_right _ listed))

theorem mem_of_declarationRules {entry : Entry} (listed : entry ∈ declarationRules) :
    entry ∈ language.reductions :=
  List.mem_append_left _ (List.mem_append_left _ (List.mem_append_left _
    (List.mem_append_right _ listed)))

theorem mem_of_rulesetRules {entry : Entry} (listed : entry ∈ rulesetRules) :
    entry ∈ language.reductions :=
  List.mem_append_left _ (List.mem_append_left _ (List.mem_append_left _
    (List.mem_append_left _ listed)))

/-- The productions of operators between events. -/
theorem eventInfixes_mem (op : EventInfix) :
    (op.precedence = 0 → rule .eventOr [the .eventOr, token op.sign.terminal, the .eventAnd]
      (fun span left _ right => ⟨.operator op.op [left, right], span⟩) ∈ eventRules) ∧
    (op.precedence = 1 → rule .eventAnd [the .eventAnd, token op.sign.terminal, the .eventSequence]
      (fun span left _ right => ⟨.operator op.op [left, right], span⟩) ∈ eventRules) ∧
    (op.precedence = 2 →
      rule .eventSequence [the .eventSequence, token op.sign.terminal, the .eventBetween]
        (fun span left _ right => ⟨.operator op.op [left, right], span⟩) ∈ eventRules) := by
  cases op
  all_goals
    simp only [EventInfix.precedence, EventInfix.op, EventInfix.sign, EventOp.text, Fixed.terminal,
      eventRules, eventOperators, List.mem_append, List.mem_cons, List.map_cons, List.map_nil,
      eq_self, true_or, or_true, forall_const, OfNat.ofNat_ne_one, OfNat.zero_ne_ofNat,
      OfNat.one_ne_ofNat, OfNat.ofNat_ne_zero, zero_ne_one, one_ne_zero, false_imp_iff, and_self]

/-- The productions that pass on events to the layer above. -/
theorem eventPasses_mem :
    same .eventOr .eventAnd id ∈ eventRules ∧ same .eventAnd .eventSequence id ∈ eventRules ∧
    same .eventSequence .eventBetween id ∈ eventRules ∧
    same .eventBetween .eventPrimary id ∈ eventRules := by
  simp only [eventRules, eventOperators, List.mem_append, List.mem_cons, eq_self, true_or,
    or_true, and_self]

/-- The productions of events with a pair of others behind them. -/
theorem between_mem :
    rule .eventBetween
      [the .eventPrimary, word "between", mark .leftParen, the .eventOr, mark .comma, the .eventOr,
        mark .rightParen]
      (fun span middle _ _ first _ last _ => ⟨.operator .between [middle, first, last], span⟩) ∈
        eventRules ∧
    rule .eventBetween
      [the .eventPrimary, word "not", word "between", mark .leftParen, the .eventOr, mark .comma,
        the .eventOr, mark .rightParen]
      (fun span middle _ _ _ first _ last _ =>
        ⟨.operator .notBetween [middle, first, last], span⟩) ∈ eventRules := by
  simp only [eventRules, eventOperators, List.mem_append, List.mem_cons, eq_self, true_or,
    or_true, and_self]

/-- The productions of single events. -/
theorem bareEvent_mem :
    rule .eventPrimary [the .eventBase] (fun _ event => event.toEvent) ∈ eventRules ∧
    rule .eventBase
      [token .identifier, token .identifier, the .attributeMatches, the .whereOpt, the .settingOpt]
      (fun span domain type attributes test setting =>
        ⟨⟨domain, type, attributes, test, setting, none⟩, span⟩) ∈ eventRules ∧
    rule .attributeMatches [] (fun _ => []) ∈ eventRules ∧
    rule .whereOpt [] (fun _ => none) ∈ eventRules := by
  simp only [eventRules, eventOperands, baseEvents, List.mem_append, List.mem_cons, eq_self,
    true_or, or_true, and_self]

theorem settingOpt_mem : rule .settingOpt [] (fun _ => []) ∈ declarationRules := by
  simp only [declarationRules, actions, List.mem_append, List.mem_cons, eq_self, true_or, or_true]

variable {input : Input Leaf}

theorem eventLayer_looser {level first last : Nat} {value : Event}
    (phrase : EventLayer input (level + 1) first last value) :
    EventLayer input level first last value := by
  obtain ⟨h0, h1, h2, _⟩ := eventPasses_mem
  match level with
  | 0 => exact phrase_of_same (mem_of_eventRules h0) phrase
  | 1 => exact phrase_of_same (mem_of_eventRules h1) phrase
  | 2 => exact phrase_of_same (mem_of_eventRules h2) phrase
  | _ + 3 => exact phrase

/-- An operator joins an event of its own layer with one of the next. -/
theorem eventLayer_join {op : EventInfix} {place : Span} {first middle last : Nat}
    {left right : Event}
    (sign : input.tokens[middle]? = some (.ofLexeme (op.sign.lexeme place)))
    (leftSide : EventLayer input op.precedence first middle left)
    (rightSide : EventLayer input (op.precedence + 1) (middle + 1) last right) :
    EventLayer input op.precedence first last
      ⟨.operator op.op [left, right], language.spanBetween input first last⟩ := by
  obtain ⟨h0, h1, h2⟩ := eventInfixes_mem op
  obtain ⟨datum, read⟩ := Fixed.exists_datum sign
  have bound := op.precedence_lt
  generalize op.precedence = level at *
  match level with
  | 0 => exact phrase_of_rule (mem_of_eventRules (h0 rfl)) (supplies_joined leftSide read rightSide)
  | 1 => exact phrase_of_rule (mem_of_eventRules (h1 rfl)) (supplies_joined leftSide read rightSide)
  | 2 => exact phrase_of_rule (mem_of_eventRules (h2 rfl)) (supplies_joined leftSide read rightSide)
  | _ + 3 => omega

/-- A single token has no gaps. -/
theorem contiguous_single (tokens : List Leaf) (index : Nat) :
    contiguous tokens index (index + 1) = true := by
  rw [contiguous, Nat.add_sub_cancel_left]
  cases tokens.drop index <;> rfl

/-- A name that is not reserved is what a place for one calls for. -/
theorem freeName_datum {free : FreeName} {index : Nat}
    (found : input.tokens[index]? = some (.ofLexeme free.name.lexeme)) :
    (phrases input).datum .identifier index free.name :=
  (congrArg (Option.bind · _) found).trans (if_pos free.free)

end Productions

open Productions

/-- The tokens form an event of a layer, which has their span. -/
def EventOperation (input : Input Leaf) (level first last : Nat) (value : Event) : Prop :=
  EventLayer input level first last value ∧ SpanOf input first last value.span

variable {input : Input Leaf} {index last : Nat}

/-- A domain and a type are an event. All else that an event could have may be left out. -/
theorem BareEvent.phrase (bare : BareEvent) (stand : Stand input index bare.lexemes last) :
    Phrase input .eventPrimary index last bare.tree ∧ SpanOf input index last bare.tree.span := by
  obtain ⟨domain, type, rfl⟩ := stand
  obtain ⟨primary, base, attributes, test⟩ := bareEvent_mem
  have whole := SpanOf.join (.lexeme domain) (.lexeme type) (Nat.le_refl _)
  have event := phrase_of_rule (mem_of_eventRules base)
    (.terminal (freeName_datum domain) (.terminal (freeName_datum type)
      (supplies_omitted (mem_of_eventRules attributes) (supplies_omitted (mem_of_eventRules test)
        (supplies_omitted (mem_of_declarationRules settingOpt_mem) .nil)))))
  rw [whole.spanBetween_eq] at event
  exact ⟨phrase_of_rule (mem_of_eventRules primary) (supplies_phrase event .nil), whole⟩

/-- Operators stand between events of their layers. -/
theorem layered_eventInfixes : eventInfixes.Layered
    (fun middle op => input.tokens[middle]? = some (.ofLexeme (op.value.sign.lexeme op.span)))
    (EventOperation input 3) (EventOperation input) 3 where
  looser := fun ⟨phrase, covers⟩ => ⟨eventLayer_looser phrase, covers⟩
  joined := by
    intro op first middle last left right sign leftSide rightSide
    have whole := leftSide.2.join rightSide.2 (Nat.le_succ middle)
    have phrase := eventLayer_join sign leftSide.1 rightSide.1
    rw [whole.spanBetween_eq] at phrase
    exact ⟨phrase, whole⟩
  tightest := id
  below := fun op => op.value.precedence_lt

/-- A chain whose events are strung is an event. -/
theorem EventChain.operation_of_strung {chain : EventChain} {middle : Nat}
    (begins : EventOperation input 3 index middle chain.head)
    (strung : Infixes.Strung
      (fun middle op => input.tokens[middle]? = some (.ofLexeme (op.value.sign.lexeme op.span)))
      (EventOperation input 3) middle chain.others last) :
    EventOperation input 0 index last chain.tree :=
  layered_eventInfixes.tree begins strung

/-- A pair of events in parentheses behind the word `between` is what a production calls for
behind an event. -/
theorem supplies_between {between opening comma closing : Span} {middle : Nat} {first final : Event}
    (word_ : input.tokens[index]? = some (.ofLexeme ((Fixed.word "between").lexeme between)))
    (opens : input.tokens[index + 1]? = some (.ofLexeme ((Fixed.mark .leftParen).lexeme opening)))
    (firstPhrase : Phrase input .eventOr (index + 2) middle first)
    (separates : input.tokens[middle]? = some (.ofLexeme ((Fixed.mark .comma).lexeme comma)))
    (finalPhrase : Phrase input .eventOr (middle + 1) last final)
    (closes : input.tokens[last]? = some (.ofLexeme ((Fixed.mark .rightParen).lexeme closing)))
    (whole : Event → Event → Event) :
    (phrases input).Supplies
      [word "between", mark .leftParen, the .eventOr, mark .comma, the .eventOr, mark .rightParen]
      index (last + 1) (fun _ _ first _ final _ => whole first final) (whole first final) := by
  obtain ⟨_, wordRead⟩ := Fixed.exists_datum word_
  obtain ⟨_, opensRead⟩ := Fixed.exists_datum opens
  obtain ⟨_, separatesRead⟩ := Fixed.exists_datum separates
  obtain ⟨_, closesRead⟩ := Fixed.exists_datum closes
  exact .terminal wordRead (.terminal opensRead (supplies_phrase firstPhrase
    (.terminal separatesRead (supplies_phrase finalPhrase (.terminal closesRead .nil)))))

mutual

/-- An event with all that belongs to it is an event of the tightest layer. -/
theorem EventTerm.operation : (term : EventTerm) → {index last : Nat} →
    Stand input index term.lexemes last → EventOperation input 3 index last term.tree
  | .bare event, index, last, stand => by
      obtain ⟨phrase, covers⟩ := event.phrase stand
      exact ⟨phrase_of_same (mem_of_eventRules eventPasses_mem.2.2.2) phrase, covers⟩
  | .between event negation between opening first comma final closing, index, last, stand => by
      obtain ⟨_, eventStand, rest⟩ := stand_append_iff.mp stand
      obtain ⟨_, notStand, word_, opens, rest⟩ := stand_append_iff.mp rest
      obtain ⟨_, firstStand, separates, rest⟩ := stand_append_iff.mp rest
      obtain ⟨_, finalStand, closes, rfl⟩ := stand_append_iff.mp rest
      obtain ⟨eventPhrase, eventCovers⟩ := event.phrase eventStand
      obtain ⟨_, begins, strung⟩ := first.strung firstStand
      obtain ⟨firstPhrase, _⟩ := EventChain.operation_of_strung begins strung
      obtain ⟨_, begins, strung⟩ := final.strung finalStand
      obtain ⟨finalPhrase, _⟩ := EventChain.operation_of_strung begins strung
      have pair := supplies_between word_ opens firstPhrase separates finalPhrase closes
      have whole := eventCovers.join (.lexeme closes) (by
        have := notStand.le
        have := firstStand.le
        have := finalStand.le
        omega)
      cases negation with
      | none =>
          cases notStand
          have phrase := phrase_of_rule (mem_of_eventRules between_mem.1)
            (supplies_phrase eventPhrase (pair _))
          rw [whole.spanBetween_eq] at phrase
          exact ⟨phrase, whole⟩
      | some place =>
          obtain ⟨notFound, rfl⟩ := notStand
          obtain ⟨_, notRead⟩ := Fixed.exists_datum notFound
          have phrase := phrase_of_rule (mem_of_eventRules between_mem.2)
            (supplies_phrase eventPhrase (.terminal notRead (pair _)))
          rw [whole.spanBetween_eq] at phrase
          exact ⟨phrase, whole⟩

/-- The events of a chain are strung in the input, behind the first of them. -/
theorem EventChain.strung : (chain : EventChain) → {index last : Nat} →
    Stand input index chain.lexemes last →
    ∃ middle, EventOperation input 3 index middle chain.head ∧
      Infixes.Strung
        (fun middle op => input.tokens[middle]? = some (.ofLexeme (op.value.sign.lexeme op.span)))
        (EventOperation input 3) middle chain.others last
  | .last term, index, last, stand => ⟨last, term.operation stand, .nil⟩
  | .more term op others, index, last, stand => by
      obtain ⟨middle, termStand, sign, othersStand⟩ := stand_append_iff.mp stand
      obtain ⟨_, side, rest⟩ := others.strung othersStand
      exact ⟨middle, term.operation termStand, .cons sign side rest⟩

end

theorem EventChain.operation (chain : EventChain) (stand : Stand input index chain.lexemes last) :
    EventOperation input 0 index last chain.tree := by
  obtain ⟨_, begins, strung⟩ := chain.strung stand
  exact operation_of_strung begins strung

/-- A rule that waits for a chain of events and does nothing. -/
structure SelectingRule where
  opening : Span
  name : FreeName
  brace : Span
  select : Span
  when : Span
  event : EventChain
  closing : Span

namespace SelectingRule

def lexemes (rule : SelectingRule) : List Lexeme :=
  (Fixed.word "rule").lexeme rule.opening :: rule.name.name.lexeme ::
    (Fixed.mark .leftBrace).lexeme rule.brace :: (Fixed.word "select").lexeme rule.select ::
      (Fixed.word "when").lexeme rule.when ::
        (rule.event.lexemes ++ [(Fixed.mark .rightBrace).lexeme rule.closing])

def tree (rule : SelectingRule) : Rule :=
  ⟨rule.name.name, .active,
    some ⟨rule.event.tree, none, rule.select.start, rule.event.tree.span.stop⟩, [], [], none, none,
    rule.opening.start, rule.closing.stop⟩

end SelectingRule

/-- A ruleset of rules that wait for chains of events. -/
structure SelectingRuleset where
  opening : Span
  rid : Identifier
  brace : Span
  rules : List SelectingRule
  closing : Span

namespace SelectingRuleset

def lexemes (ruleset : SelectingRuleset) : List Lexeme :=
  (Fixed.word "ruleset").lexeme ruleset.opening :: ruleset.rid.lexeme ::
    (Fixed.mark .leftBrace).lexeme ruleset.brace ::
      (ruleset.rules.flatMap SelectingRule.lexemes ++
        [(Fixed.mark .rightBrace).lexeme ruleset.closing])

def tree (ruleset : SelectingRuleset) : Ruleset :=
  ⟨⟨ruleset.rid.value, ruleset.rid.span⟩, none, [], ruleset.rules.map SelectingRule.tree,
    ruleset.opening.start, ruleset.closing.stop⟩

end SelectingRuleset

namespace Productions

/-- The productions of rules, and of their parts that may be left out. -/
theorem rules_mem :
    rule .rules [] (fun _ => []) ∈ ruleRules ∧
    rule .rules [the .rules, the .rule] (fun _ items item => items ++ [item]) ∈ ruleRules ∧
    rule .rule
      [word "rule", token .identifier, the .ruleState, mark .leftBrace, the .selectOpt, the .loops,
        the .preludeOpt, the .actionBlockOpt, the .postludeOpt, mark .rightBrace]
      (fun span _ name state _ select loops prelude block postlude _ =>
        ⟨name, state, select, loops, prelude, block, postlude, span⟩) ∈ ruleRules ∧
    rule .ruleState [] (fun _ => .active) ∈ ruleRules ∧
    rule .selectOpt [the .ruleSelect] (fun _ select => some select) ∈ ruleRules ∧
    rule .ruleSelect [word "select", word "when", the .eventOr, the .withinOpt]
      (fun span _ _ event within => ⟨event, within, span⟩) ∈ ruleRules ∧
    rule .withinOpt [] (fun _ => none) ∈ ruleRules ∧
    rule .loops [] (fun _ => []) ∈ ruleRules ∧
    rule .preludeOpt [] (fun _ => []) ∈ ruleRules ∧
    rule .actionBlockOpt [] (fun _ => none) ∈ ruleRules ∧
    rule .postludeOpt [] (fun _ => none) ∈ ruleRules := by
  simp only [ruleRules, rules, List.mem_append, List.mem_cons, eq_self, true_or, or_true, and_self]

/-- The productions of rulesets. -/
theorem rulesets_mem :
    rule .main [the .ruleset] (fun _ ruleset => .ruleset ruleset) ∈ rulesetRules ∧
    rule .ruleset
      [word "ruleset", the .rulesetId, mark .leftBrace, the .metaOpt, the .globalOpt, the .rules,
        mark .rightBrace]
      (fun span _ rid _ properties globals rules _ => ⟨rid, properties, globals, rules, span⟩) ∈
        rulesetRules ∧
    guarded contiguous (rule .rulesetId [the .ridWords] fun span text => ⟨text, span⟩) ∈
      rulesetRules ∧
    rule .ridWords [token .symbol] (fun _ name => name.value) ∈ rulesetRules ∧
    rule .metaOpt [] (fun _ => none) ∈ rulesetRules ∧
    rule .globalOpt [] (fun _ => []) ∈ rulesetRules := by
  simp only [rulesetRules, rulesets, descriptions, List.mem_append, List.mem_cons, eq_self,
    true_or, or_true, and_self]

end Productions

theorem SelectingRule.phrase (rule : SelectingRule) (stand : Stand input index rule.lexemes last) :
    Phrase input .rule index last rule.tree := by
  obtain ⟨_, _, whole, state, some_, select, within, loops, prelude, block, postlude⟩ := rules_mem
  obtain ⟨opens, name, brace, selects, waits, rest⟩ := stand
  obtain ⟨_, eventStand, closes, rfl⟩ := stand_append_iff.mp rest
  obtain ⟨eventPhrase, eventCovers⟩ := rule.event.operation eventStand
  obtain ⟨_, opensRead⟩ := Fixed.exists_datum opens
  obtain ⟨_, braceRead⟩ := Fixed.exists_datum brace
  obtain ⟨_, selectsRead⟩ := Fixed.exists_datum selects
  obtain ⟨_, waitsRead⟩ := Fixed.exists_datum waits
  obtain ⟨_, closesRead⟩ := Fixed.exists_datum closes
  have selecting := phrase_of_rule (mem_of_ruleRules select)
    (.terminal selectsRead (.terminal waitsRead (supplies_phrase eventPhrase
      (supplies_omitted (mem_of_ruleRules within) .nil))))
  rw [(SpanOf.join (.lexeme selects) eventCovers (Nat.le_succ _)).spanBetween_eq] at selecting
  have phrase := phrase_of_rule (mem_of_ruleRules whole)
    (.terminal opensRead (.terminal (freeName_datum name)
      (supplies_omitted (mem_of_ruleRules state) (.terminal braceRead
        (supplies_phrase (phrase_of_rule (mem_of_ruleRules some_) (supplies_phrase selecting .nil))
          (supplies_omitted (mem_of_ruleRules loops) (supplies_omitted (mem_of_ruleRules prelude)
            (supplies_omitted (mem_of_ruleRules block)
              (supplies_omitted (mem_of_ruleRules postlude) (.terminal closesRead .nil)))))))))) 
  have covers := SpanOf.join (.lexeme opens) (.lexeme closes) (by
    have := eventStand.le
    omega)
  rw [covers.spanBetween_eq] at phrase
  exact phrase

/-- Rules that stand one after another are a list of rules. The induction is from behind, as the
list of the grammar grows behind. -/
theorem phrase_rules (rules : List SelectingRule)
    (stand : Stand input index (rules.flatMap SelectingRule.lexemes) last) :
    Phrase input .rules index last (rules.map SelectingRule.tree) := by
  obtain ⟨none_, more, _⟩ := rules_mem
  induction rules using List.reverseRecOn generalizing last with
  | nil =>
      cases stand
      exact phrase_of_rule (mem_of_ruleRules none_) .nil
  | append_singleton rules rule ih =>
      rw [List.flatMap_append, List.flatMap_singleton] at stand
      obtain ⟨_, before, here⟩ := stand_append_iff.mp stand
      rw [List.map_append]
      exact phrase_of_rule (mem_of_ruleRules more)
        (supplies_phrase (ih before) (supplies_phrase (rule.phrase here) .nil))

theorem SelectingRuleset.phrase (ruleset : SelectingRuleset)
    (stand : Stand input index ruleset.lexemes last) :
    Phrase input .main index last (.ruleset ruleset.tree) := by
  obtain ⟨main, whole, rid, word_, properties, globals⟩ := rulesets_mem
  obtain ⟨opens, name, brace, rest⟩ := stand
  obtain ⟨_, rulesStand, closes, rfl⟩ := stand_append_iff.mp rest
  obtain ⟨_, opensRead⟩ := Fixed.exists_datum opens
  obtain ⟨_, braceRead⟩ := Fixed.exists_datum brace
  obtain ⟨_, closesRead⟩ := Fixed.exists_datum closes
  have nameRead : (phrases input).datum .symbol (index + 1) ruleset.rid :=
    congrArg (Option.bind · _) name
  have named := phrase_of_guarded (mem_of_rulesetRules rid) (contiguous_single _ _)
    (supplies_phrase (phrase_of_rule (mem_of_rulesetRules word_) (.terminal nameRead .nil)) .nil)
  rw [(SpanOf.lexeme name).spanBetween_eq] at named
  have phrase := phrase_of_rule (mem_of_rulesetRules whole)
    (.terminal opensRead (supplies_phrase named (.terminal braceRead
      (supplies_omitted (mem_of_rulesetRules properties)
        (supplies_omitted (mem_of_rulesetRules globals)
          (supplies_phrase (phrase_rules ruleset.rules rulesStand) (.terminal closesRead .nil)))))))
  have covers := SpanOf.join (.lexeme opens) (.lexeme closes) (by
    have := rulesStand.le
    omega)
  rw [covers.spanBetween_eq] at phrase
  exact phrase_of_rule (mem_of_rulesetRules main) (supplies_phrase phrase .nil)

/-- None of the tokens opens the properties of a ruleset. -/
def Plain (lexemes : List Lexeme) : Prop :=
  ∀ lexeme ∈ lexemes, lexeme.token ≠ .symbol "meta"

@[simp] theorem plain_nil : Plain [] :=
  List.forall_mem_nil _

@[simp] theorem plain_cons {lexeme : Lexeme} {others : List Lexeme} :
    Plain (lexeme :: others) ↔ lexeme.token ≠ .symbol "meta" ∧ Plain others :=
  List.forall_mem_cons

@[simp] theorem plain_append {before behind : List Lexeme} :
    Plain (before ++ behind) ↔ Plain before ∧ Plain behind :=
  List.forall_mem_append

theorem FreeName.token_ne_meta (free : FreeName) : free.name.lexeme.token ≠ .symbol "meta" := by
  intro same
  have reserved : free.name.value = "meta" := Token.symbol.inj same
  have notReserved := free.free
  rw [reserved] at notReserved
  exact absurd notReserved (by decide)

theorem BareEvent.plain (bare : BareEvent) : Plain bare.lexemes := by
  simp [lexemes, FreeName.token_ne_meta]

mutual

theorem EventTerm.plain : (term : EventTerm) → Plain term.lexemes
  | .bare event => event.plain
  | .between event negation between opening first comma last closing => by
      cases negation <;>
        simp [EventTerm.lexemes, event.plain, first.plain, last.plain, Fixed.lexeme, Fixed.token]

theorem EventChain.plain : (chain : EventChain) → Plain chain.lexemes
  | .last term => term.plain
  | .more term op others => by
      cases sign : op.value <;>
        simp [EventChain.lexemes, term.plain, others.plain, sign, EventInfix.sign, EventInfix.op,
          EventOp.text, Fixed.lexeme, Fixed.token]

end

theorem SelectingRule.plain (rule : SelectingRule) : Plain rule.lexemes := by
  simp [lexemes, rule.name.token_ne_meta, rule.event.plain, Fixed.lexeme, Fixed.token]

/-- The tokens of such a ruleset have one derivation. Its name is the only place where the word
`meta` can be. -/
theorem SelectingRuleset.subsingleton (ruleset : SelectingRuleset) :
    {tree | language.grammar.IsDerivation (leavesOf ruleset.lexemes) .main 0
      (leavesOf ruleset.lexemes).length tree}.Subsingleton := by
  have rules : Plain (ruleset.rules.flatMap SelectingRule.lexemes) := by
    intro lexeme member
    obtain ⟨rule, _, member⟩ := List.mem_flatMap.mp member
    exact rule.plain lexeme member
  have plain : Plain (ruleset.lexemes.drop 2) := by
    simp [lexemes, rules, Fixed.lexeme, Fixed.token]
  apply main_subsingleton_of_forall_ne
  intro leaf member
  rw [leavesOf_eq_map, ← List.map_drop] at member
  obtain ⟨lexeme, listed, rfl⟩ := List.mem_map.mp member
  rw [lexeme_ofLexeme]
  exact plain lexeme listed

/-- A source that is a ruleset of rules, each of which waits for a chain of events, is parsed,
and in one way. The event of each rule is the tree that precedence climbing gives its chain. -/
theorem parse_selecting {source : String} {lexemes : List Lexeme}
    (read : Token.tokenize source = .ok lexemes) {ruleset : SelectingRuleset}
    (written : significant lexemes = ruleset.lexemes) (options : ParseOptions) :
    parse source options = .ok (.ruleset ruleset.tree) ∧
      (∃! tree, language.grammar.IsDerivation (leavesOf ruleset.lexemes) .main 0
        (leavesOf ruleset.lexemes).length tree) ∧
      ∀ rule ∈ ruleset.rules, ∃! tree, language.grammar.IsDerivation (leavesOf rule.lexemes) .rule
        0 (leavesOf rule.lexemes).length tree := by
  have single := ruleset.subsingleton
  have phrase := ruleset.phrase (stand_leavesOf ruleset.lexemes (Text.byteLength source.toList))
  refine ⟨?_, ?_, ?_⟩
  · rw [parse_eq, outcome_of_phrase .main read written single phrase]
    rfl
  · obtain ⟨tree, derivation, _⟩ := phrase
    exact ⟨tree, derivation, fun other derivation' => single derivation' derivation⟩
  · intro rule _
    obtain ⟨tree, derivation, _⟩ := rule.phrase (stand_leavesOf rule.lexemes 0)
    exact ⟨tree, derivation, fun other derivation' =>
      Distinction.rule_unique derivation' derivation⟩

/-- An operator before a `not between`, and one in its pair. -/
theorem parse_selecting_notBetween :
    ∃ (source : String) (lexemes : List Lexeme) (ruleset : SelectingRuleset),
      source =
        " ruleset r { rule x { select when a b and c d not between ( e f , g h then i j ) } }" ∧
      Token.tokenize source = .ok lexemes ∧ significant lexemes = ruleset.lexemes ∧
      parse source .none = .ok (.ruleset ruleset.tree) ∧
      ruleset.tree.rules.map (fun rule => rule.select.map RuleSelect.event) =
        [some ⟨.operator .and [
          ⟨.expression ⟨⟨"a", 34, 35⟩, ⟨"b", 36, 37⟩, [], none, [], none⟩, 34, 37⟩,
          ⟨.operator .notBetween [
            ⟨.expression ⟨⟨"c", 42, 43⟩, ⟨"d", 44, 45⟩, [], none, [], none⟩, 42, 45⟩,
            ⟨.expression ⟨⟨"e", 60, 61⟩, ⟨"f", 62, 63⟩, [], none, [], none⟩, 60, 63⟩,
            ⟨.operator .then [
              ⟨.expression ⟨⟨"g", 66, 67⟩, ⟨"h", 68, 69⟩, [], none, [], none⟩, 66, 69⟩,
              ⟨.expression ⟨⟨"i", 75, 76⟩, ⟨"j", 77, 78⟩, [], none, [], none⟩, 75, 78⟩],
              66, 78⟩], 42, 80⟩], 34, 80⟩] := by
  let name (text : String) (start : Nat) (free : isIdentifier text = true) : FreeName :=
    ⟨⟨text, start, start + 1⟩, free⟩
  let bare (domain type : String) (start : Nat) (free : isIdentifier domain = true)
      (free' : isIdentifier type = true) : BareEvent :=
    ⟨name domain start free, name type (start + 2) free'⟩
  let between : EventTerm :=
    .between (bare "c" "d" 42 rfl rfl) (some ⟨46, 49⟩) ⟨50, 57⟩ ⟨58, 59⟩
      (.last (.bare (bare "e" "f" 60 rfl rfl))) ⟨64, 65⟩
      (.more (.bare (bare "g" "h" 66 rfl rfl)) ⟨.then, 70, 74⟩
        (.last (.bare (bare "i" "j" 75 rfl rfl)))) ⟨79, 80⟩
  let event : EventChain :=
    .more (.bare (bare "a" "b" 34 rfl rfl)) ⟨.and, 38, 41⟩ (.last between)
  let ruleset : SelectingRuleset :=
    ⟨⟨1, 8⟩, ⟨"r", 9, 10⟩, ⟨11, 12⟩,
      [⟨⟨13, 17⟩, name "x" 18 rfl, ⟨20, 21⟩, ⟨22, 28⟩, ⟨29, 33⟩, event, ⟨81, 82⟩⟩], ⟨83, 84⟩⟩
  have words : ∀ word ∈ [("ruleset".toList, Token.PlainToken.word), (['r'], .word),
      (['\x7b'], .punct .leftBrace), ("rule".toList, .word), (['x'], .word),
      (['\x7b'], .punct .leftBrace), ("select".toList, .word), ("when".toList, .word),
      (['a'], .word), (['b'], .word), ("and".toList, .word), (['c'], .word), (['d'], .word),
      ("not".toList, .word), ("between".toList, .word), (['('], .punct .leftParen),
      (['e'], .word), (['f'], .word), ([','], .punct .comma), (['g'], .word), (['h'], .word),
      ("then".toList, .word), (['i'], .word), (['j'], .word), ([')'], .punct .rightParen),
      (['\x7d'], .punct .rightBrace), (['\x7d'], .punct .rightBrace)],
      Token.isPlain word = true := by
    decide +kernel
  have spaced : Token.Spaced 0 ruleset.lexemes (String.toList
      " ruleset r { rule x { select when a b and c d not between ( e f , g h then i j ) } }") :=
    Token.spaced_of_plain words 0
  obtain ⟨lexemes, read, written⟩ := spaced.exists_tokenize
  refine ⟨_, lexemes, ruleset, rfl, read, written, (parse_selecting read written .none).1, ?_⟩
  simp [ruleset, event, between, bare, name, SelectingRuleset.tree, SelectingRule.tree,
    EventChain.tree, EventChain.head, EventChain.others, EventTerm.tree, BareEvent.tree,
    Infixes.tree, eventInfixes, EventInfix.precedence, EventInfix.op]

end Krl

import Krl.Language.Vocabulary

/-!
# Productions of event expressions

Operators on events are layered as those on expressions are. `between` is the
tightest and takes a pair of events in parentheses.
-/

namespace Krl.Productions

/-- The words that stand between two events or before a list of them. -/
def eventWords : List (String × EventOp) :=
  [("or", .or), ("and", .and), ("before", .before), ("then", .then), ("after", .after)]

/-- Operators between two events. -/
def eventOperators : List Entry :=
  [rule .eventOr [the .eventOr, word "or", the .eventAnd]
      fun span left _ right => ⟨.operator .or [left, right], span⟩,
    same .eventOr .eventAnd id,
    rule .eventAnd [the .eventAnd, word "and", the .eventSequence]
      fun span left _ right => ⟨.operator .and [left, right], span⟩,
    same .eventAnd .eventSequence id] ++
  ([("before", .before), ("then", .then), ("after", .after)].map
    fun ((text, op) : String × EventOp) =>
      rule .eventSequence [the .eventSequence, word text, the .eventBetween]
        fun span left _ right => ⟨.operator op [left, right], span⟩) ++
  [same .eventSequence .eventBetween id,
    rule .eventBetween
      [the .eventPrimary, word "between", mark .leftParen, the .eventOr, mark .comma,
        the .eventOr, mark .rightParen]
      fun span middle _ _ first _ last _ => ⟨.operator .between [middle, first, last], span⟩,
    rule .eventBetween
      [the .eventPrimary, word "not", word "between", mark .leftParen, the .eventOr,
        mark .comma, the .eventOr, mark .rightParen]
      fun span middle _ _ _ first _ last _ =>
        ⟨.operator .notBetween [middle, first, last], span⟩,
    same .eventBetween .eventPrimary id]

/-- Events that need no operator between them. -/
def eventOperands : List Entry :=
  [rule .eventPrimary [the .eventBase] fun _ event => event.toEvent,
    rule .eventPrimary [mark .leftParen, the .eventOr, mark .rightParen]
      fun _ _ inner _ => inner,
    same .eventPrimary .eventGroup id] ++
  (eventWords.map fun (text, op) =>
    rule .eventPrimary [word text, mark .leftParen, the .events, mark .rightParen]
      fun span _ _ operands _ => ⟨.operator op operands, span⟩) ++
  [rule .eventPrimary
      [word "any", token .number, mark .leftParen, the .events, mark .rightParen]
      fun span _ count _ operands _ => ⟨.any count operands, span⟩,
    rule .events [the .eventOr, mark .comma, the .eventOr] fun _ first _ second => [first, second],
    rule .events [the .events, mark .comma, the .eventOr] fun _ items _ item => items ++ [item]]

/-- Single events. -/
def baseEvents : List Entry :=
  [rule .eventBase
      [token .identifier, token .identifier, the .attributeMatches, the .whereOpt,
        the .settingOpt]
      fun span domain type attributes test setting =>
        ⟨⟨domain, type, attributes, test, setting, none⟩, span⟩,
    rule .attributeMatches [] fun _ => [],
    rule .attributeMatches [the .attributeMatches, the .attributeMatch]
      fun _ items item => items ++ [item],
    rule .attributeMatch [token .identifier, token .regexp]
      fun span key value => ⟨key, value, span⟩,
    rule .whereOpt [] fun _ => none,
    rule .whereOpt [word "where", the .expression] fun _ _ test => some test]

/-- Groups of events with their aggregators. -/
def eventGroups : List Entry :=
  ([("count", .count), ("repeat", .repeat)].map fun ((text, op) : String × GroupOp) =>
    rule .eventGroup
      [word text, token .number, mark .leftParen, the .eventBase, mark .rightParen,
        the .aggregatorOpt]
      fun span _ times _ event _ aggregator =>
        ⟨.group op times (event.aggregate aggregator).toEvent, span⟩) ++
  [rule .aggregatorOpt [] fun _ => none,
    rule .aggregatorOpt [the .aggregator] fun _ aggregator => some aggregator] ++
  (AggregateOp.all.map fun op =>
    rule .aggregator [word op.word, mark .leftParen, the .identifiers, mark .rightParen]
      fun span _ _ names _ => ⟨op, names, span⟩)

/-- All productions of event expressions. -/
def eventRules : List Entry :=
  eventOperators ++ eventOperands ++ baseEvents ++ eventGroups

end Krl.Productions

import Krl.Language
import Krl.Proofs.Grammar.Counting

/-!
# The ranks of phrases

A phrase is ranked above those it can end in. The layers of operators are ranked from the
operands up, and so are lists above their items. Only conditionals and the operands of
signs end in phrases of their own kind.
-/

namespace Krl

/-- The rank of a phrase among those that can end in one another. -/
def Nonterminal.rank : Nonterminal → Nat
  | .primary | .attributeMatches | .loops | .metaOpt | .rulesetId | .postlude | .withinOpt
  | .rules | .actionCore | .aggregatorOpt => 1
  | .suffixed | .action | .eventGroup | .rulesetIds | .postludeOpt => 2
  | .unary | .actionItem => 3
  | .product | .actionSet | .actions => 4
  | .sum | .actionBlock => 5
  | .comparison | .actionBlockOpt => 6
  | .conjunction => 7
  | .disjunction => 8
  | .expression => 9
  | .argument | .arrayItems | .attributesOpt | .declaration | .errorStatement | .whereOpt
  | .expressions | .forOpt | .logStatement | .mapPair | .withBinding | .parameter
  | .persistentAssignment => 10
  | .argumentSequence | .configuration | .declarationOrDefaction | .eventBase | .statement
  | .mapPairs | .withSpaced | .withJoined | .parameterList | .plainDeclaration
  | .scheduleStatement | .raiseStatement | .returnsOpt => 11
  | .argumentList | .declarationItem | .eventPrimary | .statementSequence | .withOpt
  | .parameters | .plainDeclarations | .postludeCore => 12
  | .declarations | .eventBetween | .statements | .metaProperty | .postludeStatement => 13
  | .eventSequence | .main | .metaProperties | .postludeSequence => 14
  | .eventAnd | .postludeStatements => 15
  | .eventOr => 16
  | .events | .ruleSelect => 17
  | .selectOpt => 18
  | _ => 0

/-- What depends on the phrases that derive nothing. To find these takes a while, so it is done
once. -/
theorem checked_nullable :
    language.grammar.IsRanked Nonterminal.rank ∧ language.grammar.ErasesFreely ∧
      ∀ name ∈ [Nonterminal.expression, .actionCore], name ∉ language.grammar.nullable := by
  decide +kernel

theorem isRanked_language : language.grammar.IsRanked Nonterminal.rank :=
  checked_nullable.1

theorem erasesFreely_language : language.grammar.ErasesFreely :=
  checked_nullable.2.1

theorem expression_not_mem_nullable : .expression ∉ language.grammar.nullable :=
  checked_nullable.2.2 _ List.mem_cons_self

theorem actionCore_not_mem_nullable : .actionCore ∉ language.grammar.nullable :=
  checked_nullable.2.2 _ (List.mem_cons_of_mem _ List.mem_cons_self)

end Krl

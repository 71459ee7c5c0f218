import Krl.Proofs.Grammar.Pieces
import Krl.Proofs.Language.Gathering
import Krl.Proofs.Language.Layers

/-!
# Phrases that are expressions

What stands for an expression in a tree is derived as one as well, with the same value: the
parts of expressions, the left sides of declarations, and some single tokens. Expressions do
not depend on what stands around them, and no phrase without tokens stands at their end.
-/

namespace Krl

namespace Productions

variable {input : Input Leaf} {first last : Nat} {tree : Derivation}

theorem Layer.exists_yielding {name : Nonterminal} {asExpr : name.Value → Expr}
    (layer : Layer name asExpr) {value : name.Value}
    (derivation : language.grammar.IsDerivation input.tokens name first last tree)
    (yields : Traced.Yields (language.evaluate input name tree) value) :
    ∃ tree', language.grammar.IsDerivation input.tokens .expression first last tree' ∧
      Traced.Yields (language.evaluate input .expression tree') (asExpr value) := by
  obtain ⟨tree', expression, evaluated⟩ := layer.exists_expression derivation
  have lifted : Traced.Yields (asExpr <$> language.evaluate input name tree : Traced Expr)
      (asExpr value) := yields.map asExpr
  rw [← evaluated] at lifted
  exact ⟨tree', expression, lifted⟩

/-- What stands for an expression can be derived as one. -/
theorem exists_expression_of_stands {name : Nonterminal} {value : name.Value} {node : Expr}
    (stands : name.Stands value node)
    (derivation : language.grammar.IsDerivation input.tokens name first last tree)
    (yields : Traced.Yields (language.evaluate input name tree) value) :
    ∃ tree', language.grammar.IsDerivation input.tokens .expression first last tree' ∧
      Traced.Yields (language.evaluate input .expression tree' : Traced Expr) node := by
  obtain ⟨disjunction, conjunction, comparison, sum, product, unary, suffixed, primary,
    arrayLiteral, mapLiteral, function⟩ := layers
  cases name <;> cases stands
  case expression => exact ⟨tree, derivation, yields⟩
  case disjunction => exact disjunction.exists_yielding derivation yields
  case conjunction => exact conjunction.exists_yielding derivation yields
  case comparison => exact comparison.exists_yielding derivation yields
  case sum => exact sum.exists_yielding derivation yields
  case product => exact product.exists_yielding derivation yields
  case unary => exact unary.exists_yielding derivation yields
  case suffixed => exact suffixed.exists_yielding derivation yields
  case primary => exact primary.exists_yielding derivation yields
  case arrayLiteral => exact arrayLiteral.exists_yielding derivation yields
  case mapLiteral => exact mapLiteral.exists_yielding derivation yields
  case function => exact function.exists_yielding derivation yields
  case declarationLeft =>
    obtain ⟨tree', operand, evaluated⟩ := exists_suffixed derivation
    rw [← evaluated] at yields
    exact suffixed.exists_yielding operand yields

/-- The kinds of phrases that expressions are made up of. -/
def expressionNames : List Nonterminal :=
  [.expression, .disjunction, .conjunction, .comparison, .sum, .product, .unary, .suffixed,
    .primary, .arrayLiteral, .arrayItems, .mapLiteral, .mapPairs, .mapPair, .function,
    .parameters, .parameterList, .parameter, .arguments, .argumentList, .argumentSequence,
    .argument, .statements, .statementSequence, .statement, .declaration, .declarationLeft]

/-- Those of them that can match nothing. -/
def vanishingNames : List Nonterminal :=
  [.statements, .parameters, .argumentList]

theorem independent_expressions : language.grammar.Independent expressionNames := by
  unfold Grammar.Independent
  decide +kernel

theorem endsSolid_expressions : language.grammar.EndsSolid expressionNames vanishingNames := by
  unfold Grammar.EndsSolid
  decide +kernel

/-- The productions of operands that are names or literals. -/
theorem operands_mem :
    rule .primary [token .identifier] (fun _ name => name.toExpr) ∈ expressionRules ∧
    rule .primary [token .domainName] (fun _ name => name) ∈ expressionRules ∧
    rule .primary [token .number] (fun _ literal => literal) ∈ expressionRules ∧
    rule .primary [token .string] (fun _ literal => literal) ∈ expressionRules ∧
    rule .primary [token .regexp] (fun _ literal => literal) ∈ expressionRules := by
  simp only [expressionRules, operands, List.mem_append, List.mem_cons, eq_self, true_or, or_true,
    and_self]

section Tokens

variable {leaf : Leaf} (found : input.tokens[first]? = some leaf)

include found

theorem spanBetween_succ :
    language.spanBetween input first (first + 1) = leaf.lexeme.span := by
  rw [Language.spanBetween, found, Nat.add_sub_cancel, found]
  simp only [Nat.lt_add_one, if_true]
  rfl

/-- A token that is an operand by itself is an expression. -/
theorem exists_expression_of_operand {tokens : Terminal}
    {action : Span → tokens.Datum → Traced Expr}
    (listed : (⟨⟨.primary, [token tokens], none⟩, action⟩ : Entry) ∈ expressionRules)
    {datum : tokens.Datum} (read : tokens.read leaf = some datum) {node : Expr}
    (yields : Traced.Yields (action leaf.lexeme.span datum) node) :
    ∃ tree, language.grammar.IsDerivation input.tokens .expression first (first + 1) tree ∧
      Traced.Yields (language.evaluate input .expression tree : Traced Expr) node := by
  have listed : (⟨⟨.primary, [token tokens], none⟩, action⟩ : Entry) ∈ language.reductions :=
    List.mem_append_right _ listed
  have accepted : language.grammar.accepts tokens leaf = true :=
    Option.isSome_iff_exists.mpr ⟨datum, read⟩
  obtain ⟨tree, primary, evaluated⟩ := Language.exists_node listed rfl
    (show language.grammar.Derives input.tokens [token tokens] first (first + 1) [.leaf first] from
      .leaf found accepted .nil)
  have atFirst : (input.tokens[first]?).bind (language.read tokens) = some datum := by
    rw [found]
    exact read
  rw [spanBetween_succ found] at evaluated
  have value : (language.evaluate input .primary tree : Traced Expr) =
      action leaf.lexeme.span datum :=
    evaluated.trans ((Language.apply_leaf language atFirst _).trans
      (Language.apply_nil language _))
  exact layers.2.2.2.2.2.2.2.1.exists_yielding primary (value ▸ yields)

/-- A template is an expression. -/
theorem exists_expression_of_template {parts : Traced Expr}
    (read : Terminal.chevron.read leaf = some parts) {node : Expr}
    (yields : Traced.Yields parts node) :
    ∃ tree, language.grammar.IsDerivation input.tokens .expression first (first + 1) tree ∧
      Traced.Yields (language.evaluate input .expression tree : Traced Expr) node := by
  have listed : template .primary id ∈ expressionRules := by
    simp only [expressionRules, operands, List.mem_append, List.mem_cons, eq_self, true_or,
      or_true]
  exact exists_expression_of_operand found listed read (yields.map id)

/-- Names and literals are expressions. -/
theorem exists_expression_of_token {tokens : Terminal} {datum : tokens.Datum}
    (read : tokens.read leaf = some datum) {node : Expr} (member : node ∈ tokens.nodes datum) :
    node.span = leaf.lexeme.span ∧
      ∃ tree, language.grammar.IsDerivation input.tokens .expression first (first + 1) tree ∧
        Traced.Yields (language.evaluate input .expression tree : Traced Expr) node := by
  obtain ⟨identifier, domainName, number, string, regexp⟩ := operands_mem
  have itself : ∀ {expr : Expr}, Traced.Yields (pure expr) expr :=
    Traced.yields_pure_iff.mpr rfl
  obtain ⟨⟨written, start, stop⟩, parts⟩ := leaf
  have read' := read
  cases tokens <;> cases written <;>
    simp only [Terminal.read, Option.ite_none_right_eq_some, Option.some.injEq,
      reduceCtorEq] at read
  case identifier.symbol text =>
    obtain ⟨_, rfl⟩ := read
    obtain rfl := List.mem_singleton.mp member
    exact ⟨rfl, exists_expression_of_operand found identifier read' itself⟩
  case persistent.domainName domain name =>
    obtain ⟨_, rfl⟩ := read
    obtain rfl := List.mem_singleton.mp member
    exact ⟨rfl, exists_expression_of_operand found domainName rfl itself⟩
  case domainName.domainName domain name =>
    subst read
    obtain rfl := List.mem_singleton.mp member
    exact ⟨rfl, exists_expression_of_operand found domainName read' itself⟩
  case number.number value =>
    subst read
    obtain rfl := List.mem_singleton.mp member
    exact ⟨rfl, exists_expression_of_operand found number read' itself⟩
  case string.string value =>
    subst read
    obtain rfl := List.mem_singleton.mp member
    exact ⟨rfl, exists_expression_of_operand found string read' itself⟩
  case regexp.regexp pattern flags =>
    subst read
    obtain rfl := List.mem_singleton.mp member
    exact ⟨rfl, exists_expression_of_operand found regexp read' itself⟩
  all_goals cases member

end Tokens

end Productions

end Krl

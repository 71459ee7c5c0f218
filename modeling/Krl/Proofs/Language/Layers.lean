import Krl.Language
import Krl.Proofs.Grammar.Judgement

/-!
# Layers of expressions

An operand is an expression, since each layer of operators passes on the phrase of the one
below. The left side of a declaration is an operand with suffixes, as each of its productions
has a counterpart that makes the same of its parts. In both cases the value is the same.
-/

namespace Krl

open Grammar

section Nodes

variable {N T K : Type} {m : Type → Type} [DecidableEq N] [Monad m] {language : Language N T K m}
  {reduction : Reduction language.Value language.Datum K m}
  (listed : reduction ∈ language.reductions) {input : Input K} {first last : Nat}
  {children : List Derivation}

include listed

/-- Parts that the symbols of a production derive make up a phrase, of which the action of the
production makes the value. Its guard must let the tokens stand. -/
theorem Language.exists_node_of_admits
    (admitted : reduction.toProduction.Admits input.tokens first last)
    (derived : language.grammar.Derives input.tokens reduction.rhs first last children) :
    ∃ tree, language.grammar.IsDerivation input.tokens reduction.lhs first last tree ∧
      language.evaluate input reduction.lhs tree =
        language.apply input (language.Value reduction.lhs) reduction.rhs
          (reduction.action (language.spanBetween input first last)) children := by
  obtain ⟨index, entry⟩ := List.getElem?_of_mem listed
  have production : language.grammar.productions[index]? = some reduction.toProduction := by
    rw [grammar, List.getElem?_map, entry, Option.map_some]
  exact ⟨_, .node production admitted derived .nil, evaluate_node entry input first last children⟩

theorem Language.exists_node (unguarded : reduction.guard = none)
    (derived : language.grammar.Derives input.tokens reduction.rhs first last children) :
    ∃ tree, language.grammar.IsDerivation input.tokens reduction.lhs first last tree ∧
      language.evaluate input reduction.lhs tree =
        language.apply input (language.Value reduction.lhs) reduction.rhs
          (reduction.action (language.spanBetween input first last)) children :=
  exists_node_of_admits listed (Production.admits_of_unguarded unguarded _ _ _) derived

end Nodes

namespace Productions

variable {input : Input Leaf} {first last : Nat} {tree : Derivation}

/-- A production that passes on the phrase it consists of passes on the value. -/
theorem exists_passed {lhs name : Nonterminal} {value : name.Value → lhs.Value}
    (listed : same lhs name value ∈ language.reductions)
    (derivation : language.grammar.IsDerivation input.tokens name first last tree) :
    ∃ tree', language.grammar.IsDerivation input.tokens lhs first last tree' ∧
      language.evaluate input lhs tree' =
        (value <$> language.evaluate input name tree : Traced lhs.Value) := by
  obtain ⟨tree', derivation', evaluated⟩ := Language.exists_node listed rfl derivation
  refine ⟨tree', derivation', evaluated.trans ((Language.apply_node language _).trans ?_)⟩
  exact (congrArg (Bind.bind _) (funext fun phrase => Language.apply_nil language _)).trans
    (map_eq_pure_bind value (language.evaluate input name tree : Traced name.Value)).symm

/-- A kind of phrase can be an expression by itself, and its value is seen as one. -/
inductive Layer : (name : Nonterminal) → (name.Value → Expr) → Prop where
  | top : Layer .expression id
  | passed {lhs name : Nonterminal} {value : name.Value → lhs.Value} {asExpr : lhs.Value → Expr}
      (listed : same lhs name value ∈ language.reductions) (outer : Layer lhs asExpr) :
      Layer name (asExpr ∘ value)

theorem Layer.exists_expression {name : Nonterminal} {asExpr : name.Value → Expr}
    (layer : Layer name asExpr)
    (derivation : language.grammar.IsDerivation input.tokens name first last tree) :
    ∃ tree', language.grammar.IsDerivation input.tokens .expression first last tree' ∧
      language.evaluate input .expression tree' =
        (asExpr <$> language.evaluate input name tree : Traced Expr) := by
  induction layer generalizing tree with
  | top => exact ⟨tree, derivation, (id_map _).symm⟩
  | @passed lhs name value asExpr listed _ ih =>
      obtain ⟨middle, passed, evaluated⟩ := exists_passed listed derivation
      obtain ⟨tree', expression, evaluated'⟩ := ih passed
      have values : (asExpr <$> language.evaluate input lhs middle : Traced Expr) =
          asExpr <$> value <$> language.evaluate input name tree :=
        congrArg (fun values : Traced lhs.Value => asExpr <$> values) evaluated
      exact ⟨tree', expression, (evaluated'.trans values).trans (comp_map value asExpr
        (language.evaluate input name tree : Traced name.Value)).symm⟩

/-- The productions that pass on an operand to the layer above it. -/
theorem passes_mem :
    same .expression .disjunction id ∈ expressionRules ∧
    same .disjunction .conjunction id ∈ expressionRules ∧
    same .conjunction .comparison id ∈ expressionRules ∧
    same .comparison .sum id ∈ expressionRules ∧
    same .sum .product id ∈ expressionRules ∧
    same .product .unary id ∈ expressionRules ∧
    same .unary .suffixed id ∈ expressionRules ∧
    same .suffixed .primary id ∈ expressionRules ∧
    same .primary .arrayLiteral id ∈ expressionRules ∧
    same .primary .mapLiteral id ∈ expressionRules ∧
    same .primary .function id ∈ expressionRules := by
  simp only [expressionRules, operators, suffixes, operands, List.mem_append, List.mem_cons,
    eq_self, true_or, or_true, and_self]

theorem layer_of_mem {lhs name : Nonterminal} {value : name.Value → lhs.Value}
    {asExpr : lhs.Value → Expr} (listed : same lhs name value ∈ expressionRules)
    (outer : Layer lhs asExpr) : Layer name (asExpr ∘ value) :=
  .passed (List.mem_append_right _ listed) outer

/-- The layers of operators and the operands. -/
theorem layers : Layer .disjunction id ∧ Layer .conjunction id ∧ Layer .comparison id ∧
    Layer .sum id ∧ Layer .product id ∧ Layer .unary id ∧ Layer .suffixed id ∧
    Layer .primary id ∧ Layer .arrayLiteral id ∧ Layer .mapLiteral id ∧ Layer .function id := by
  obtain ⟨h1, h2, h3, h4, h5, h6, h7, h8, h9, h10, h11⟩ := passes_mem
  have disjunction : Layer .disjunction id := layer_of_mem h1 .top
  have conjunction : Layer .conjunction id := layer_of_mem h2 disjunction
  have comparison : Layer .comparison id := layer_of_mem h3 conjunction
  have sum : Layer .sum id := layer_of_mem h4 comparison
  have product : Layer .product id := layer_of_mem h5 sum
  have unary : Layer .unary id := layer_of_mem h6 product
  have suffixed : Layer .suffixed id := layer_of_mem h7 unary
  have primary : Layer .primary id := layer_of_mem h8 suffixed
  exact ⟨disjunction, conjunction, comparison, sum, product, unary, suffixed, primary,
    layer_of_mem h9 primary, layer_of_mem h10 primary, layer_of_mem h11 primary⟩

/-- A production of left sides of declarations has a counterpart among those of operands and
their suffixes, which makes the same of its parts. -/
inductive LeftSide : Entry → Prop where
  | operand {tokens : Terminal} {value : Span → tokens.Datum → Expr}
      (listed : rule .primary [token tokens] value ∈ expressionRules) :
      LeftSide (rule .declarationLeft [token tokens] value)
  | suffix {others : List (Symbol Nonterminal Terminal)}
      {action : Span → Expr → Curried Nonterminal.Value Terminal.Datum others Expr}
      (listed : rule .suffixed (the .suffixed :: others) action ∈ expressionRules) :
      LeftSide (rule .declarationLeft (the .declarationLeft :: others) action)

theorem lhs_ne_declarationLeft : ∀ entry ∈ rulesetRules ++
    (defactions ++ actionBlocks ++ actions ++ identifierLists) ++ ruleRules ++ eventRules ++
      expressionRules, entry.lhs ≠ .declarationLeft := by
  decide +kernel

theorem leftSide_of_declarations :
    ∀ entry ∈ declarations, entry.lhs = .declarationLeft → LeftSide entry := by
  simp only [declarations, List.forall_mem_cons, List.not_mem_nil, false_imp_iff, implies_true,
    and_true]
  repeat' apply And.intro
  all_goals intro lhs
  all_goals
    first
    | exact .operand (by simp only [expressionRules, operands, List.mem_append, List.mem_cons,
        eq_self, true_or, or_true])
    | exact .suffix (by simp only [expressionRules, suffixes, List.mem_append, List.mem_cons,
        eq_self, true_or, or_true])
    | cases lhs

theorem leftSide_of_lhs {entry : Entry} (listed : entry ∈ rulesetRules ++ declarationRules ++
    ruleRules ++ eventRules ++ expressionRules) (lhs : entry.lhs = .declarationLeft) :
    LeftSide entry := by
  by_cases member : entry ∈ declarations
  · exact leftSide_of_declarations entry member lhs
  · refine absurd lhs (lhs_ne_declarationLeft entry ?_)
    simp only [declarationRules, List.mem_append, member, false_or] at listed ⊢
    exact listed

/-- The left side of a declaration is an operand with suffixes. -/
theorem exists_suffixed
    (derivation : language.grammar.IsDerivation input.tokens .declarationLeft first last tree) :
    ∃ tree', language.grammar.IsDerivation input.tokens .suffixed first last tree' ∧
      (language.evaluate input .suffixed tree' : Traced Expr) =
        language.evaluate input .declarationLeft tree := by
  induction size : tree.weight using Nat.strongRecOn generalizing tree last with
  | ind size ih =>
  obtain ⟨index, production, children, found, lhs, _, derived, same⟩ :=
    derives_nonterminal_iff.mp derivation
  cases same
  obtain ⟨reduction, entry, rfl⟩ := Language.production_of_reduction found
  have evaluated := Language.evaluate_node entry input first last children
  cases leftSide_of_lhs (List.mem_of_getElem? entry) lhs with
  | @operand tokens value listed =>
      have listed : rule .primary [token tokens] value ∈ language.reductions :=
        List.mem_append_right _ listed
      obtain ⟨operand, primary, evaluated'⟩ := Language.exists_node listed rfl
        (show language.grammar.Derives input.tokens [token tokens] first last children from derived)
      obtain ⟨tree', suffixed, passed⟩ := exists_passed
        (List.mem_append_right _ passes_mem.2.2.2.2.2.2.2.1) primary
      exact ⟨tree', suffixed, (passed.trans (id_map _)).trans (evaluated'.trans evaluated.symm)⟩
  | @suffix others action listed =>
      have listed : rule .suffixed (the .suffixed :: others) action ∈ language.reductions :=
        List.mem_append_right _ listed
      obtain ⟨middle, child, siblings, object, rest, rfl⟩ :=
        derives_nonterminal_cons_iff.mp (show language.grammar.Derives input.tokens
          (the .declarationLeft :: others) first last children from derived)
      rw [Derivation.weight_node, Derivation.totalWeight_cons] at size
      obtain ⟨child', object', same⟩ := ih child.weight (by omega) object rfl
      obtain ⟨tree', suffixed, evaluated'⟩ := Language.exists_node listed rfl
        (show language.grammar.Derives input.tokens (the .suffixed :: others) first last
          (child' :: siblings) from
            derives_nonterminal_cons_iff.mpr ⟨_, _, _, object', rest, rfl⟩)
      refine ⟨tree', suffixed, evaluated'.trans (Eq.trans ?_ evaluated.symm)⟩
      refine (Language.apply_node language _).trans
        (Eq.trans ?_ (Language.apply_node language _).symm)
      exact congrArg (fun object : Traced Expr => object >>= _) same

end Productions

end Krl

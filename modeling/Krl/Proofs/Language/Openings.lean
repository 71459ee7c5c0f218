import Krl.Proofs.Language.Layers
import Krl.Proofs.Language.Scenery

/-!
# Phrases that open with an expression

Some pairs of productions cannot be told apart by the next two letters, because the
phrases open with what could be an expression of any length: the left side of a
declaration, the variable of an assignment, or a word such as `raise`. All of these
are indeed expressions, and what stands behind such an expression tells the phrases
apart.
-/

namespace Krl

namespace Distinction

open Grammar Productions

variable {tokens : List Leaf} {start stop : Nat}

/-- An operand with its suffixes is an expression. -/
theorem expression_of_suffixed {tree : Derivation}
    (derivation : language.grammar.IsDerivation tokens .suffixed start stop tree) :
    ∃ tree, language.grammar.IsDerivation tokens .expression start stop tree := by
  obtain ⟨_, _, _, _, _, _, suffixed, _⟩ := layers
  obtain ⟨tree, expression, _⟩ := suffixed.exists_expression
    (show language.grammar.IsDerivation (Input.mk tokens 0).tokens _ _ _ _ from derivation)
  exact ⟨tree, expression⟩

theorem suffixed_of_primary {tree : Derivation}
    (derivation : language.grammar.IsDerivation tokens .primary start stop tree) :
    ∃ tree, language.grammar.IsDerivation tokens .suffixed start stop tree := by
  obtain ⟨_, suffixed⟩ := isDerivation_of_hasFree .suffixed [the .primary]
    (by decide) derivation
  exact ⟨_, suffixed⟩

/-- The left side of a declaration begins like an operand and goes on with suffixes. -/
theorem suffixed_of_declarationLeft {tree : Derivation}
    (derivation : language.grammar.IsDerivation tokens .declarationLeft start stop tree) :
    ∃ tree, language.grammar.IsDerivation tokens .suffixed start stop tree := by
  obtain ⟨tree, suffixed, _⟩ := exists_suffixed
    (show language.grammar.IsDerivation (Input.mk tokens 0).tokens _ _ _ _ from derivation)
  exact ⟨tree, suffixed⟩

/-- Some tokens begin with an expression, behind which they follow other symbols. -/
def OpensWith (tokens : List Leaf) (rest : List (Symbol Nonterminal Terminal))
    (start stop : Nat) : Prop :=
  ∃ middle tree trees, language.grammar.IsDerivation tokens .expression start middle tree ∧
    language.grammar.Derives tokens rest middle stop trees ∧
      language.grammar.Remains tokens rest middle

/-- A token that can be an operand by itself. -/
def isOperand : Terminal → Bool
  | .identifier | .domainName | .persistent => true
  | .word text => isIdentifier text
  | _ => false

/-- The class under which a token is an operand. -/
def operandClass : Terminal → Terminal
  | .persistent => .domainName
  | .word _ => .identifier
  | expected => expected

theorem accepts_operandClass {expected : Terminal} {leaf : Leaf}
    (operand : isOperand expected = true)
    (accepted : language.grammar.accepts expected leaf = true) :
    language.grammar.accepts (operandClass expected) leaf = true := by
  rcases leaf with ⟨⟨token, start, stop⟩, parts⟩
  cases expected with
  | word text =>
      obtain rfl : token = .symbol text := Terminal.token_of_word accepted
      show (Terminal.read .identifier ⟨⟨.symbol text, start, stop⟩, parts⟩).isSome = true
      rw [Terminal.read, Option.isSome_ite]
      exact operand
  | persistent =>
      cases token <;> first | rfl | cases accepted
  | identifier => exact accepted
  | domainName => exact accepted
  | _ => cases operand

/-- Productions by which names, and names with suffixes in braces, are operands. -/
theorem hasFree_operands :
    language.grammar.hasFree .primary [token .identifier] = true ∧
      language.grammar.hasFree .primary [token .domainName] = true ∧
        language.grammar.hasFree .suffixed
          [the .suffixed, mark .leftBrace, the .expression, mark .rightBrace] = true := by
  decide +kernel

theorem primary_operandClass {expected : Terminal} (operand : isOperand expected = true) :
    language.grammar.hasFree .primary [.terminal (operandClass expected)] = true := by
  obtain ⟨identifier, domainName, _⟩ := hasFree_operands
  cases expected with
  | word text => exact identifier
  | persistent => exact domainName
  | identifier => exact identifier
  | domainName => exact domainName
  | _ => cases operand

/-- A single token can be an operand with suffixes. -/
theorem suffixed_of_operand {expected : Terminal} {leaf : Leaf}
    (operand : isOperand expected = true) (found : tokens[start]? = some leaf)
    (accepted : language.grammar.accepts expected leaf = true) :
    ∃ tree, language.grammar.IsDerivation tokens .suffixed start (start + 1) tree := by
  obtain ⟨_, primary⟩ := isDerivation_of_hasFree _ _ (primary_operandClass operand)
    (.leaf found (accepts_operandClass operand accepted) .nil)
  exact suffixed_of_primary primary

/-- Some symbols begin with a token that can be an operand. -/
def beginsWithOperand : List (Symbol Nonterminal Terminal) → Bool
  | .terminal expected :: _ => isOperand expected
  | _ => false

/-- What begins with a token that can be an operand opens with an expression. -/
theorem opensWith_of_operand {expected : Terminal} {rest : List (Symbol Nonterminal Terminal)}
    {trees : List Derivation} (operand : isOperand expected = true)
    (derived : language.grammar.Derives tokens (.terminal expected :: rest) start stop trees)
    (remains : language.grammar.Remains tokens (.terminal expected :: rest) start) :
    OpensWith tokens rest start stop := by
  obtain ⟨leaf, siblings, found, accepted, behind, rfl⟩ := derives_terminal_cons_iff.mp derived
  obtain ⟨_, operand⟩ := suffixed_of_operand operand found accepted
  obtain ⟨_, expression⟩ := expression_of_suffixed operand
  exact ⟨_, _, _, expression, behind, remains.next (.leaf found accepted .nil)⟩

/-- A declaration opens with an expression. -/
theorem opensWith_of_declaration {tree : Derivation}
    (derivation : language.grammar.IsDerivation tokens .declaration start stop tree) :
    OpensWith tokens [mark .equal, the .expression] start stop := by
  obtain ⟨index, production, children, listed, lhs, _, derived, _⟩ :=
    derives_nonterminal_iff.mp derivation
  have member := List.mem_of_getElem? listed
  have remains := remains_rhs tokens member start
  have rightSides : language.grammar.rightSides .declaration =
      [[the .declarationLeft, mark .equal, the .expression]] := by
    decide
  have rightSide := mem_rightSides member
  rw [lhs, rightSides, List.mem_singleton] at rightSide
  rw [rightSide] at derived remains
  obtain ⟨middle, left, siblings, first, rest, rfl⟩ := derives_nonterminal_cons_iff.mp derived
  obtain ⟨_, suffixed⟩ := suffixed_of_declarationLeft first
  obtain ⟨_, expression⟩ := expression_of_suffixed suffixed
  exact ⟨_, _, _, expression, rest, remains.next first⟩

/-- A phrase whose right sides all begin with tokens that can be operands opens with
an expression. -/
theorem opensWith_of_operands {name : Nonterminal} {tree : Derivation}
    (operands : ∀ symbols ∈ language.grammar.rightSides name, beginsWithOperand symbols = true)
    (derivation : language.grammar.IsDerivation tokens name start stop tree) :
    ∃ rest ∈ (language.grammar.rightSides name).map List.tail,
      OpensWith tokens rest start stop := by
  obtain ⟨index, production, children, listed, lhs, _, derived, _⟩ :=
    derives_nonterminal_iff.mp derivation
  have member := List.mem_of_getElem? listed
  have remains := remains_rhs tokens member start
  have rightSide := mem_rightSides member
  rw [lhs] at rightSide
  refine ⟨_, List.mem_map_of_mem rightSide, ?_⟩
  have operand := operands _ rightSide
  rcases same : production.rhs with _ | ⟨⟨_⟩ | ⟨expected⟩, rest⟩ <;> rw [same] at operand
  · cases operand
  · cases operand
  · rw [same] at derived remains
    exact opensWith_of_operand operand derived remains

/-- An assignment opens with an expression. -/
theorem opensWith_of_persistentAssignment {tree : Derivation}
    (derivation : language.grammar.IsDerivation tokens .persistentAssignment start stop tree) :
    OpensWith tokens [mark .assign, the .expression] start stop := by
  obtain ⟨index, production, children, listed, lhs, _, derived, _⟩ :=
    derives_nonterminal_iff.mp derivation
  have member := List.mem_of_getElem? listed
  have remains := remains_rhs tokens member start
  have rightSides : language.grammar.rightSides .persistentAssignment =
      [[token .persistent, mark .assign, the .expression],
        [token .persistent, mark .leftBrace, the .expression, mark .rightBrace, mark .assign,
          the .expression]] := by
    decide
  have rightSide := mem_rightSides member
  simp only [lhs, rightSides, List.mem_cons, List.not_mem_nil, or_false] at rightSide
  rcases rightSide with simple | path
  · rw [simple] at derived remains
    exact opensWith_of_operand rfl derived remains
  · -- The variable and the path in braces make up an expression.
    have pieces : production.rhs =
        [token .persistent, mark .leftBrace, the .expression, mark .rightBrace] ++
          [mark .assign, the .expression] :=
      path
    rw [pieces] at derived
    obtain ⟨middle, left, right, rfl, variable_, rest⟩ := derived.split _
    obtain ⟨leaf, siblings, found, accepted, suffix, rfl⟩ :=
      derives_terminal_cons_iff.mp variable_
    obtain ⟨_, object⟩ := suffixed_of_operand rfl found accepted
    obtain ⟨_, suffixed⟩ := isDerivation_of_hasFree _ _ hasFree_operands.2.2
      (derives_nonterminal_cons_iff.mpr ⟨_, _, _, object, suffix, rfl⟩)
    obtain ⟨_, expression⟩ := expression_of_suffixed suffixed
    refine ⟨_, _, _, expression, rest, production, member, 4, start, ?_, .leaf start :: siblings,
      ?_⟩
    · rw [pieces]
      rfl
    · rw [pieces]
      exact variable_

/-- The phrases that begin with a word or a name that can be an operand. -/
theorem opensWith_of_listed {name : Nonterminal} {tree : Derivation}
    (listed : name ∈ [.defaction, .raiseStatement, .scheduleStatement])
    (derivation : language.grammar.IsDerivation tokens name start stop tree) :
    ∃ rest ∈ (language.grammar.rightSides name).map List.tail,
      OpensWith tokens rest start stop := by
  have operands : ∀ name ∈ [Nonterminal.defaction, .raiseStatement, .scheduleStatement],
      ∀ symbols ∈ language.grammar.rightSides name,
        beginsWithOperand symbols = true := by
    decide
  exact opensWith_of_operands (operands name listed) derivation

/-- What may stand behind the expression that some phrases open with. -/
def openings : List (Symbol Nonterminal Terminal) → List (List (Symbol Nonterminal Terminal))
  | [.nonterminal .expression] => [[]]
  | [.nonterminal .declaration] => [[mark .equal, the .expression]]
  | [.nonterminal .statement] => [[], [mark .equal, the .expression]]
  | [.nonterminal .persistentAssignment] => [[mark .assign, the .expression]]
  | [.nonterminal name] => (language.grammar.rightSides name).map List.tail
  | _ => []

/-- The phrases that are known to open with an expression. -/
def opening : List Nonterminal :=
  [.expression, .declaration, .statement, .persistentAssignment, .defaction, .raiseStatement,
    .scheduleStatement]

theorem opensWith_of_opening {name : Nonterminal} {tree : Derivation} (listed : name ∈ opening)
    (remains : language.grammar.Remains tokens [.nonterminal name] start)
    (derivation : language.grammar.IsDerivation tokens name start stop tree) :
    ∃ rest ∈ openings [.nonterminal name], OpensWith tokens rest start stop := by
  simp only [opening, List.mem_cons, List.not_mem_nil, or_false] at listed
  rcases listed with rfl | rfl | rfl | rfl | rfl | rfl | rfl
  · exact ⟨[], List.mem_singleton_self _, _, _, _, derivation, .nil, remains.next derivation⟩
  · exact ⟨_, List.mem_singleton_self _, opensWith_of_declaration derivation⟩
  · obtain ⟨index, production, children, found, lhs, _, derived, _⟩ :=
      derives_nonterminal_iff.mp derivation
    have member := List.mem_of_getElem? found
    have remains := remains_rhs tokens member start
    have rightSides : language.grammar.rightSides .statement =
        [[the .expression], [the .declaration]] := by
      decide
    have rightSide := mem_rightSides member
    simp only [lhs, rightSides, List.mem_cons, List.not_mem_nil, or_false] at rightSide
    rcases rightSide with same | same <;> rw [same] at derived remains
    · obtain ⟨_, tree, _, expression, rest, _⟩ := derives_nonterminal_cons_iff.mp derived
      obtain ⟨rfl, _⟩ := derives_nil_iff.mp rest
      exact ⟨[], List.mem_cons_self, _, _, _, expression, .nil, remains.next expression⟩
    · obtain ⟨_, tree, _, declaration, rest, _⟩ := derives_nonterminal_cons_iff.mp derived
      obtain ⟨rfl, _⟩ := derives_nil_iff.mp rest
      exact ⟨_, List.mem_cons_of_mem _ List.mem_cons_self, opensWith_of_declaration declaration⟩
  · exact ⟨_, List.mem_singleton_self _, opensWith_of_persistentAssignment derivation⟩
  · exact opensWith_of_listed (by decide) derivation
  · exact opensWith_of_listed (by decide) derivation
  · exact opensWith_of_listed (by decide) derivation

end Distinction

end Krl

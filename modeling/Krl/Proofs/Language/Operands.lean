import Krl.Proofs.Language.Lifting
import Krl.Proofs.Syntax.Operands

/-!
# Expressions keep their operands in order

What a production makes of the phrases and tokens of an expression has the operands of these,
one after another. The words that are operators, and `function`, are no operands.
-/

namespace Krl

/-- The words that are not operands of the expressions they stand in. -/
def operatorWords : List String := ["not", "like", "cmp", "function"]

/-- The operand that a word is. -/
def wordOperands (word : String) (span : Span) : List Expr :=
  if word ∈ operatorWords then []
  else if word = "true" then [⟨.boolean true, span⟩]
  else if word = "false" then [⟨.boolean false, span⟩]
  else [⟨.identifier word, span⟩]

/-- The phrase has the operands, if it is one that expressions are made up of. -/
@[simp] def Nonterminal.Adds : (name : Nonterminal) → name.Value → List Expr → Prop
  | .expression, value, operands | .disjunction, value, operands | .conjunction, value, operands
  | .comparison, value, operands | .sum, value, operands | .product, value, operands
  | .unary, value, operands | .suffixed, value, operands | .primary, value, operands
  | .arrayLiteral, value, operands | .mapLiteral, value, operands | .function, value, operands
  | .declarationLeft, value, operands => value.operands = operands
  | .arrayItems, items, operands => items.flatMap Expr.operands = operands
  | .mapPair, value, operands => value.operands = operands
  | .mapPairs, items, operands => items.flatMap MapPair.operands = operands
  | .parameters, value, operands => value.operands = operands
  | .parameterList, items, operands => items.flatMap Parameter.operands = operands
  | .parameter, value, operands => value.operands = operands
  | .arguments, value, operands => value.operands = operands
  | .argumentList, items, operands | .argumentSequence, items, operands =>
      items.flatMap Argument.operands = operands
  | .argument, value, operands => value.operands = operands
  | .statement, value, operands | .declaration, value, operands => value.operands = operands
  | .statements, items, operands | .statementSequence, items, operands =>
      items.flatMap Stmt.operands = operands
  | _, _, _ => True

/-- A token with the meaning has the operands. -/
@[simp] def Terminal.Adds : (tokens : Terminal) → tokens.Datum → List Expr → Prop
  | .punct _, _, operands => [] = operands
  | .word text, place, operands => wordOperands text place = operands
  | .identifier, name, operands => [name.toExpr] = operands
  | .symbol, name, operands => wordOperands name.value name.span = operands
  | .number, value, operands | .string, value, operands | .regexp, value, operands
  | .domainName, value, operands | .persistent, value, operands => value.operands = operands
  | .chevron, parts, operands => ∀ value, Traced.Yields parts value → value.operands = operands

theorem Nonterminal.adds_of_apart {name : Nonterminal} (apart : name ∉ Productions.expressionNames)
    (value : name.Value) (operands : List Expr) : name.Adds value operands := by
  cases name <;> first | exact True.intro | exact absurd (by decide) apart

/-- Identifiers are operands, since the words that are none are reserved. -/
theorem wordOperands_of_isIdentifier {word : String} (identifier : isIdentifier word = true)
    (span : Span) : wordOperands word span = [⟨.identifier word, span⟩] := by
  have other : ∀ reserved ∈ reservedWords, word ≠ reserved := by
    rintro reserved member rfl
    simp [isIdentifier, member] at identifier
  have operators : ∀ operator ∈ operatorWords, operator ∈ reservedWords := by decide
  have apart : word ∉ operatorWords := fun member => other word (operators word member) rfl
  rw [wordOperands, if_neg apart, if_neg (other "true" (by decide)),
    if_neg (other "false" (by decide))]

@[simp] theorem operands_toExpr (name : Identifier) : name.toExpr.operands = [name.toExpr] :=
  rfl

namespace Productions

/-- A phrase leads from operands to those with its own behind them. -/
def addsPhrase (name : Nonterminal) (value : name.Value) (before after : List Expr) : Prop :=
  ∃ operands, name.Adds value operands ∧ before ++ operands = after

/-- A token leads from operands to those with its own behind them. -/
def addsToken (tokens : Terminal) (datum : tokens.Datum) (before after : List Expr) : Prop :=
  ∃ operands, tokens.Adds datum operands ∧ before ++ operands = after

/-- What a production makes has the operands of its parts, in order. -/
inductive AddsUp : Entry → Prop where
  | parts {entry : Entry}
      (makes : Makes addsPhrase addsToken [] (fun name _ operands value => name.Adds value operands)
        entry) : AddsUp entry
  /-- The word is the whole phrase, so it has the same span. -/
  | literal {text : String} {value : Bool}
      (means : ∀ place, wordOperands text place = [⟨.boolean value, place⟩]) :
      AddsUp (rule .primary [word text] fun span _ => ⟨.boolean value, span⟩)

theorem addsUp_rule {lhs : Nonterminal} {rhs : List (Symbol Nonterminal Terminal)}
    {action : Span → Curried Nonterminal.Value Terminal.Datum rhs lhs.Value}
    (adds : ∀ span, Threads addsPhrase addsToken (fun operands value => lhs.Adds value operands)
      rhs [] (action span)) :
    AddsUp (rule lhs rhs action) :=
  .parts (makes_rule_iff.mpr adds)

theorem addsUp_template {lhs : Nonterminal} {value : Expr → lhs.Value}
    (same : ∀ expr operands, expr.operands = operands → lhs.Adds (value expr) operands) :
    AddsUp (template lhs value) := by
  refine .parts (makes_template_iff.mpr ?_)
  rintro span parts next ⟨operands, adds, rfl⟩ expr yields
  exact same expr operands (adds expr yields)

theorem addsUp_expressionRules : ∀ entry ∈ expressionRules, AddsUp entry := by
  simp only [expressionRules, operators, suffixes, operands, collections, functions, calls,
    statements, List.forall_mem_append, List.forall_mem_cons, List.map_cons, List.map_nil]
  repeat' apply And.intro
  all_goals
    first
    | exact addsUp_template fun _ _ adds => adds
    | exact .literal fun _ => rfl
    | exact List.forall_mem_nil _
    | apply addsUp_rule
      simp +contextual [Threads, addsPhrase, addsToken, wordOperands, operatorWords]

theorem addsUp_declarations : ∀ entry ∈ declarations, AddsUp entry := by
  simp only [declarations, List.forall_mem_cons]
  repeat' apply And.intro
  all_goals
    first
    | exact List.forall_mem_nil _
    | apply addsUp_rule
      simp +contextual [Threads, addsPhrase, addsToken]

theorem apart_otherRules : ∀ entry ∈ rulesetRules ++ (defactions ++ actionBlocks ++ actions ++
    identifierLists) ++ ruleRules ++ eventRules, entry.lhs ∉ expressionNames := by
  decide +kernel

/-- All productions of phrases that expressions are made up of add up, and no other one makes
such a phrase. -/
theorem addsUp_of_mem : ∀ entry ∈ rulesetRules ++ declarationRules ++ ruleRules ++ eventRules ++
    expressionRules, AddsUp entry ∨ entry.lhs ∉ expressionNames := by
  simp only [declarationRules, List.append_assoc, List.forall_mem_append]
  have others := apart_otherRules
  simp only [List.append_assoc, List.forall_mem_append] at others
  obtain ⟨rulesets, defactions, blocks, actions, identifiers, rules, events⟩ := others
  exact ⟨fun entry listed => .inr (rulesets entry listed),
    fun entry listed => .inl (addsUp_declarations entry listed),
    fun entry listed => .inr (defactions entry listed),
    fun entry listed => .inr (blocks entry listed),
    fun entry listed => .inr (actions entry listed),
    fun entry listed => .inr (identifiers entry listed),
    fun entry listed => .inr (rules entry listed),
    fun entry listed => .inr (events entry listed),
    fun entry listed => .inl (addsUp_expressionRules entry listed)⟩

end Productions

end Krl

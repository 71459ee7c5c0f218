import Krl.Proofs.Language.Lifting
import Krl.Proofs.Parse.Outcomes
import Krl.Proofs.Syntax.Climbing
import Krl.Proofs.Token.Spacing

/-!
# The precedence of operators

A source that is a chain of operands with operators between and before them is parsed, and the
tree is the one that precedence climbing answers. The chart parser knows layers of phrases
instead of precedences; the two agree for chains of any length. The same is said of
conditionals, whose parts are such chains.
-/

namespace Krl

/-- How the operator is written. -/
def UnaryOp.sign : UnaryOp → Fixed
  | not => .word "not"
  | plus => .mark .plus
  | minus => .mark .minus

namespace BinaryOp

/-- How the operator is written. -/
def sign : BinaryOp → Fixed
  | or => .mark .either
  | and => .mark .both
  | eq => .mark .equalTo
  | notEq => .mark .notEqualTo
  | lt => .mark .less
  | le => .mark .lessEqual
  | gt => .mark .greater
  | ge => .mark .greaterEqual
  | spaceship => .mark .spaceship
  | cmp => .word "cmp"
  | like => .word "like"
  | contains => .mark .contains
  | add => .mark .plus
  | sub => .mark .minus
  | mul => .mark .star
  | div => .mark .slash
  | mod => .mark .percent

/-- How tightly the operator binds, the loosest first. -/
def precedence : BinaryOp → Nat
  | or => 0
  | and => 1
  | eq | notEq | lt | le | gt | ge | spaceship | cmp | like | contains => 2
  | add | sub => 3
  | mul | div | mod => 4

theorem precedence_lt (op : BinaryOp) : op.precedence < 5 := by
  cases op <;> decide

end BinaryOp

/-- Operands of a single token. -/
inductive Operand where
  | identifier (name : String) (free : isIdentifier name = true)
  | domainName (domain name : String)
  | number (value : Binary64)
  | string (value : String)

namespace Operand

/-- The token that the operand is. -/
def token : Operand → Token
  | identifier name _ => .symbol name
  | domainName domain name => .domainName domain name
  | number value => .number value
  | string value => .string value

/-- The expression that the operand is. -/
def kind : Operand → ExprKind
  | identifier name _ => .identifier name
  | domainName domain name => .domainIdentifier domain name
  | number value => .number value
  | string value => .string value

end Operand

/-- The token that an operand is, at its place. -/
def Spanned.lexeme (operand : Spanned Operand) : Lexeme :=
  ⟨operand.value.token, operand.span.start, operand.span.stop⟩

/-- An operand with unary operators before it. -/
structure Signed where
  signs : List (Spanned UnaryOp)
  operand : Spanned Operand

namespace Signed

def lexemes (signed : Signed) : List Lexeme :=
  signed.signs.map (fun sign => sign.value.sign.lexeme sign.span) ++ [signed.operand.lexeme]

/-- Unary operators apply to all that follows them. -/
def tree (signed : Signed) : Expr :=
  signed.signs.foldr (fun sign inner => ⟨.unary sign.value inner, sign.span.start, inner.span.stop⟩)
    ⟨signed.operand.value.kind, signed.operand.span⟩

end Signed

/-- Binary operators with their precedences. What one makes of its sides covers both. -/
def binaries : Infixes (Spanned BinaryOp) Expr where
  precedence := fun op => op.value.precedence
  join := fun left op right => ⟨.binary op.value left right, left.span.start, right.span.stop⟩

/-- A chain of operands with binary operators between them. -/
structure Chain where
  first : Signed
  others : List (Spanned BinaryOp × Signed)

namespace Chain

def lexemes (chain : Chain) : List Lexeme :=
  chain.first.lexemes ++
    chain.others.flatMap fun item => item.1.value.sign.lexeme item.1.span :: item.2.lexemes

def tree (chain : Chain) : Expr :=
  binaries.tree chain.first.tree (chain.others.map fun item => (item.1, item.2.tree))

end Chain

/-- A chain, or a chain that chooses between another one and a conditional. -/
inductive Conditional where
  | plain (chain : Chain)
  | choice (test : Chain) (arrow : Span) (consequent : Chain) (pipe : Span)
      (alternate : Conditional)

namespace Conditional

def lexemes : Conditional → List Lexeme
  | plain chain => chain.lexemes
  | choice test arrow consequent pipe alternate =>
      test.lexemes ++ ((Fixed.mark .arrow).lexeme arrow ::
        (consequent.lexemes ++ ((Fixed.mark .pipe).lexeme pipe :: alternate.lexemes)))

/-- Conditionals are looser than all operators and group to the right. -/
def tree : Conditional → Expr
  | plain chain => chain.tree
  | choice test _ consequent _ alternate =>
      ⟨.conditional test.tree consequent.tree alternate.tree,
        test.tree.span.start, alternate.tree.span.stop⟩

end Conditional

namespace Productions

/-- The tokens form an expression of a layer of operators. -/
def LayerPhrase (input : Input Leaf) : (level first last : Nat) → Expr → Prop
  | 0 => Phrase input .disjunction
  | 1 => Phrase input .conjunction
  | 2 => Phrase input .comparison
  | 3 => Phrase input .sum
  | 4 => Phrase input .product
  | _ => Phrase input .unary

/-- The productions of binary operators. -/
theorem binaries_mem (op : BinaryOp) :
    (op.precedence = 0 →
      rule .disjunction [the .disjunction, token op.sign.terminal, the .conjunction]
        (fun span left _ right => ⟨.binary op left right, span⟩) ∈ expressionRules) ∧
    (op.precedence = 1 →
      rule .conjunction [the .conjunction, token op.sign.terminal, the .comparison]
        (fun span left _ right => ⟨.binary op left right, span⟩) ∈ expressionRules) ∧
    (op.precedence = 2 → rule .comparison [the .comparison, token op.sign.terminal, the .sum]
      (fun span left _ right => ⟨.binary op left right, span⟩) ∈ expressionRules) ∧
    (op.precedence = 3 → rule .sum [the .sum, token op.sign.terminal, the .product]
      (fun span left _ right => ⟨.binary op left right, span⟩) ∈ expressionRules) ∧
    (op.precedence = 4 → rule .product [the .product, token op.sign.terminal, the .unary]
      (fun span left _ right => ⟨.binary op left right, span⟩) ∈ expressionRules) := by
  cases op
  all_goals
    simp only [BinaryOp.precedence, BinaryOp.sign, Fixed.terminal, expressionRules, operators,
      List.mem_append, List.mem_cons, List.map_cons, List.map_nil, eq_self, true_or, or_true,
      forall_const, Nat.reduceEqDiff, false_imp_iff, and_self]

theorem signs_mem (op : UnaryOp) : rule .unary [token op.sign.terminal, the .unary]
    (fun span _ operand => ⟨.unary op operand, span⟩) ∈ expressionRules := by
  cases op
  all_goals
    simp only [UnaryOp.sign, Fixed.terminal, expressionRules, operators,
      List.mem_append, List.mem_cons, List.map_cons, List.map_nil, eq_self, true_or, or_true]

theorem choice_mem : rule .expression
    [the .disjunction, mark .arrow, the .disjunction, mark .pipe, the .expression]
    (fun span test _ consequent _ alternate => ⟨.conditional test consequent alternate, span⟩) ∈
      expressionRules := by
  simp only [expressionRules, operators, List.mem_append, List.mem_cons, eq_self, true_or, or_true]

variable {input : Input Leaf}

theorem layerPhrase_looser {level first last : Nat} {value : Expr}
    (phrase : LayerPhrase input (level + 1) first last value) :
    LayerPhrase input level first last value := by
  obtain ⟨_, h0, h1, h2, h3, h4, _⟩ := passes_mem
  match level with
  | 0 => exact phrase_of_same (List.mem_append_right _ h0) phrase
  | 1 => exact phrase_of_same (List.mem_append_right _ h1) phrase
  | 2 => exact phrase_of_same (List.mem_append_right _ h2) phrase
  | 3 => exact phrase_of_same (List.mem_append_right _ h3) phrase
  | 4 => exact phrase_of_same (List.mem_append_right _ h4) phrase
  | _ + 5 => exact phrase

/-- An operator joins a phrase of its own layer with one of the next. -/
theorem layerPhrase_join {op : BinaryOp} {place : Span} {first middle last : Nat}
    {left right : Expr}
    (sign : input.tokens[middle]? = some (.ofLexeme (op.sign.lexeme place)))
    (leftSide : LayerPhrase input op.precedence first middle left)
    (rightSide : LayerPhrase input (op.precedence + 1) (middle + 1) last right) :
    LayerPhrase input op.precedence first last
      ⟨.binary op left right, language.spanBetween input first last⟩ := by
  obtain ⟨h0, h1, h2, h3, h4⟩ := binaries_mem op
  obtain ⟨datum, read⟩ := Fixed.exists_datum sign
  have bound := op.precedence_lt
  generalize op.precedence = level at *
  match level with
  | 0 =>
      exact phrase_of_rule (List.mem_append_right _ (h0 rfl))
        (supplies_joined leftSide read rightSide)
  | 1 =>
      exact phrase_of_rule (List.mem_append_right _ (h1 rfl))
        (supplies_joined leftSide read rightSide)
  | 2 =>
      exact phrase_of_rule (List.mem_append_right _ (h2 rfl))
        (supplies_joined leftSide read rightSide)
  | 3 =>
      exact phrase_of_rule (List.mem_append_right _ (h3 rfl))
        (supplies_joined leftSide read rightSide)
  | 4 =>
      exact phrase_of_rule (List.mem_append_right _ (h4 rfl))
        (supplies_joined leftSide read rightSide)
  | _ + 5 => omega

/-- A token that is an operand is an expression of the tightest layer. -/
theorem layerPhrase_operand {operand : Spanned Operand} {index : Nat}
    (found : input.tokens[index]? = some (.ofLexeme operand.lexeme)) :
    LayerPhrase input 5 index (index + 1) ⟨operand.value.kind, operand.span⟩ := by
  obtain ⟨identifier, domainName, number, string, _⟩ := operands_mem
  obtain ⟨_, _, _, _, _, _, suffixed, primary, _⟩ := passes_mem
  refine phrase_of_same (List.mem_append_right _ suffixed)
    (phrase_of_same (List.mem_append_right _ primary) ?_)
  obtain ⟨operand, span⟩ := operand
  have read {tokens : Terminal} {datum : tokens.Datum} (read : tokens.read _ = some datum) :
      (phrases input).datum tokens index datum :=
    (congrArg (Option.bind · tokens.read) found).trans read
  cases operand with
  | identifier name free =>
      exact phrase_of_rule (List.mem_append_right _ identifier)
        (.terminal (read (if_pos free)) .nil)
  | domainName domain name =>
      exact phrase_of_rule (List.mem_append_right _ domainName) (.terminal (read rfl) .nil)
  | number value =>
      exact phrase_of_rule (List.mem_append_right _ number) (.terminal (read rfl) .nil)
  | string value =>
      exact phrase_of_rule (List.mem_append_right _ string) (.terminal (read rfl) .nil)

end Productions

open Productions

/-- The tokens form an expression of a layer, which has their span. -/
def Operation (input : Input Leaf) (level first last : Nat) (value : Expr) : Prop :=
  LayerPhrase input level first last value ∧ SpanOf input first last value.span

variable {input : Input Leaf} {index last : Nat}

/-- Unary operators and the operand behind them are an expression. The induction is on the
operators. -/
theorem Signed.operation (signed : Signed) (stand : Stand input index signed.lexemes last) :
    Operation input 5 index last signed.tree := by
  obtain ⟨signs, operand⟩ := signed
  induction signs generalizing index with
  | nil =>
      obtain ⟨found, rfl⟩ := stand
      exact ⟨layerPhrase_operand found, .lexeme found⟩
  | cons sign signs ih =>
      obtain ⟨found, rest⟩ := stand
      obtain ⟨phrase, covers⟩ := ih rest
      obtain ⟨datum, read⟩ := Fixed.exists_datum found
      have whole := SpanOf.join (.lexeme found) covers (Nat.le_refl _)
      have unary := phrase_of_rule (List.mem_append_right _ (signs_mem sign.value))
        (.terminal read (supplies_phrase phrase .nil))
      rw [whole.spanBetween_eq] at unary
      exact ⟨unary, whole⟩

/-- Binary operators stand between phrases of their layers. -/
theorem layered_binaries : binaries.Layered
    (fun middle op => input.tokens[middle]? = some (.ofLexeme (op.value.sign.lexeme op.span)))
    (Operation input 5) (Operation input) 5 where
  looser := fun ⟨phrase, covers⟩ => ⟨layerPhrase_looser phrase, covers⟩
  joined := by
    intro op first middle last left right sign leftSide rightSide
    have whole := leftSide.2.join rightSide.2 (Nat.le_succ middle)
    have phrase := layerPhrase_join sign leftSide.1 rightSide.1
    rw [whole.spanBetween_eq] at phrase
    exact ⟨phrase, whole⟩
  tightest := id
  below := fun op => op.value.precedence_lt

/-- The operators and operands of a chain are strung in the input. -/
theorem strung_of_stand {others : List (Spanned BinaryOp × Signed)}
    (stand : Stand input index
      (others.flatMap fun item => item.1.value.sign.lexeme item.1.span :: item.2.lexemes) last) :
    Infixes.Strung
      (fun middle op => input.tokens[middle]? = some (.ofLexeme (op.value.sign.lexeme op.span)))
      (Operation input 5) index (others.map fun item => (item.1, item.2.tree)) last := by
  induction others generalizing index with
  | nil =>
      cases stand
      exact .nil
  | cons item others ih =>
      obtain ⟨_, ⟨sign, side⟩, rest⟩ := stand_append_iff.mp stand
      exact .cons sign (item.2.operation side) (ih rest)

theorem Chain.operation (chain : Chain) (stand : Stand input index chain.lexemes last) :
    Operation input 0 index last chain.tree := by
  obtain ⟨_, first, others⟩ := stand_append_iff.mp stand
  exact layered_binaries.tree (chain.first.operation first) (strung_of_stand others)

/-- Conditionals of chains are expressions. The induction is on the alternatives. -/
theorem Conditional.phrase (conditional : Conditional)
    (stand : Stand input index conditional.lexemes last) :
    Phrase input .expression index last conditional.tree ∧
      SpanOf input index last conditional.tree.span := by
  induction conditional generalizing index with
  | plain chain =>
      obtain ⟨phrase, covers⟩ := chain.operation stand
      exact ⟨phrase_of_same (List.mem_append_right _ passes_mem.1) phrase, covers⟩
  | choice test arrow consequent pipe alternate ih =>
      obtain ⟨_, testStand, arrowFound, rest⟩ := stand_append_iff.mp stand
      obtain ⟨_, consequentStand, pipeFound, alternateStand⟩ := stand_append_iff.mp rest
      obtain ⟨testPhrase, testCovers⟩ := test.operation testStand
      obtain ⟨consequentPhrase, _⟩ := consequent.operation consequentStand
      obtain ⟨alternatePhrase, alternateCovers⟩ := ih alternateStand
      obtain ⟨_, arrowRead⟩ := Fixed.exists_datum arrowFound
      obtain ⟨_, pipeRead⟩ := Fixed.exists_datum pipeFound
      have between := consequentStand.le
      have whole := testCovers.join alternateCovers (by omega)
      have phrase := phrase_of_rule (List.mem_append_right _ choice_mem)
        (supplies_phrase testPhrase (.terminal arrowRead (supplies_phrase consequentPhrase
          (.terminal pipeRead (supplies_phrase alternatePhrase .nil)))))
      rw [whole.spanBetween_eq] at phrase
      exact ⟨phrase, whole⟩

/-- A source whose tokens are those of a conditional, or of a chain, is parsed to its tree. -/
theorem parseExpression_conditional {source : String} {lexemes : List Lexeme}
    (read : Token.tokenize source = .ok lexemes) {conditional : Conditional}
    (written : significant lexemes = conditional.lexemes) :
    parseExpression source = .ok conditional.tree := by
  obtain ⟨phrase, _⟩ := conditional.phrase
    (stand_leavesOf conditional.lexemes (Text.byteLength source.toList))
  rw [parseExpression_eq, outcome_of_phrase .expression read written
    (fun _ derivation _ derivation' => Distinction.expression_unique derivation derivation') phrase]
  rfl

/-- The text of a conditional whose words have space between them is parsed to the tree that
precedence climbing gives its chains. -/
theorem parseExpression_of_spaced {source : String} {conditional : Conditional}
    (spaced : Token.Spaced 0 conditional.lexemes source.toList) :
    parseExpression source = .ok conditional.tree := by
  obtain ⟨lexemes, read, written⟩ := spaced.exists_tokenize
  exact parseExpression_conditional read written

/-- A unary operator, two binary ones, and a conditional in one source. -/
theorem parseExpression_of_spaced_choice :
    ∃ conditional : Conditional,
      Token.Spaced 0 conditional.lexemes " not a - b * c => x | y".toList ∧
      parseExpression " not a - b * c => x | y" = .ok conditional.tree ∧
      conditional.tree = ⟨.conditional
        ⟨.binary .sub ⟨.unary .not ⟨.identifier "a", 5, 6⟩, 1, 6⟩
          ⟨.binary .mul ⟨.identifier "b", 9, 10⟩ ⟨.identifier "c", 13, 14⟩, 9, 14⟩, 1, 14⟩
        ⟨.identifier "x", 18, 19⟩ ⟨.identifier "y", 22, 23⟩, 1, 23⟩ := by
  let name (text : String) (start : Nat) (free : isIdentifier text = true) : Signed :=
    ⟨[], ⟨.identifier text free, start, start + 1⟩⟩
  let conditional : Conditional :=
    .choice
      ⟨⟨[⟨.not, 1, 4⟩], ⟨.identifier "a" rfl, 5, 6⟩⟩,
        [(⟨.sub, 7, 8⟩, name "b" 9 rfl), (⟨.mul, 11, 12⟩, name "c" 13 rfl)]⟩
      ⟨15, 17⟩ ⟨name "x" 18 rfl, []⟩ ⟨20, 21⟩ (.plain ⟨name "y" 22 rfl, []⟩)
  have words : ∀ word ∈ [(['n', 'o', 't'], Token.PlainToken.word), (['a'], .word),
      (['-'], .punct .minus), (['b'], .word), (['*'], .punct .star), (['c'], .word),
      (['=', '>'], .punct .arrow), (['x'], .word), (['|'], .punct .pipe), (['y'], .word)],
      Token.isPlain word = true := by
    decide +kernel
  have spaced : Token.Spaced 0 conditional.lexemes " not a - b * c => x | y".toList :=
    Token.spaced_of_plain words 0
  refine ⟨conditional, spaced, parseExpression_of_spaced spaced, ?_⟩
  simp [conditional, name, Conditional.tree, Chain.tree, Infixes.tree, binaries, Signed.tree,
    BinaryOp.precedence, Operand.kind]

end Krl

import Krl.Proofs.Language.Operands
import Krl.Proofs.Parse.Templates

/-!
# No operand is lost

The operands of an expression are those among its tokens, in the same order. A template stands
for the texts in it and the operands of its interpolations.
-/

namespace Krl

open Productions

mutual

/-- The operands that a token stands for. Punctuation and trivia are none. -/
def Token.operands : Token → Span → List Expr
  | .number value, span => [⟨.number value, span⟩]
  | .string value, span => [⟨.string value, span⟩]
  | .regexp pattern flags, span => [⟨.regexp pattern flags, span⟩]
  | .domainName domain name, span => [⟨.domainIdentifier domain name, span⟩]
  | .symbol word, span => wordOperands word span
  | .chevron parts, _ => partsOperands parts
  | .whitespace, _ | .lineComment, _ | .blockComment, _ | .punct _, _ => []

def TemplatePart.operands : TemplatePart → List Expr
  | .text value start stop => [⟨.string value, ⟨start, stop⟩⟩]
  | .interpolation tokens _ _ => lexemesOperands tokens

def partsOperands : List TemplatePart → List Expr
  | [] => []
  | part :: others => part.operands ++ partsOperands others

/-- The operands among some tokens. -/
def lexemesOperands : List Lexeme → List Expr
  | [] => []
  | ⟨token, start, stop⟩ :: others => token.operands ⟨start, stop⟩ ++ lexemesOperands others

end

theorem lexemesOperands_eq (lexemes : List Lexeme) :
    lexemesOperands lexemes = lexemes.flatMap fun lexeme => lexeme.token.operands lexeme.span := by
  induction lexemes with
  | nil => rfl
  | cons first others ih =>
      obtain ⟨token, start, stop⟩ := first
      rw [lexemesOperands, ih, List.flatMap_cons]
      rfl

theorem lexemesOperands_significant (lexemes : List Lexeme) :
    lexemesOperands (significant lexemes) = lexemesOperands lexemes := by
  induction lexemes with
  | nil => rfl
  | cons first others ih =>
      obtain ⟨token, start, stop⟩ := first
      rw [significant, List.filter_cons]
      split
      · rw [lexemesOperands, lexemesOperands, ← ih]
        rfl
      next trivia =>
          have none : token.operands ⟨start, stop⟩ = [] := by
            cases token <;> first | rfl | exact absurd rfl trivia
          rw [lexemesOperands, none, List.nil_append, ← ih]
          rfl

/-- The value of a part of a template has the operands of the part. -/
def SameOperands (part : TemplatePart) (value : Expr) : Prop :=
  value.operands = part.operands

theorem operands_of_forall₂ {parts : List TemplatePart} {values : List Expr}
    (same : List.Forall₂ SameOperands parts values) :
    values.flatMap Expr.operands = partsOperands parts := by
  induction same with
  | nil => rfl
  | cons first _ ih => rw [List.flatMap_cons, first, ih, partsOperands]

/-- What a token means has the operands of the token. -/
theorem adds_of_means {start stop : Nat} {token : Token} {tokens : Terminal}
    {datum : tokens.Datum} (parts : PartsRelated SameOperands token)
    (means : Means start stop token tokens datum) :
    tokens.Adds datum (token.operands ⟨start, stop⟩) := by
  cases means with
  | identifier identifier => exact (wordOperands_of_isIdentifier identifier _).symm
  | chevron texts ends =>
      intro value yields
      obtain ⟨values, yielded, rfl⟩ := ends value yields
      rw [Expr.operands, ExprKind.operands, exprsOperands_eq, Token.operands]
      exact operands_of_forall₂ (parts values yielded)
  | punct | word | symbol | number | string | regexp | domainName | persistent => rfl

/-- The operands of the tokens before an index. -/
def operandsBefore (lexemes : List Lexeme) (index : Nat) : List Expr :=
  lexemesOperands (lexemes.take index)

/-- The operands are those of the tokens from an index up to another. -/
def Spells (lexemes : List Lexeme) (first : Nat) (operands : List Expr) (last : Nat) : Prop :=
  operandsBefore lexemes first ++ operands = operandsBefore lexemes last

/-- Phrases have the operands of the tokens that they cover. -/
def adding (lexemes : List Lexeme) : Invariant where
  value := fun name first last value => ∃ operands, name.Adds value operands ∧
    Spells lexemes first operands last
  datum := fun tokens index datum => ∃ token start stop,
    lexemes[index]? = some ⟨token, start, stop⟩ ∧ Means start stop token tokens datum ∧
      tokens.Adds datum (token.operands ⟨start, stop⟩)

section Phrases

variable {lexemes : List Lexeme} {first middle last : Nat} {operands added : List Expr}

theorem Spells.append (spells : Spells lexemes first operands middle)
    (more : Spells lexemes middle added last) : Spells lexemes first (operands ++ added) last := by
  rw [Spells, ← List.append_assoc, spells, more]

theorem spells_succ {token : Token} {start stop : Nat}
    (found : lexemes[first]? = some ⟨token, start, stop⟩) :
    Spells lexemes first (token.operands ⟨start, stop⟩) (first + 1) := by
  simp only [Spells, operandsBefore, lexemesOperands_eq, List.take_add_one, found, Option.toList,
    List.flatMap_append, List.flatMap_cons, List.flatMap_nil, List.append_nil, Lexeme.span]

theorem exists_spells (le : first ≤ last) : ∃ operands, Spells lexemes first operands last := by
  obtain ⟨others, same⟩ := List.take_prefix_take_left (l := lexemes) le
  refine ⟨lexemesOperands others, ?_⟩
  simp only [Spells, operandsBefore, lexemesOperands_eq, ← same, List.flatMap_append]

/-- A production that adds up has the operands of the tokens it covers. -/
theorem spells_of_addsUp {entry : Entry} (adds : AddsUp entry) {stop : Nat}
    {computation : Traced entry.lhs.Value} {value : entry.lhs.Value}
    (supplies : (adding lexemes).Supplies entry.rhs first last
      (entry.action (language.spanBetween ⟨leavesOf lexemes, stop⟩ first last)) computation)
    (yields : Traced.Yields computation value) :
    (adding lexemes).value entry.lhs first last value := by
  cases adds with
  | parts makes =>
      have phrases : ∀ name here next value before, (adding lexemes).value name here next value →
          Spells lexemes first before here →
            ∃ after, addsPhrase name value before after ∧ Spells lexemes first after next := by
        rintro name here next value before ⟨operands, adds, spells⟩ spelled
        exact ⟨before ++ operands, ⟨operands, adds, rfl⟩, spelled.append spells⟩
      have tokens : ∀ tokens index datum before, (adding lexemes).datum tokens index datum →
          Spells lexemes first before index →
            ∃ after, addsToken tokens datum before after ∧
              Spells lexemes first after (index + 1) := by
        rintro tokens index datum before ⟨token, start, stop, found, _, adds⟩ covered
        exact ⟨_, ⟨_, adds, rfl⟩, covered.append (spells_succ found)⟩
      obtain ⟨operands, covered, made⟩ :=
        supplies.threads phrases tokens (List.append_nil _) (makes _)
      exact ⟨operands, made value yields, covered⟩
  | @literal text value means =>
      cases supplies with
      | terminal known rest =>
          cases rest
          obtain ⟨token, start, stop, found, means_, _⟩ := known
          cases means_
          have leaf : (leavesOf lexemes)[first]? =
              some (.ofLexeme ⟨.symbol text, start, stop⟩) :=
            getElem?_leavesOf_iff.mpr ⟨_, found, rfl⟩
          cases Traced.yields_pure_iff.mp yields
          rw [spanBetween_succ leaf, lexeme_ofLexeme]
          exact ⟨_, (means ⟨start, stop⟩).symm, spells_succ found⟩

/-- The operands of what some tokens are parsed to. The induction behind it is on their
derivation. -/
theorem operands_parseLeaves
    (parts : ∀ lexeme ∈ lexemes, PartsRelated SameOperands lexeme.token) {stop : Nat}
    {atEnd : Option Nat} {value : Expr}
    (yields : Traced.Yields (parseLeaves .expression (leavesOf lexemes) stop atEnd) value) :
    value.operands = lexemesOperands (significant lexemes) := by
  have known : (adding (significant lexemes)).value .expression 0 (significant lexemes).length
      value := by
    refine @Invariant.holds_parseLeaves .expression _ _ _ _ ?_ ?_ _ yields
    · rintro index ⟨token, start, stop⟩ found tokens datum read
      have member : ⟨token, start, stop⟩ ∈ lexemes :=
        (List.mem_filter.mp (List.mem_of_getElem? found)).1
      have means := means_of_read read
      exact ⟨_, _, _, found, means, adds_of_means (parts _ member) means⟩
    · intro entry listed first last tree computation value _ supplies yields
      rcases addsUp_of_mem entry listed with adds | apart
      · exact spells_of_addsUp adds supplies yields
      · obtain ⟨operands, spells⟩ := @exists_spells (significant lexemes) _ _ supplies.le
        exact ⟨operands, Nonterminal.adds_of_apart apart value operands, spells⟩
  obtain ⟨operands, rfl, spells⟩ := known
  rwa [Spells, operandsBefore, operandsBefore, List.take_zero, List.take_length] at spells

end Phrases

theorem relatesParts_operands : RelatesParts SameOperands where
  text := fun _ _ _ => rfl
  interpolation := by
    intro tokens start close value parts yields
    exact (operands_parseLeaves parts yields).trans (lexemesOperands_significant tokens)

/-- No operand is lost, duplicated or reordered. The leaves of an expression, in the order of
its fields, are the operands among the significant tokens of the source. -/
theorem parseExpression_operands {source : String} {expr : Expr}
    (parsed : parseExpression source = .ok expr) :
    ∃ lexemes, Token.tokenize source = .ok lexemes ∧
      expr.operands = lexemesOperands (significant lexemes) := by
  rw [parseExpression_eq] at parsed
  obtain ⟨lexemes, read, yields⟩ := exists_yields_of_parseSource parsed
  exact ⟨lexemes, read, operands_parseLeaves (relatesParts_operands.inside lexemes) yields⟩

/-- The operands of a negated template, among which the word `not` is none. -/
theorem parseExpression_operands_template :
    ∃ expr, parseExpression "not <<x#\x7bb\x7d>>" = .ok expr ∧
      expr.operands.map Expr.span = [⟨6, 7⟩, ⟨9, 10⟩] ∧
      ∃ lexemes, Token.tokenize "not <<x#\x7bb\x7d>>" = .ok lexemes ∧
        expr.operands = lexemesOperands (significant lexemes) := by
  have spans : (parseExpression "not <<x#\x7bb\x7d>>").toOption.map
      (fun expr => expr.operands.map Expr.span) =
        some [⟨6, 7⟩, ⟨9, 10⟩] := by decide +kernel
  obtain ⟨expr, parsed, spans⟩ := exists_ok_of_toOption_map spans
  exact ⟨expr, parsed, spans, parseExpression_operands parsed⟩

end Krl

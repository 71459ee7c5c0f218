import Krl.Proofs.Language.Lifting
import Krl.Proofs.Parse.Ambiguity
import Krl.Proofs.Parse.Templates
import Krl.Proofs.Token.Interpolations

/-!
# Expressions are what stands at their places

The bytes that an expression covers, taken by themselves, are parsed to the expression, at
offsets that begin with them. So a tree tells no wrong places.
-/

namespace Krl

open Grammar Productions

/-- The bytes that the expression covers are parsed to it. The offsets in the result count
from the beginning of these bytes. -/
def Reparses (source : String) (node : Expr) : Prop :=
  ∃ text result, Span.slice? source node.span = some text ∧ parseExpression text = .ok result ∧
    result.placed (· + node.span.start) = node

theorem placement_shift (base : Nat) : Placement (Shifted base) (· + base) id :=
  ⟨fun _ _ le => Nat.add_le_add_right le base, monotone_id, fun same => same⟩

/-- A text is parsed to the value of an expression over all of its tokens. -/
theorem exists_parseExpression {text : String} {lexemes : List Lexeme}
    (read : Token.tokenize text = .ok lexemes) {tree : Derivation}
    (derivation : language.grammar.IsDerivation (leavesOf (significant lexemes)) .expression 0
      (leavesOf (significant lexemes)).length tree) {property : Expr → Prop}
    (evaluated : ∀ trace, ∃ result, property result ∧
      ((language.evaluate ⟨leavesOf (significant lexemes), Text.byteLength text.toList⟩
        .expression tree : Traced Expr).outcomeFrom trace).1 = .ok result) :
    ∃ result, parseExpression text = .ok result ∧ property result := by
  have single : {tree | language.grammar.IsDerivation (leavesOf (significant lexemes))
      StartSymbol.expression.nonterminal 0 (leavesOf (significant lexemes)).length
        tree}.Subsingleton :=
    fun _ derivation _ derivation' => Distinction.expression_unique derivation derivation'
  obtain ⟨result, outcome, holds⟩ :=
    exists_outcome_of_derivation read single derivation evaluated []
  exact ⟨result, by rw [parseExpression_eq, outcome]; rfl, holds⟩

theorem leavesOf_drop_take (lexemes : List Lexeme) (first count : Nat) :
    ((leavesOf lexemes).drop first).take count = leavesOf ((lexemes.drop first).take count) := by
  simp only [leavesOf_eq_map, List.map_take, List.map_drop]

/-- The bytes of some tokens of a source are a text with tokens that are alike. -/
theorem exists_slice {source : String} {cursor final : Cursor} {lexemes : List Lexeme}
    (inside : cursor.In source) (reads : Token.ReadsAll cursor lexemes final) {first last : Nat}
    (covers : first < last) (bound : last ≤ (significant lexemes).length) (close : Nat) :
    let span := language.spanBetween ⟨leavesOf (significant lexemes), close⟩ first last
    ∃ text lexemes', Span.slice? source span = some text ∧ Token.tokenize text = .ok lexemes' ∧
      LeavesAlike (Shifted span.start) (· + span.start) id (leavesOf (significant lexemes'))
        (((leavesOf (significant lexemes)).drop first).take (last - first)) := by
  have whole := List.take_append_drop first (significant lexemes)
  rw [← List.take_append_drop (last - first) ((significant lexemes).drop first),
    ← List.append_assoc] at whole
  have opens : (((significant lexemes).drop first).take (last - first)).head? =
      some (significant lexemes)[first] := by
    rw [List.head?_take, if_neg (by omega), List.head?_drop, List.getElem?_eq_getElem]
  have closes : (((significant lexemes).drop first).take (last - first)).getLast? =
      some (significant lexemes)[last - 1] := by
    rw [List.getLast?_eq_getElem?, List.length_take, List.length_drop,
      Nat.min_eq_left (by omega), Nat.sub_right_comm, getElem?_piece (by omega) (by omega),
      List.getElem?_eq_getElem]
  have span : language.spanBetween ⟨leavesOf (significant lexemes), close⟩ first last =
      ⟨(significant lexemes)[first].start, (significant lexemes)[last - 1].stop⟩ :=
    spanBetween_leavesOf covers bound
  intro here
  obtain ⟨text, lexemes', slice, tokenized, shifted⟩ :=
    exists_piece inside reads whole.symm opens closes
  rw [show here = _ from span, leavesOf_drop_take]
  have alike := lexemesAlike_shift (significant lexemes)[first].start lexemes'
  rw [← shifted] at alike
  exact ⟨text, lexemes', slice, tokenized,
    LexemesAlike.leavesAlike alike (alike.leaves (placement_shift _))⟩

/-- Only the offsets differ between the value of an expression over some of the tokens of a
source and its value over tokens that are alike. -/
theorem agrees_evaluate {leaves tokens : List Leaf} {base first last : Nat}
    (bound : last ≤ tokens.length)
    (alike : LeavesAlike (Shifted base) (· + base) id leaves
      ((tokens.drop first).take (last - first)))
    {tree : Derivation}
    (derivation : language.grammar.IsDerivation leaves .expression 0 (last - first) tree)
    (stop close : Nat) :
    Traced.Agrees (SameFault (Shifted base)) (SamePlaced (α := Expr) (· + base) id)
      (language.evaluate ⟨leaves, stop⟩ .expression tree : Traced Expr)
      (language.evaluate ⟨tokens, close⟩ .expression (tree.moved first)) := by
  have starts := (derivation.extents_before independent_expressions endsSolid_expressions
    (by decide) (by decide)).2
  have within := derivation.extents_within
  rw [List.flatMap_singleton] at starts within
  refine Language.outcome_evaluate (respects_language (SameFault (Shifted base))
    (placement_shift base).monotone monotone_id)
    (show language.grammar.IsDerivation (Input.mk leaves stop).tokens .expression 0 (last - first)
      tree from derivation) ?_ ?_
  · intro index above below terminal datum read
    obtain ⟨datum', read', same⟩ := alike.reads stop close 0 (last - first) index above below
      terminal datum read
    refine ⟨datum', ?_, same⟩
    have piece : _ = tokens[index + first]? := getElem?_piece (Nat.le_add_left first index)
      (show index + first < last by omega)
    rw [Nat.add_sub_cancel] at piece
    exact piece ▸ read'
  · intro extent member
    have stops : stop + base = id (stop + base) := rfl
    have spans := alike.spanBetween stops extent.1 extent.2
    rw [language.spanBetween_piece bound (starts extent member) (within extent member).2.2 _
      close] at spans
    exact spans

/-- An expression over some of the tokens of a source is the value of the bytes that it
covers. -/
theorem reparses_of_derivation {source : String} {cursor final : Cursor} {lexemes : List Lexeme}
    (inside : cursor.In source) (reads : Token.ReadsAll cursor lexemes final) {close : Nat}
    {first last : Nat} {tree : Derivation}
    (derivation : language.grammar.IsDerivation (leavesOf (significant lexemes)) .expression first
      last tree) {node : Expr}
    (yields : Traced.Yields (language.evaluate ⟨leavesOf (significant lexemes), close⟩ .expression
      tree : Traced Expr) node)
    (place : node.span = language.spanBetween ⟨leavesOf (significant lexemes), close⟩ first last) :
    Reparses source node := by
  have among : ∀ symbol ∈ [Symbol.nonterminal Nonterminal.expression],
      symbol.Among (T := Terminal) expressionNames := by decide
  obtain ⟨covers, _⟩ := derivation.extents_before independent_expressions endsSolid_expressions
    among (by decide)
  have bound := derivation.stop_le_of_lt covers
  obtain ⟨text, lexemes', slice, tokenized, alike⟩ :=
    exists_slice inside reads covers (length_leavesOf _ ▸ bound) close
  rw [← place] at slice alike
  obtain ⟨trees, inPiece, same⟩ :=
    derivation.in_piece independent_expressions among (Nat.le_refl _) (Nat.le_refl _)
  obtain ⟨tree', rfl, rfl⟩ := List.map_eq_singleton_iff.mp same
  have derivation' := alike.indistinct.symm.derives inPiece
  rw [Nat.sub_self] at derivation'
  have agrees := agrees_evaluate bound alike derivation' (Text.byteLength text.toList) close
  have whole : last - first = (leavesOf (significant lexemes')).length := by
    rw [alike.indistinct.length, List.length_take, List.length_drop]
    omega
  rw [whole] at derivation'
  obtain ⟨result, parsed, same⟩ := 
    exists_parseExpression tokenized derivation' (agrees.exists_of_yields yields)
  exact ⟨text, result, slice, parsed, same.trans node.placed_id⟩

mutual

/-- The texts between the interpolations in a token, as parts of the template that it is. -/
def Token.texts : Token → List Expr
  | .chevron parts => partsTexts parts
  | _ => []

def partsTexts : List TemplatePart → List Expr
  | [] => []
  | .text value start stop :: others => ⟨.string value, ⟨start, stop⟩⟩ :: partsTexts others
  | .interpolation tokens _ _ :: others => lexemesTexts tokens ++ partsTexts others

/-- The texts in all templates among some tokens. -/
def lexemesTexts : List Lexeme → List Expr
  | [] => []
  | ⟨token, _, _⟩ :: others => token.texts ++ lexemesTexts others

end

theorem partsTexts_append (parts others : List TemplatePart) :
    partsTexts (parts ++ others) = partsTexts parts ++ partsTexts others := by
  induction parts with
  | nil => rfl
  | cons part parts ih => cases part <;> simp [partsTexts, ih]

/-- A property holds of all expressions in the values that the parts of a template may get. -/
def HoldsInside (holds : Expr → Prop) (parts : Traced (List Expr)) : Prop :=
  ∀ values, Traced.Yields parts values → ∀ node ∈ values.flatMap Expr.nodes, holds node

section Holding

variable {source : String} {holds : Expr → Prop}

/-- A property of what is reparsed, and of all expressions in templates, holds of all
expressions in what a token means. -/
theorem holds_token (reparsed : ∀ node, Reparses source node → holds node)
    {cursor final : Cursor} {lexemes : List Lexeme} (inside : cursor.In source)
    (reads : Token.ReadsAll cursor lexemes final) {index : Nat} {leaf : Leaf}
    (found : (leavesOf (significant lexemes))[index]? = some leaf)
    (parts : HoldsInside holds leaf.parts) {tokens : Terminal} {datum : tokens.Datum}
    (read : tokens.read leaf = some datum) : tokens.Holds holds datum := by
  let input : Input Leaf := ⟨leavesOf (significant lexemes), 0⟩
  have found : input.tokens[index]? = some leaf := found
  have itself : ∀ {node : Expr}, node.span = leaf.lexeme.span →
      (∃ tree, language.grammar.IsDerivation input.tokens .expression index (index + 1) tree ∧
        Traced.Yields (language.evaluate input .expression tree : Traced Expr) node) →
          holds node := by
    rintro node place ⟨tree, derivation, yields⟩
    exact reparsed node (reparses_of_derivation inside reads derivation yields
      (place.trans (spanBetween_succ found).symm))
  by_cases template : tokens = .chevron
  · subst template
    intro value yields node member
    have ofTemplate := exists_expression_of_template found read yields
    obtain ⟨_, inner, _, yielded, rfl⟩ := exists_values_of_template read yields
    rw [Expr.nodes, List.mem_cons, ExprKind.nodes, exprsNodes_eq] at member
    rcases member with rfl | member
    · exact itself rfl ofTemplate
    · exact parts inner yielded node member
  · have plain : tokens.Holds holds datum = ∀ node ∈ tokens.nodes datum, holds node := by
      cases tokens <;> first | rfl | exact absurd rfl template
    rw [plain]
    intro node member
    obtain ⟨place, derived⟩ := exists_expression_of_token found read member
    exact itself place derived

/-- A property of what is reparsed, and of all expressions in templates, holds of all
expressions in the value of the tokens of a source. -/
theorem holds_parseLeaves (reparsed : ∀ node, Reparses source node → holds node)
    {cursor final : Cursor} {lexemes : List Lexeme} (inside : cursor.In source)
    (reads : Token.ReadsAll cursor lexemes final)
    (parts : ∀ lexeme ∈ lexemes, HoldsInside holds (templateParts lexeme.token))
    {start : StartSymbol} {stop : Nat} {atEnd : Option Nat} {value : start.nonterminal.Value}
    (yields : Traced.Yields (parseLeaves start (leavesOf lexemes) stop atEnd) value) :
    ∀ node ∈ start.nonterminal.nodes value, holds node := by
  obtain ⟨tree, derivation, yielded⟩ := exists_derivation_of_parseLeaves yields
  let input : Input Leaf := ⟨leavesOf (significant lexemes), stop⟩
  refine @holds_evaluate _ input ?_ ?_ _ _ _ _ derivation _ yielded
  · intro index leaf found tokens datum read
    have member : leaf ∈ leavesOf (significant lexemes) := List.mem_of_getElem? found
    rw [leavesOf_eq_map, List.mem_map] at member
    obtain ⟨⟨token, start, stop⟩, seen, rfl⟩ := member
    exact holds_token reparsed inside reads found (parts _ (List.mem_filter.mp seen).1) read
  · intro name first last tree value node derivation yields stands place
    obtain ⟨tree', derivation', yields'⟩ :=
      exists_expression_of_stands stands derivation yields
    exact reparsed node (reparses_of_derivation inside reads derivation' yields' place)

theorem holdsInside_of_plain {token : Token} (plain : ∀ parts, token ≠ .chevron parts) :
    HoldsInside holds (templateParts token) := by
  intro values yields
  have empty : templateParts token = pure [] := by
    cases token <;> first | rfl | exact absurd rfl (plain _)
  rw [empty] at yields
  cases Traced.yields_pure_iff.mp yields
  exact List.forall_mem_nil _

theorem holdsInside_cons {part : TemplatePart} {others : List TemplatePart}
    (first : ∀ value, Traced.Yields (partValue part) value → ∀ node ∈ value.nodes, holds node)
    (rest : HoldsInside holds (partValues others)) :
    HoldsInside holds (partValues (part :: others)) := by
  intro values yields
  obtain ⟨value, yielded, behind⟩ := yields.of_bind
  obtain ⟨values, yielded', last⟩ := behind.of_bind
  cases Traced.yields_pure_iff.mp last
  rw [List.flatMap_cons, List.forall_mem_append]
  exact ⟨first value yielded, rest values yielded'⟩

theorem holdsInside_textPart {cursor : Cursor} {others : List TemplatePart}
    (held : ∀ text ∈ partsTexts (Token.textPart cursor ++ others), holds text)
    (rest : HoldsInside holds (partValues others)) :
    HoldsInside holds (partValues (Token.textPart cursor ++ others)) := by
  rw [Token.textPart, Token.templateText] at held ⊢
  by_cases empty : (Token.Literal.template cursor.rest).1.isEmpty
  · rw [if_pos empty]
    exact rest
  · rw [if_neg empty] at held ⊢
    refine holdsInside_cons ?_ rest
    intro value yields node member
    cases Traced.yields_pure_iff.mp yields
    obtain rfl := List.mem_singleton.mp member
    exact held _ List.mem_cons_self

mutual

/-- All expressions in a template that is read somewhere in the source have the property, if
the texts in it do. The induction is on the reading. -/
theorem Token.Reads.holdsInside (reparsed : ∀ node, Reparses source node → holds node)
    {cursor next : Cursor} {lexeme : Lexeme} :
    Token.Reads cursor lexeme next → cursor.In source →
      (∀ text ∈ lexeme.token.texts, holds text) → HoldsInside holds (templateParts lexeme.token)
  | .plain _, _, _ => holdsInside_of_plain (Token.plain_read _ _)
  | .blockComment _ _, _, _ | .string _ _, _, _ | .regexp _ _ _, _, _ => holdsInside_of_plain nofun
  | .chevron _ body, inside, held => body.holdsInside reparsed (inside.advance _) held

theorem Token.ReadsParts.holdsInside (reparsed : ∀ node, Reparses source node → holds node)
    {cursor next : Cursor} {parts : List TemplatePart} :
    Token.ReadsParts cursor parts next → cursor.In source →
      (∀ text ∈ partsTexts parts, holds text) → HoldsInside holds (partValues parts)
  | @Token.ReadsParts.close cursor _ ends, inside, held => by
      rw [← List.append_nil (Token.textPart cursor)] at held ⊢
      refine holdsInside_textPart held ?_
      intro values yields
      cases Traced.yields_pure_iff.mp yields
      exact List.forall_mem_nil _
  | @Token.ReadsParts.interpolation cursor _ _ _ _ _ _ opens body more, inside, held => by
      have opened := (inside.advance (Token.Literal.template cursor.rest).2).advance 2
      have heldBody := body.holdsInside reparsed opened
      have heldMore := more.holdsInside reparsed (opened.of_advances body.advances)
      obtain ⟨final, reads, _⟩ := body.readsAll
      have held' := held
      rw [partsTexts_append, List.forall_mem_append, partsTexts, List.forall_mem_append] at held'
      refine holdsInside_textPart held (holdsInside_cons ?_ (heldMore held'.2.2))
      intro value yields
      exact holds_parseLeaves reparsed opened reads (heldBody held'.2.1) yields

theorem Token.ReadsBody.holdsInside (reparsed : ∀ node, Reparses source node → holds node)
    {depth : Nat} {cursor next : Cursor} {tokens : List Lexeme} {close : Nat} :
    Token.ReadsBody depth cursor tokens close next → cursor.In source →
      (∀ text ∈ lexemesTexts tokens, holds text) →
        ∀ lexeme ∈ tokens, HoldsInside holds (templateParts lexeme.token)
  | .close _, _, _ => List.forall_mem_nil _
  | @Token.ReadsBody.inner _ _ _ _ ⟨token, start, stop⟩ _ _ first stays more, inside, held => by
      have heldFirst := first.holdsInside reparsed inside
      have heldMore := more.holdsInside reparsed (inside.of_advances first.advances)
      rw [lexemesTexts, List.forall_mem_append] at held
      exact List.forall_mem_cons.mpr ⟨heldFirst held.1, heldMore held.2⟩

end

theorem Token.ReadsAll.holdsInside (reparsed : ∀ node, Reparses source node → holds node)
    {cursor final : Cursor} {lexemes : List Lexeme}
    (reads : Token.ReadsAll cursor lexemes final) (inside : cursor.In source)
    (held : ∀ text ∈ lexemesTexts lexemes, holds text) :
    ∀ lexeme ∈ lexemes, HoldsInside holds (templateParts lexeme.token) := by
  induction reads with
  | nil => exact List.forall_mem_nil _
  | @cons _ _ _ lexeme _ first rest ih =>
      obtain ⟨token, start, stop⟩ := lexeme
      rw [lexemesTexts, List.forall_mem_append] at held
      exact List.forall_mem_cons.mpr ⟨first.holdsInside reparsed inside held.1,
        ih (inside.of_advances first.advances) held.2⟩

end Holding

/-- The texts in all templates of a source, which have no quotes around them. -/
def templateTexts (source : String) : List Expr :=
  match Token.tokenize source with
  | .ok lexemes => lexemesTexts lexemes
  | .error _ => []

/-- Every expression in the tree of a source is what the bytes that it covers are parsed to,
except for the texts in templates. -/
theorem parse_nodes_reparse {source : String} {options : ParseOptions} {program : Program}
    (parsed : parse source options = .ok program) :
    ∀ node ∈ program.nodes, node ∉ templateTexts source → Reparses source node := by
  rw [parse_eq] at parsed
  obtain ⟨lexemes, read, yields⟩ := exists_yields_of_parseSource parsed
  obtain ⟨final, reads, _⟩ := Token.tokenize_eq_ok_iff.mp read
  have inside : Cursor.In source ⟨0, source.toList⟩ := ⟨0, rfl⟩
  let holds : Expr → Prop := fun node => node ∉ lexemesTexts lexemes → Reparses source node
  have reparsed : ∀ node, Reparses source node → holds node := fun _ reparsed _ => reparsed
  have held : ∀ text ∈ lexemesTexts lexemes, holds text :=
    fun _ member other => absurd member other
  rw [templateTexts, read]
  exact holds_parseLeaves reparsed inside reads (reads.holdsInside reparsed inside held) yields

/-- A declaration with a template. Only the text in the template is no expression. -/
theorem parse_nodes_reparse_template :
    ∃ program, parse "x = <<a#\x7bb\x7d>>" .none = .ok program ∧
      program.nodes.map Expr.span = [⟨0, 1⟩, ⟨4, 13⟩, ⟨6, 7⟩, ⟨9, 10⟩] ∧
      (templateTexts "x = <<a#\x7bb\x7d>>").map Expr.span = [⟨6, 7⟩] ∧
      ∀ node ∈ program.nodes, node ∉ templateTexts "x = <<a#\x7bb\x7d>>" →
        Reparses "x = <<a#\x7bb\x7d>>" node := by
  obtain ⟨program, parsed, spans⟩ := parse_declaredTemplate
  exact ⟨program, parsed, spans, by decide +kernel, parse_nodes_reparse parsed⟩

end Krl

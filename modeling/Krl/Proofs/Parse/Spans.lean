import Krl.Proofs.Parse.Ambiguity
import Krl.Proofs.Parse.Nesting

/-!
# Spans nest and follow source order

The nodes in what a source is parsed to lie in its tokens, one behind another and inside of one
another. In a template this holds of each interpolation by itself, and the values of the parts
follow one another because the parts do.
-/

namespace Krl

section Texts

variable {source : String}

theorem Expr.span_of_mem_textPart {cursor : Cursor} {text : Expr}
    (member : text ∈ partsTexts (Token.textPart cursor)) :
    text.span = ⟨cursor.offset, (Token.textEnd cursor).offset⟩ := by
  rw [Token.textPart, Token.templateText] at member
  split at member
  · cases member
  · obtain rfl := List.mem_singleton.mp member
    rfl

theorem texts_plain {token : Token} (plain : ∀ parts, token ≠ .chevron parts) :
    token.texts = [] := by
  cases token <;> first | rfl | exact absurd rfl (plain _)

mutual

/-- All texts in a token that is read in a source stand on boundaries. The induction is on the
reading. -/
theorem Token.Reads.textsBounded {cursor next : Cursor} {lexeme : Lexeme} :
    Token.Reads cursor lexeme next → cursor.In source → ∀ text ∈ lexeme.token.texts,
      IsBoundary source text.span.start ∧ IsBoundary source text.span.stop
  | .plain _, _ => by
      rw [texts_plain (Token.plain_read _ _)]
      exact List.forall_mem_nil _
  | .blockComment _ _, _ | .string _ _, _ | .regexp _ _ _, _ => List.forall_mem_nil _
  | .chevron _ parts, inside => parts.textsBounded (inside.advance _)

theorem Token.ReadsParts.textsBounded {cursor next : Cursor} {parts : List TemplatePart} :
    Token.ReadsParts cursor parts next → cursor.In source → ∀ text ∈ partsTexts parts,
      IsBoundary source text.span.start ∧ IsBoundary source text.span.stop
  | .close _, inside => by
      intro text member
      rw [Expr.span_of_mem_textPart member]
      exact ⟨inside.isBoundary, (inside.advance _).isBoundary⟩
  | @Token.ReadsParts.interpolation cursor _ _ _ _ _ _ _ body more, inside => by
      have ends := inside.advance (Token.Literal.template cursor.rest).2
      have inner := body.textsBounded (ends.advance 2)
      have behind := more.textsBounded ((ends.advance 2).of_advances body.advances)
      rw [partsTexts_append, List.forall_mem_append, partsTexts, List.forall_mem_append]
      refine ⟨fun text member => ?_, inner, behind⟩
      rw [Expr.span_of_mem_textPart member]
      exact ⟨inside.isBoundary, ends.isBoundary⟩

theorem Token.ReadsBody.textsBounded {depth : Nat} {cursor next : Cursor} {tokens : List Lexeme}
    {close : Nat} : Token.ReadsBody depth cursor tokens close next → cursor.In source →
      ∀ text ∈ lexemesTexts tokens,
        IsBoundary source text.span.start ∧ IsBoundary source text.span.stop
  | .close _, _ => List.forall_mem_nil _
  | @Token.ReadsBody.inner _ _ _ _ ⟨_, _, _⟩ _ _ first _ more, inside => by
      have here := first.textsBounded inside
      have behind := more.textsBounded (inside.of_advances first.advances)
      rw [lexemesTexts, List.forall_mem_append]
      exact ⟨here, behind⟩

end

theorem Token.ReadsAll.textsBounded {cursor final : Cursor} {lexemes : List Lexeme}
    (reads : Token.ReadsAll cursor lexemes final) (inside : cursor.In source) :
    ∀ text ∈ lexemesTexts lexemes,
      IsBoundary source text.span.start ∧ IsBoundary source text.span.stop := by
  induction reads with
  | nil => exact List.forall_mem_nil _
  | @cons _ _ _ lexeme _ first _ ih =>
      obtain ⟨token, start, stop⟩ := lexeme
      rw [lexemesTexts, List.forall_mem_append]
      exact ⟨first.textsBounded inside, ih (inside.of_advances first.advances)⟩

end Texts

section Templates

variable {source : String} {lexemes : List Lexeme}

open Krl.Frame

/-- Texts and interpolations are those of templates among some tokens. -/
structure Among (lexemes : List Lexeme) (texts : List Expr) (interpolations : List Interpolation) :
    Prop where
  texts : ∀ text ∈ texts, text ∈ lexemesTexts lexemes
  interpolations : ∀ interpolation ∈ interpolations, interpolation ∈ interpolationsIn lexemes

theorem Among.of_mem {tokens : List Lexeme}
    (among : Among lexemes (lexemesTexts tokens) (interpolationsIn tokens)) {lexeme : Lexeme}
    (member : lexeme ∈ tokens) : Among lexemes lexeme.token.texts lexeme.token.interpolations := by
  induction tokens with
  | nil => cases member
  | cons first others ih =>
      obtain ⟨token, start, stop⟩ := first
      obtain ⟨texts, interpolations⟩ := among
      rw [lexemesTexts, List.forall_mem_append] at texts
      rw [interpolationsIn, List.forall_mem_append] at interpolations
      rcases List.mem_cons.mp member with rfl | member
      · exact ⟨texts.1, interpolations.1⟩
      · exact ih ⟨texts.2, interpolations.2⟩ member

/-- The value of a part lies between the offsets between which the part does, and all nodes in it
are sound. -/
def LaidPart (source : String) (lexemes : List Lexeme) (part : TemplatePart) (value : Expr) :
    Prop :=
  Among lexemes (partsTexts [part]) (partsInterpolations [part]) →
    ∀ low high, PartsOrderly low high [part] →
      InOrder low high [value.partFrame] ∧ value.partFrame.Throughout (Sound source lexemes)

theorem PartsOrderly.exists_middle {part : TemplatePart} {others : List TemplatePart}
    {low high : Nat} (orderly : PartsOrderly low high (part :: others)) :
    ∃ middle, PartsOrderly low middle [part] ∧ PartsOrderly middle high others := by
  cases part with
  | text value start stop =>
      exact ⟨stop, ⟨orderly.1, orderly.2.1, Nat.le_refl _⟩, orderly.2.2⟩
  | interpolation tokens start close =>
      exact ⟨close + 1, ⟨orderly.1, Nat.le_refl _⟩, orderly.2⟩

/-- The parts of a template have values that follow one another. -/
theorem inOrder_of_forall₂ {parts : List TemplatePart} {values : List Expr} {low high : Nat}
    (orderly : PartsOrderly low high parts)
    (among : Among lexemes (partsTexts parts) (partsInterpolations parts))
    (laid : List.Forall₂ (LaidPart source lexemes) parts values) :
    InOrder low high (values.map Expr.partFrame) ∧
      ∀ frame ∈ values.map Expr.partFrame, frame.Throughout (Sound source lexemes) := by
  induction laid generalizing low with
  | nil => exact ⟨.nil, List.forall_mem_nil _⟩
  | @cons part value others values first _ ih =>
      obtain ⟨middle, starts, rest⟩ := orderly.exists_middle
      obtain ⟨texts, interpolations⟩ := among
      rw [← List.singleton_append, partsTexts_append, List.forall_mem_append] at texts
      have split := fun interpolation =>
        @Token.mem_partsInterpolations_append [part] others interpolation
      obtain ⟨inOrder, throughout⟩ := first
        ⟨texts.1, fun _ member => interpolations _ ((split _).mpr (.inl member))⟩ low middle starts
      obtain ⟨others, sound⟩ := ih rest
        ⟨texts.2, fun _ member => interpolations _ ((split _).mpr (.inr member))⟩
      have below := PartsOrderly.le _ starts
      have above := PartsOrderly.le _ rest
      exact ⟨inOrder.append others (Nat.le_refl _) below above,
        List.forall_mem_cons.mpr ⟨throughout, sound⟩⟩

/-- What a token means lies in the token. -/
theorem spansIn_of_means {tokens : List Lexeme} {start stop : Nat} {token : Token}
    {terminal : Terminal} {datum : terminal.Datum} (stream : tokens ∈ tokenStreams lexemes)
    (onText : Span.OnText source ⟨start, stop⟩) (aligned : Span.AlignedIn tokens ⟨start, stop⟩)
    (orderly : token.Orderly (start + 1) stop)
    (among : Among lexemes token.texts token.interpolations)
    (parts : PartsRelated (LaidPart source lexemes) token)
    (means : Means start stop token terminal datum) :
    terminal.SpansIn source lexemes tokens start stop datum := by
  have node : ∀ fields : List (List Frame),
      (∀ part ∈ fields, InOrder start stop part ∧
        ∀ inner ∈ part, inner.Throughout (Sound source lexemes)) →
          Laid source lexemes tokens start stop [⟨.phrase, ⟨start, stop⟩, fields⟩] :=
    fun fields nests => .singleton (placed_made stream onText aligned nests) (Nat.le_refl _)
      (Nat.le_refl _)
  have leaf := node [] (List.forall_mem_nil _)
  cases means with
  | punct => exact .nil
  | chevron texts ends =>
      intro value yields
      obtain ⟨values, yielded, rfl⟩ := ends value yields
      obtain ⟨inOrder, throughout⟩ := inOrder_of_forall₂ orderly among (parts values yielded)
      rw [Expr.frame, ExprKind.parts, partsFrames_eq]
      exact node _ (List.forall_mem_singleton.mpr
        ⟨inOrder.weaken (Nat.le_succ start) (Nat.le_refl _), throughout⟩)
  | word | identifier | symbol => exact leaf
  | number | string | regexp | domainName | persistent =>
      simpa [Terminal.SpansIn] using leaf

/-- What the tokens of a source, or of an interpolation in it, are parsed to lies in them. The
induction behind it is on their derivation. -/
theorem spansIn_parseLeaves {start : StartSymbol} {tokens : List Lexeme} {low high : Nat}
    {atEnd : Option Nat} {value : start.nonterminal.Value}
    (stream : significant tokens ∈ tokenStreams lexemes)
    (settled : Settled source low high tokens)
    (among : Among lexemes (lexemesTexts tokens) (interpolationsIn tokens))
    (parts : ∀ lexeme ∈ tokens, PartsRelated (LaidPart source lexemes) lexeme.token)
    (yields : Traced.Yields (parseLeaves start (leavesOf tokens) high atEnd) value) :
    SpansIn source lexemes (significant tokens) low high start.nonterminal 0
      (significant tokens).length value := by
  suffices known : (nesting source lexemes (significant tokens) low high).value start.nonterminal 0
      (significant tokens).length value from known
  have settled := settled.significant
  refine Invariant.holds_parseLeaves ?_ ?_ yields
  · intro index lexeme found terminal datum read
    have significant : lexeme ∈ Krl.significant tokens := List.mem_of_getElem? found
    have member : lexeme ∈ tokens := (List.mem_filter.mp significant).1
    obtain ⟨starts, stops⟩ := @edge_of_getElem? low high _ _ _ found
    have boundaries := settled.boundaries lexeme significant
    have ordered : lexeme.start ≤ lexeme.stop := by
      rw [← starts, ← stops]
      exact settled.orderly.monotone_edge (Nat.le_succ _)
    have spans : terminal.SpansIn source lexemes (Krl.significant tokens) lexeme.start lexeme.stop
        datum :=
      spansIn_of_means stream (onText_of_boundaries ordered boundaries.1 boundaries.2)
        ⟨⟨lexeme, significant, rfl⟩, lexeme, significant, rfl⟩
        (settled.orderly.of_mem significant).1 (among.of_mem member) (parts lexeme member)
        (means_of_read read)
    rw [← starts, ← stops] at spans
    exact spans
  · intro entry listed first last tree computation value derivation supplies yielded
    have bound : first < last → last ≤ (significant tokens).length := fun covers =>
      length_leavesOf (significant tokens) ▸ derivation.stop_le_of_lt covers
    exact spansIn_of_nests (Productions.nests_of_mem entry listed) stream settled bound supplies
      yielded

/-- An expression that is a part of a template has the same spans, of which its own may be that
of a text. -/
theorem throughout_partFrame {value : Expr}
    (throughout : value.frame.Throughout (Sound source lexemes)) :
    value.partFrame.Throughout (Sound source lexemes) := by
  obtain ⟨kind, span⟩ := value
  have sound := throughout.itself
  exact .intro ⟨sound.onText, covers_of_aligned sound.covers, sound.nests⟩ throughout.inside

theorem relatesParts_laid
    (readIn : ∀ interpolation ∈ interpolationsIn lexemes, interpolation.ReadIn source)
    (textsBounded : ∀ text ∈ lexemesTexts lexemes,
      IsBoundary source text.span.start ∧ IsBoundary source text.span.stop) :
    RelatesParts (LaidPart source lexemes) where
  text := by
    intro value start stop among low high ⟨starts, ordered, stops⟩
    have member := among.texts _ (List.mem_singleton.mpr rfl)
    have boundaries := textsBounded _ member
    refine ⟨.singleton starts stops, .intro ⟨?_, ?_, ?_⟩ ?_⟩
    · exact onText_of_boundaries ordered boundaries.1 boundaries.2
    · exact .inr ⟨_, member, rfl⟩
    · exact List.forall_mem_nil _
    · exact List.forall_mem_nil _
  interpolation := by
    intro tokens start close value parts yields among low high ⟨orderly, above⟩
    have member := among.interpolations _ List.mem_cons_self
    have stream : significant tokens ∈ tokenStreams lexemes :=
      List.mem_cons_of_mem _ (List.mem_map_of_mem member)
    have settled := (readIn _ member).settled orderly
    have inside : Among lexemes (lexemesTexts tokens) (interpolationsIn tokens) :=
      ⟨fun _ member => among.texts _ (List.mem_append_left _ member),
        fun _ member =>
          among.interpolations _ (List.mem_cons_of_mem _ (List.mem_append_left _ member))⟩
    -- The expression is parsed from the tokens of the interpolation alone.
    have spans := spansIn_parseLeaves stream settled inside parts yields
    obtain ⟨inOrder, placed⟩ := spans.between settled.significant.orderly
    have bounds := List.forall_mem_singleton.mp inOrder.inside
    rw [value.span_frame] at bounds
    have closes : close ≤ high := Nat.le_of_succ_le above
    refine ⟨.singleton ?_ ?_, throughout_partFrame (List.forall_mem_singleton.mp placed).throughout⟩
    · exact value.span_partFrame ▸ bounds.1
    · exact value.span_partFrame ▸ Nat.le_trans bounds.2 closes

/-- Spans nest and follow source order. Every node stands on boundaries of the source and around
whole tokens, inside the node that holds it, and behind those before it in the same list. -/
theorem parse_spans {source : String} {options : ParseOptions} {program : Program}
    (parsed : parse source options = .ok program) :
    ∃ lexemes, Token.tokenize source = .ok lexemes ∧
      InOrder 0 (Text.byteLength source.toList) program.frames ∧
        ∀ frame ∈ program.frames, frame.Throughout (Sound source lexemes) := by
  rw [parse_eq] at parsed
  obtain ⟨lexemes, read, yields⟩ := exists_yields_of_parseSource parsed
  obtain ⟨final, reads, _⟩ := Token.tokenize_eq_ok_iff.mp read
  have inside : Cursor.In source ⟨0, source.toList⟩ := ⟨0, rfl⟩
  have relates := relatesParts_laid (reads.readIn inside) (reads.textsBounded inside)
  have settled := Token.settled_of_tokenize read
  have spans := spansIn_parseLeaves List.mem_cons_self settled
    ⟨fun _ member => member, fun _ member => member⟩ (relates.inside lexemes) yields
  obtain ⟨inOrder, placed⟩ := spans.between settled.significant.orderly
  exact ⟨lexemes, read, inOrder, fun frame member => (placed frame member).throughout⟩

/-- A declaration of a template with a text and an interpolation. -/
theorem parse_spans_template :
    ∃ program lexemes, parse "x = <<a#\x7bb\x7d>>" .none = .ok program ∧
      Token.tokenize "x = <<a#\x7bb\x7d>>" = .ok lexemes ∧
      InOrder 0 (Text.byteLength "x = <<a#\x7bb\x7d>>".toList) program.frames ∧
      ∀ frame ∈ program.frames, frame.Throughout (Sound "x = <<a#\x7bb\x7d>>" lexemes) := by
  obtain ⟨program, parsed, _⟩ := parse_declaredTemplate
  obtain ⟨lexemes, read, spans⟩ := parse_spans parsed
  exact ⟨program, lexemes, parsed, read, spans⟩

end Templates

end Krl

import Krl.Proofs.Token.Braces
import Krl.Proofs.Token.Escapes
import Krl.Proofs.Token.Spacing
import Mathlib.Data.List.Chain

/-!
# Templates as they are written

A template is written as its texts, with a backslash before whatever would end or change them, and
its interpolations, each of them a text with tokens of its own between braces. It is read back as
just these pieces, provided that the braces within each interpolation match, and that no comment at
the end of one takes the brace behind it along.
-/

namespace Krl

/-- A piece of a template: a text, or the body of an interpolation. -/
inductive TemplatePiece where
  | text (value : String)
  | interpolation (body : String)

/-- The text of a template, in which backslashes and brackets have a backslash before them and so
does whatever would open an interpolation. -/
def escapeTemplate : List Char → List Char
  | [] => []
  | '#' :: '{' :: others => '\\' :: '#' :: '{' :: escapeTemplate others
  | char :: others =>
      if char = '\\' ∨ char = '>' ∨ char = '<' then '\\' :: char :: escapeTemplate others
      else char :: escapeTemplate others

namespace TemplatePiece

/-- The piece as it is written. -/
def written : TemplatePiece → List Char
  | text value => escapeTemplate value.toList
  | interpolation body => ['#', '{'] ++ (body.toList ++ ['}'])

/-- Whether the piece is a text. -/
def isText : TemplatePiece → Bool
  | text _ => true
  | interpolation _ => false

/-- A text is not empty. The body of an interpolation has tokens, among which braces match and the
last one is no line comment. -/
def Sound : TemplatePiece → Prop
  | text value => value ≠ ""
  | interpolation body => ∃ tokens, Token.tokenize body = .ok tokens ∧
      bracesOpen 0 tokens = some 0 ∧ ∀ last ∈ tokens.getLast?, last.token ≠ .lineComment

/-- Whether the piece is sound, which the tokens of its body tell. -/
def isSound : TemplatePiece → Bool
  | text value => value != ""
  | interpolation body =>
      match Token.tokenize body with
      | .error _ => false
      | .ok tokens => bracesOpen 0 tokens == some 0 &&
          tokens.getLast?.all fun last => !last.token matches .lineComment

theorem isSound_iff (piece : TemplatePiece) : piece.isSound = true ↔ piece.Sound := by
  cases piece with
  | text value => exact bne_iff_ne
  | interpolation body =>
      rw [isSound, Sound]
      cases Token.tokenize body with
      | error error => simp
      | ok tokens =>
          have other (token : Token) : (!token matches .lineComment) = true ↔
              token ≠ .lineComment := by
            cases token <;> simp
          simp [Option.all_eq_true, other]

instance (piece : TemplatePiece) : Decidable piece.Sound :=
  decidable_of_iff _ piece.isSound_iff

/-- The pieces written one behind the other from an offset on make the parts: each text has its
value, each interpolation the tokens of its body, and every part the offsets between which its piece
stands. -/
inductive Compose : Nat → List TemplatePiece → List TemplatePart → Prop where
  | nil {offset : Nat} : Compose offset [] []
  | text {offset stop : Nat} {value : String} {pieces : List TemplatePiece}
      {parts : List TemplatePart} (covers : stop = offset + Text.byteLength (text value).written)
      (rest : Compose stop pieces parts) :
      Compose offset (text value :: pieces) (.text value offset stop :: parts)
  | interpolation {offset close : Nat} {body : String} {tokens : List Lexeme}
      {pieces : List TemplatePiece} {parts : List TemplatePart}
      (read : Token.tokenize body = .ok tokens)
      (covers : close + 1 = offset + Text.byteLength (interpolation body).written)
      (rest : Compose (close + 1) pieces parts) :
      Compose offset (interpolation body :: pieces)
        (.interpolation (tokens.map (Lexeme.shift (offset + 2))) offset close :: parts)

/-- The template with the pieces, as it is written. -/
def template (pieces : List TemplatePiece) : List Char :=
  ['<', '<'] ++ (pieces.flatMap written ++ ['>', '>'])

end TemplatePiece

namespace Token

section Bodies

variable {base : Nat} {tail : List Char}

/-- A token at the end of a text is read again when other text stands behind, unless it is a
comment that takes this along. -/
theorem Reads.widen_last (apart : Apart tail) (ends : ∀ char ∈ tail.head?, isSpace char = false)
    {cursor next : Cursor} {lexeme : Lexeme} (reads : Reads cursor lexeme next)
    (atEnd : next.rest = []) (notComment : lexeme.token ≠ .lineComment) :
    Reads (cursor.widen base tail) (lexeme.shift base) (next.widen base tail) := by
  by_cases space : lexeme.token = .whitespace
  · cases reads with
    | @plain _ token length longest =>
        cases token <;> cases space
        -- Spaces go on with any space behind them, so that they end is told by what stands there.
        have bounds := Pattern.longest?_bounds longest
        have whole : length = cursor.rest.length := by
          rw [Cursor.advance, List.drop_eq_nil_iff] at atEnd
          exact Nat.le_antisymm bounds.2 atEnd
        have blank : IsGap cursor.rest := by
          have taken := Pattern.extent_eq_of_longest? longest
          rw [whole, Pattern.extent] at taken
          have all := Pattern.take_run isSpace cursor.rest
          rw [taken, List.take_length] at all
          exact List.takeWhile_eq_self_iff.mp all.symm
        have nonempty : cursor.rest ≠ [] := List.ne_nil_of_length_pos (by omega)
        have longest' := Pattern.longest?_of_gap blank nonempty ends
        rw [← whole] at longest'
        have place : (cursor.widen base tail).advance length = _ := Cursor.advance_widen bounds.2
        have reads : Reads (cursor.widen base tail) _ _ := .plain longest'
        rw [place] at reads
        exact reads
    | _ => cases space
  · exact reads.widen base apart fun special => (special.elim space notComment).elim

/-- The tokens of a text are read again when other text stands behind, unless the last one is a
comment that takes this along. -/
theorem ReadsAll.widen_last (apart : Apart tail)
    (ends : ∀ char ∈ tail.head?, isSpace char = false) {cursor final : Cursor}
    {lexemes : List Lexeme} (reads : ReadsAll cursor lexemes final) (atEnd : final.rest = [])
    (last : ∀ lexeme ∈ lexemes.getLast?, lexeme.token ≠ .lineComment) :
    ReadsAll (cursor.widen base tail) (lexemes.map (Lexeme.shift base))
      (final.widen base tail) := by
  induction reads with
  | nil => exact .nil
  | @cons cursor next final lexeme others first rest ih =>
      have wide : Reads (cursor.widen base tail) (lexeme.shift base) (next.widen base tail) := by
        cases rest with
        | nil => exact first.widen_last apart ends atEnd (last _ rfl)
        | cons second _ =>
            obtain ⟨reading, _, _, rfl⟩ := second.lexeme_eq
            exact first.widen base apart fun _ => .inr (rest_ne_nil reading)
      have others : ∀ lexeme ∈ others.getLast?, lexeme.token ≠ .lineComment := by
        intro lexeme isLast
        refine last lexeme ?_
        rw [List.getLast?_cons, isLast]
        rfl
      exact .cons wide (ih atEnd others)

/-- A text with tokens among which braces match is the body of an interpolation when a brace stands
behind. -/
theorem readsBody_of_tokenize {body : String} {tokens : List Lexeme}
    (read : tokenize body = .ok tokens) (open_ : bracesOpen 0 tokens = some 0)
    (last : ∀ lexeme ∈ tokens.getLast?, lexeme.token ≠ .lineComment) (offset : Nat)
    (behind : List Char) :
    ReadsBody 0 ⟨offset, body.toList ++ '}' :: behind⟩ (tokens.map (Lexeme.shift offset))
      (offset + Text.byteLength body.toList)
      ⟨offset + Text.byteLength body.toList + 1, behind⟩ := by
  have apart : Apart ('}' :: behind) := by
    intro char begins
    cases begins
    rfl
  obtain ⟨final, reads, atEnd⟩ := tokenize_eq_ok_iff.mp read
  have wide := @ReadsAll.widen_last offset _ apart (by simp [isSpace]) _ _ _ reads atEnd last
  have place : final.widen offset ('}' :: behind) =
      ⟨offset + Text.byteLength body.toList, '}' :: behind⟩ := by
    rw [Cursor.widen, atEnd, reads.offset_eq atEnd, Nat.zero_add, Nat.add_comm offset]
    rfl
  rw [place, Cursor.widen, Nat.zero_add] at wide
  exact wide.readsBody ((bracesOpen_map_shift ..).trans open_) rfl

end Bodies

section Texts

/-- What stands behind a text of a template: the end of it, or an interpolation. -/
def EndsText (behind : List Char) : Prop :=
  ∃ rest, behind = '>' :: '>' :: rest ∨ behind = '#' :: '{' :: rest

/-- A text as it is written begins with an opening brace only if it does itself. -/
theorem exists_of_escapeTemplate {value behind rest : List Char} (ends : EndsText behind)
    (same : escapeTemplate value ++ behind = '{' :: rest) : ∃ others, value = '{' :: others := by
  revert same
  fun_cases escapeTemplate value with
  | case1 =>
      intro same
      obtain ⟨_, rfl | rfl⟩ := ends <;> cases same
  | case2 => nofun
  | case3 => nofun
  | case4 char others =>
      intro same
      cases same
      exact ⟨others, rfl⟩

/-- A text of a template is read up to the piece behind it. -/
theorem Literal.template_escapeTemplate (value : List Char) {behind : List Char}
    (ends : EndsText behind) :
    Literal.template (escapeTemplate value ++ behind) = (value, (escapeTemplate value).length) := by
  fun_induction escapeTemplate value with
  | case1 =>
      obtain ⟨rest, rfl | rfl⟩ := ends
      · rfl
      · rfl
  | case2 others ih =>
      rw [List.cons_append, List.cons_append, List.cons_append, template, ih]
      rfl
  | case3 char others _ escaped ih =>
      rcases escaped with rfl | rfl | rfl <;>
        rw [List.cons_append, List.cons_append, template, ih] <;> rfl
  | case4 char others notOpening plain ih =>
      simp only [not_or] at plain
      rw [List.cons_append, template, ih]
      · rfl
      · rintro _ rfl _
        exact plain.2.1 rfl
      · -- A `#` of its own would open an interpolation with a brace behind it.
        rintro rest rfl same
        obtain ⟨others, rfl⟩ := exists_of_escapeTemplate ends same
        exact notOpening others rfl rfl
      · rintro _ rfl _
        exact plain.1 rfl
      · rintro _ rfl _
        exact plain.1 rfl
      · rintro _ rfl _
        exact plain.1 rfl
      · rintro _ rfl _
        exact plain.1 rfl

variable {offset : Nat} {value behind : List Char}

theorem textEnd_escapeTemplate (ends : EndsText behind) :
    textEnd ⟨offset, escapeTemplate value ++ behind⟩ =
      ⟨offset + Text.byteLength (escapeTemplate value), behind⟩ := by
  rw [textEnd, Literal.template_escapeTemplate value ends, Cursor.advance_append]

theorem textPart_escapeTemplate (ends : EndsText behind) :
    textPart ⟨offset, escapeTemplate value ++ behind⟩ =
      templateText value offset (offset + Text.byteLength (escapeTemplate value)) := by
  rw [textPart, textEnd_escapeTemplate ends, Literal.template_escapeTemplate value ends]

/-- The end of a template is read behind a text, which may be empty. -/
theorem readsParts_close (offset : Nat) (value behind : List Char) :
    ReadsParts ⟨offset, escapeTemplate value ++ '>' :: '>' :: behind⟩
      (templateText value offset (offset + Text.byteLength (escapeTemplate value)))
      ⟨offset + Text.byteLength (escapeTemplate value) + 2, behind⟩ := by
  have ends : EndsText ('>' :: '>' :: behind) := ⟨behind, .inl rfl⟩
  have place := @textEnd_escapeTemplate offset value _ ends
  have reads : ReadsParts ⟨offset, escapeTemplate value ++ '>' :: '>' :: behind⟩ _ _ :=
    .close (congrArg Cursor.rest place)
  rw [place, textPart_escapeTemplate ends] at reads
  exact reads

end Texts

section Pieces

open TemplatePiece (Compose written)

variable {value behind : List Char} {body : String} {others : List TemplatePiece}

theorem flatMap_written_interpolation : (.interpolation body :: others).flatMap written ++ behind =
    '#' :: '{' :: (body.toList ++ '}' :: (others.flatMap written ++ behind)) := by
  simp [written]

theorem templateText_of_sound {value : String} (sound : (TemplatePiece.text value).Sound)
    (start stop : Nat) : templateText value.toList start stop = [.text value start stop] := by
  have nonempty : ¬value.toList.isEmpty = true := by
    rw [List.isEmpty_iff, String.toList_eq_nil_iff]
    exact sound
  rw [templateText, if_neg nonempty, String.ofList_toList]

/-- An interpolation is read behind a text, which may be empty, and the pieces behind it are read
wherever they stand. -/
theorem exists_readsParts_interpolation (sound : (TemplatePiece.interpolation body).Sound)
    (more : ∀ offset, ∃ parts final, Compose offset others parts ∧
      ReadsParts ⟨offset, others.flatMap written ++ behind⟩ parts final ∧ final.rest = [])
    (offset : Nat) : ∃ parts final,
      Compose (offset + Text.byteLength (escapeTemplate value)) (.interpolation body :: others)
          parts ∧
        ReadsParts ⟨offset, escapeTemplate value ++
            ((.interpolation body :: others).flatMap written ++ behind)⟩
          (templateText value offset (offset + Text.byteLength (escapeTemplate value)) ++ parts)
          final ∧ final.rest = [] := by
  obtain ⟨tokens, read, open_, last⟩ := sound
  let opens := offset + Text.byteLength (escapeTemplate value)
  let close := opens + 2 + Text.byteLength body.toList
  obtain ⟨parts, final, compose, further, atEnd⟩ := more (close + 1)
  have ends : EndsText ((.interpolation body :: others).flatMap written ++ behind) :=
    ⟨_, .inr flatMap_written_interpolation⟩
  have place := @textEnd_escapeTemplate offset value _ ends
  have inside := readsBody_of_tokenize read open_ last (opens + 2)
    (others.flatMap written ++ behind)
  have here : (⟨opens + 2, body.toList ++ '}' :: (others.flatMap written ++ behind)⟩ : Cursor) =
      (textEnd ⟨offset, escapeTemplate value ++
        ((.interpolation body :: others).flatMap written ++ behind)⟩).advance 2 := by
    rw [place, flatMap_written_interpolation]
    rfl
  rw [here] at inside
  have reads := ReadsParts.interpolation
    ((congrArg Cursor.rest place).trans flatMap_written_interpolation) inside further
  rw [place, textPart_escapeTemplate ends] at reads
  refine ⟨_, final, .interpolation read ?_ compose, reads, atEnd⟩
  rw [written, Text.byteLength_append, Text.byteLength_append]
  exact Nat.add_assoc opens 2 (Text.byteLength body.toList + 1)

/-- The pieces of a template are read as they are written, up to the brackets that close it. The
induction is on the pieces, a text being read along with the piece behind it. -/
theorem exists_readsParts : (pieces : List TemplatePiece) → (∀ piece ∈ pieces, piece.Sound) →
    pieces.IsChain (fun left right => ¬(left.isText ∧ right.isText)) → (offset : Nat) →
      ∃ parts final, Compose offset pieces parts ∧
        ReadsParts ⟨offset, pieces.flatMap written ++ ['>', '>']⟩ parts final ∧ final.rest = []
  | [], _, _, offset => ⟨_, _, .nil, readsParts_close offset [] [], rfl⟩
  | .interpolation body :: others, sound, apart, offset => by
      obtain ⟨first, rest⟩ := List.forall_mem_cons.mp sound
      have more := exists_readsParts others rest apart.tail
      exact @exists_readsParts_interpolation [] _ _ _ first more offset
  | [.text value], sound, _, offset => by
      have reads := readsParts_close offset value.toList []
      rw [templateText_of_sound (List.forall_mem_singleton.mp sound)] at reads
      rw [List.flatMap_singleton]
      exact ⟨_, _, .text rfl .nil, reads, rfl⟩
  | .text value :: .interpolation body :: others, sound, apart, offset => by
      obtain ⟨nonempty, rest⟩ := List.forall_mem_cons.mp sound
      obtain ⟨first, rest⟩ := List.forall_mem_cons.mp rest
      have more := exists_readsParts others rest apart.tail.tail
      obtain ⟨parts, final, compose, reads, atEnd⟩ :=
        @exists_readsParts_interpolation value.toList _ _ _ first more offset
      rw [templateText_of_sound nonempty] at reads
      rw [List.flatMap_cons, List.append_assoc]
      exact ⟨_, final, .text rfl compose, reads, atEnd⟩
  | .text _ :: .text _ :: _, _, apart, _ => by
      exact ((List.isChain_cons_cons.mp apart).1 ⟨rfl, rfl⟩).elim

/-- A template is read back as the pieces with which it is written. -/
theorem template_comesBack (pieces : List TemplatePiece) (sound : ∀ piece ∈ pieces, piece.Sound)
    (apart : pieces.IsChain fun left right => ¬(left.isText ∧ right.isText)) :
    ∃ parts, tokenize (String.ofList (TemplatePiece.template pieces)) =
        .ok [⟨.chevron parts, 0, Text.byteLength (TemplatePiece.template pieces)⟩] ∧
      TemplatePiece.Compose 2 pieces parts := by
  obtain ⟨parts, final, compose, inside, atEnd⟩ := exists_readsParts pieces sound apart 2
  have reads : Reads ⟨0, TemplatePiece.template pieces⟩ _ _ :=
    @Reads.chevron ⟨0, TemplatePiece.template pieces⟩ _ _ 2 rfl inside
  have all : ReadsAll _ _ _ := .cons reads .nil
  have stop := all.offset_eq atEnd
  rw [Nat.zero_add] at stop
  refine ⟨parts, tokenize_eq_ok_iff.mpr ⟨final, ?_, atEnd⟩, compose⟩
  rw [String.toList_ofList, ← stop]
  exact all

/-- Braces and brackets at the edges of pieces, and a comment that ends within its piece. -/
theorem template_comesBack_edges : ∃ parts,
    tokenize "<<a##\x7b\x7b<<\x7d>>\x7d\x7d\\\\\\#\x7b\\>#\x7b// \x7d\n\x7d#\x7b\x7d>>" =
        .ok [⟨.chevron parts, 0, 34⟩] ∧
      TemplatePiece.Compose 2 [.text "a#", .interpolation "\x7b<<\x7d>>\x7d",
        .text "\\#\x7b>", .interpolation "// \x7d\n", .interpolation ""] parts := by
  obtain ⟨parts, read, compose⟩ := template_comesBack [.text "a#",
    .interpolation "\x7b<<\x7d>>\x7d", .text "\\#\x7b>", .interpolation "// \x7d\n",
    .interpolation ""] (by decide +kernel) (by simp [TemplatePiece.isText])
  have text : String.ofList (TemplatePiece.template [.text "a#",
      .interpolation "\x7b<<\x7d>>\x7d", .text "\\#\x7b>", .interpolation "// \x7d\n",
      .interpolation ""]) =
        "<<a##\x7b\x7b<<\x7d>>\x7d\x7d\\\\\\#\x7b\\>#\x7b// \x7d\n\x7d#\x7b\x7d>>" := by
    decide +kernel
  rw [text] at read
  exact ⟨parts, read, compose⟩

end Pieces

end Token

end Krl

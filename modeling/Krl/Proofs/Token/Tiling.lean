import Krl.Proofs.Token.Failures
import Krl.Proofs.Token.Interpolations

/-!
# Nothing is lost or read twice

The tokenizer takes a source apart: what its steps take are whole characters, and together all
of them, errors included. In the same way the parts of a template make up the text between its
brackets, and the tokens of an interpolation that between its braces, however deep it lies.
-/

namespace Krl

/-- The bytes of the span are those of the characters, in the text from a place on. -/
def Cursor.Spells (origin : Cursor) (span : Span) (chars : List Char) : Prop :=
  ∃ before behind, origin.rest = before ++ chars ++ behind ∧
    span.start = origin.offset + Text.byteLength before ∧
    span.stop = span.start + Text.byteLength chars

/-- Spans follow each other without a gap from an offset up to another. Each is that of some
characters, so none is empty or cuts a character in two. -/
inductive Tiles (origin : Cursor) : Nat → List Span → Nat → Prop where
  | nil {offset : Nat} : Tiles origin offset [] offset
  | cons {start stop high : Nat} {chars : List Char} {others : List Span}
      (spells : origin.Spells ⟨start, stop⟩ chars) (nonempty : chars ≠ [])
      (rest : Tiles origin stop others high) : Tiles origin start (⟨start, stop⟩ :: others) high

/-- The bytes that a part of a template takes: those of its text, or those from `#{` to the
brace that closes it. -/
def TemplatePart.span : TemplatePart → Span
  | .text _ start stop => ⟨start, stop⟩
  | .interpolation _ start close => ⟨start, close + 1⟩

mutual

/-- The parts of the templates in a token fill the text between the brackets. -/
inductive Lexeme.Filled (origin : Cursor) : Lexeme → Prop where
  | plain {token : Token} {start stop : Nat} (plain : ∀ parts, token ≠ .chevron parts) :
      Lexeme.Filled origin ⟨token, start, stop⟩
  | template {parts : List TemplatePart} {start close : Nat}
      (opens : origin.Spells ⟨start, start + 2⟩ ['<', '<'])
      (closes : origin.Spells ⟨close, close + 2⟩ ['>', '>'])
      (tiles : Tiles origin (start + 2) (parts.map TemplatePart.span) close)
      (inside : ∀ part ∈ parts, part.Filled origin) :
      Lexeme.Filled origin ⟨.chevron parts, start, close + 2⟩

/-- The tokens of an interpolation fill the text between its braces. -/
inductive TemplatePart.Filled (origin : Cursor) : TemplatePart → Prop where
  | text {value : String} {start stop : Nat} : TemplatePart.Filled origin (.text value start stop)
  | interpolation {tokens : List Lexeme} {start close : Nat}
      (opens : origin.Spells ⟨start, start + 2⟩ ['#', '{'])
      (closes : origin.Spells ⟨close, close + 1⟩ ['}'])
      (tiles : Tiles origin (start + 2) (tokens.map Lexeme.span) close)
      (inside : ∀ lexeme ∈ tokens, lexeme.Filled origin) :
      TemplatePart.Filled origin (.interpolation tokens start close)

end

/-- What the tokenizer passes over on an error at a place: the one character that begins
nothing, or the opening delimiter of the literal that does not end. An error further on is
within a template. -/
inductive LexError.Skips (start : Nat) : LexError → List Char → Prop where
  | character {char : Char} : Skips start ⟨.unexpectedCharacter, start⟩ [char]
  | comment : Skips start ⟨.unterminatedComment, start⟩ ['/', '*']
  | string : Skips start ⟨.unterminatedString, start⟩ ['"']
  | regexp : Skips start ⟨.unterminatedRegExp, start⟩ ['r', 'e', '#']
  | chevron : Skips start ⟨.unterminatedChevron, start⟩ ['<', '<']
  | inside {error : LexError} (further : start + 2 ≤ error.offset) : Skips start error ['<', '<']

theorem LexError.Skips.ne_nil {start : Nat} {error : LexError} {chars : List Char}
    (skips : error.Skips start chars) : chars ≠ [] := by
  cases skips <;> exact List.cons_ne_nil _ _

/-- A step takes the bytes of its token, or those that are passed over on its error. -/
inductive Token.Step.Fits (origin : Cursor) : Token.Step → Prop where
  | token {lexeme : Lexeme} (filled : lexeme.Filled origin) :
      Token.Step.Fits origin ⟨lexeme.span, .ok lexeme⟩
  | error {span : Span} {error : LexError} {chars : List Char}
      (spells : origin.Spells span chars) (skips : error.Skips span.start chars) :
      Token.Step.Fits origin ⟨span, .error error⟩

/-- Reading on stays in the same text. -/
theorem Cursor.stop_eq {cursor next : Cursor} (advances : ∃ count, next = cursor.advance count) :
    next.offset + Text.byteLength next.rest = cursor.offset + Text.byteLength cursor.rest := by
  obtain ⟨count, rfl⟩ := advances
  rw [advance, Nat.add_assoc, ← Text.byteLength_append, List.take_append_drop]

theorem Cursor.advances_trans {cursor next final : Cursor}
    (first : ∃ count, next = cursor.advance count) (second : ∃ count, final = next.advance count) :
    ∃ count, final = cursor.advance count := by
  obtain ⟨count, rfl⟩ := first
  obtain ⟨further, rfl⟩ := second
  exact ⟨_, Cursor.advance_advance ..⟩

/-- A place is further on in the text from another place on. -/
def Cursor.Within (origin cursor : Cursor) : Prop :=
  ∃ count, cursor = origin.advance count

namespace Cursor.Within

variable {origin cursor next : Cursor}

theorem self (origin : Cursor) : origin.Within origin :=
  ⟨0, by simp [Cursor.advance]⟩

theorem advance (within : origin.Within cursor) (count : Nat) :
    origin.Within (cursor.advance count) := by
  obtain ⟨before, rfl⟩ := within
  exact ⟨_, Cursor.advance_advance ..⟩

theorem of_advances (within : origin.Within cursor)
    (advances : ∃ count, next = cursor.advance count) : origin.Within next := by
  obtain ⟨count, rfl⟩ := advances
  exact within.advance count

/-- The text behind a place is that in the source there. -/
theorem spells (within : origin.Within cursor) {chars behind : List Char}
    (here : cursor.rest = chars ++ behind) :
    origin.Spells ⟨cursor.offset, cursor.offset + Text.byteLength chars⟩ chars := by
  obtain ⟨before, rfl⟩ := within
  refine ⟨origin.rest.take before, behind, ?_, rfl, rfl⟩
  rw [List.append_assoc, ← here]
  exact (List.take_append_drop before origin.rest).symm

/-- What is read from a place up to one further on takes some characters. -/
theorem tile (within : origin.Within cursor) (advances : ∃ count, next = cursor.advance count)
    (onward : cursor.offset < next.offset) {high : Nat} {others : List Span}
    (rest : Tiles origin next.offset others high) :
    Tiles origin cursor.offset (⟨cursor.offset, next.offset⟩ :: others) high := by
  obtain ⟨count, rfl⟩ := advances
  refine .cons (within.spells (List.take_append_drop count cursor.rest).symm) ?_ rest
  intro empty
  rw [Cursor.advance, empty] at onward
  exact Nat.lt_irrefl _ onward

end Cursor.Within

theorem Tiles.append {origin : Cursor} {low middle high : Nat} {first second : List Span}
    (tiles : Tiles origin low first middle) (others : Tiles origin middle second high) :
    Tiles origin low (first ++ second) high := by
  induction tiles with
  | nil => exact others
  | cons spells nonempty _ ih => exact .cons spells nonempty (ih others)

theorem Tiles.bounds {origin : Cursor} {low high : Nat} {spans : List Span}
    (tiles : Tiles origin low spans high) : low ≤ high ∧ ∀ span ∈ spans, span.stop ≤ high := by
  induction tiles with
  | nil => exact ⟨Nat.le_refl _, List.forall_mem_nil _⟩
  | @cons start stop _ chars _ spells _ _ ih =>
      obtain ⟨_, _, _, _, ends⟩ := spells
      have onward : start ≤ stop := Nat.le.intro ends.symm
      exact ⟨Nat.le_trans onward ih.1, List.forall_mem_cons.mpr ih⟩

namespace Token

namespace Pattern

/-- A pattern that is a fixed text takes that text. -/
theorem eq_append_of_longest? {chars start : List Char} {pattern : Pattern} {length : Nat}
    (found : longest? chars = some (pattern, length))
    (fixed : pattern.extent chars = extent.opening chars start fun _ => 0) :
    length = start.length ∧ ∃ behind, chars = start ++ behind := by
  have positive := (longest?_bounds found).1
  rw [← extent_eq_of_longest? found, fixed, extent.opening] at positive ⊢
  split at positive
  next behind after =>
    exact ⟨rfl, behind, (Text.append_of_after?_eq_some after).symm⟩
  next => cases positive

end Pattern

/-- A run of template text has no characters if it denotes none. -/
theorem Literal.template_nil_iff {chars : List Char} :
    (Literal.template chars).1 = [] ↔ (Literal.template chars).2 = 0 := by
  fun_cases Literal.template chars <;> simp

variable {origin : Cursor}

theorem tiles_textPart {cursor : Cursor} (within : origin.Within cursor) :
    Tiles origin cursor.offset ((textPart cursor).map TemplatePart.span)
      (textEnd cursor).offset := by
  rw [textPart, templateText]
  split
  next empty =>
    have none_ := Literal.template_nil_iff.mp (List.isEmpty_iff.mp empty)
    rw [textEnd, none_]
    simpa [Cursor.advance] using Tiles.nil
  next nonempty =>
    have some_ := mt Literal.template_nil_iff.mpr (by simpa using nonempty)
    have onward := Cursor.lt_offset_advance (Nat.pos_of_ne_zero some_) (Literal.template_le _)
    exact within.tile ⟨_, rfl⟩ onward .nil

theorem filled_textPart (cursor : Cursor) : ∀ part ∈ textPart cursor, part.Filled origin := by
  rw [textPart, templateText]
  split
  · exact List.forall_mem_nil _
  · exact List.forall_mem_singleton.mpr .text

/-- A token takes the characters that it is read from. -/
theorem Reads.tile {cursor next : Cursor} {lexeme : Lexeme} (reads : Reads cursor lexeme next)
    (within : origin.Within cursor) {high : Nat} {others : List Span}
    (rest : Tiles origin next.offset others high) :
    Tiles origin cursor.offset (lexeme.span :: others) high := by
  obtain ⟨token, start, stop⟩ := lexeme
  obtain ⟨rfl, rfl, inside⟩ := reads.orderly
  exact within.tile reads.advances (Token.Orderly.le token inside) rest

/-- A closing brace is read from the one character that writes it. -/
theorem Reads.eq_of_rightBrace {cursor next : Cursor} {start stop : Nat} :
    Reads cursor ⟨.punct .rightBrace, start, stop⟩ next →
      start = cursor.offset ∧ next = cursor.advance 1 ∧ ∃ behind, cursor.rest = '}' :: behind := by
  intro reads
  generalize same : (⟨.punct .rightBrace, start, stop⟩ : Lexeme) = lexeme at reads
  cases reads with
  | @plain _ token _ longest =>
      obtain ⟨brace, rfl, rfl⟩ := Lexeme.mk.inj same
      cases token <;> cases brace
      obtain ⟨rfl, here⟩ := Pattern.eq_append_of_longest? longest rfl
      exact ⟨rfl, rfl, here⟩
  | _ => cases same

mutual

/-- The templates that are read are filled by their parts. The induction is on the reading. -/
theorem Reads.filled {cursor next : Cursor} {lexeme : Lexeme} :
    Reads cursor lexeme next → origin.Within cursor → lexeme.Filled origin
  | .plain _, _ => .plain (plain_read _ _)
  | .blockComment _ _, _ | .string _ _, _ | .regexp _ _ _, _ => .plain (by simp)
  | .chevron longest inside, within => by
      have body := inside.filled (within.advance _)
      obtain ⟨close, stop, closes, tiles, filled⟩ := body
      obtain ⟨rfl, behind, here⟩ := Pattern.eq_append_of_longest? longest rfl
      rw [stop]
      refine .template (within.spells here) closes ?_ filled
      rwa [Cursor.advance, here] at tiles

/-- Parts that are read fill the text up to the closing bracket. -/
theorem ReadsParts.filled {cursor next : Cursor} {parts : List TemplatePart} :
    ReadsParts cursor parts next → origin.Within cursor →
      ∃ close, next.offset = close + 2 ∧ origin.Spells ⟨close, close + 2⟩ ['>', '>'] ∧
        Tiles origin cursor.offset (parts.map TemplatePart.span) close ∧
        ∀ part ∈ parts, part.Filled origin
  | @ReadsParts.close cursor rest ends, within => by
      refine ⟨(textEnd cursor).offset, ?_, (within.advance _).spells ends, tiles_textPart within,
        filled_textPart cursor⟩
      rw [Cursor.advance, ends]
      rfl
  | @ReadsParts.interpolation cursor next _ close _ tokens others opens body more, within => by
      have opened := within.advance (Literal.template cursor.rest).2
      have inner := body.filled (opened.advance 2)
      have behind := more.filled ((opened.advance 2).of_advances body.advances)
      obtain ⟨closed, closes, tiles, filled⟩ := inner
      obtain ⟨stop, ends, spells, others, filledOthers⟩ := behind
      have starts := Cursor.offset_advance_two opens
      rw [starts] at tiles
      have onward : (textEnd cursor).offset < next.offset := by
        have := LexemesOrderly.le tokens body.orderly.1
        omega
      have whole := opened.tile (Cursor.advances_trans ⟨2, rfl⟩ body.advances) onward others
      rw [closed] at whole
      refine ⟨stop, ends, spells, ?_, ?_⟩
      · rw [List.map_append]
        exact (tiles_textPart within).append whole
      · exact List.forall_mem_append.mpr ⟨filled_textPart cursor, List.forall_mem_cons.mpr
          ⟨.interpolation (opened.spells opens) closes tiles filled, filledOthers⟩⟩

/-- Tokens that are read fill the text up to the brace that closes the interpolation. -/
theorem ReadsBody.filled {depth : Nat} {cursor next : Cursor} {tokens : List Lexeme}
    {close : Nat} : ReadsBody depth cursor tokens close next → origin.Within cursor →
      next.offset = close + 1 ∧ origin.Spells ⟨close, close + 1⟩ ['}'] ∧
        Tiles origin cursor.offset (tokens.map Lexeme.span) close ∧
        ∀ lexeme ∈ tokens, lexeme.Filled origin
  | .close last, within => by
      obtain ⟨rfl, rfl, behind, here⟩ := last.eq_of_rightBrace
      have spells : origin.Spells _ ['}'] := within.spells here
      refine ⟨?_, spells, .nil, List.forall_mem_nil _⟩
      rw [Cursor.advance, here]
      rfl
  | @ReadsBody.inner _ _ _ _ ⟨token, start, stop⟩ tokens _ first _ more, within => by
      have filled := first.filled within
      obtain ⟨closed, closes, tiles, others⟩ := more.filled (within.of_advances first.advances)
      exact ⟨closed, closes, first.tile within tiles, List.forall_mem_cons.mpr ⟨filled, others⟩⟩

end

/-- What is passed over on an error is the beginning of the text at which reading fails. -/
theorem Fails.skips {cursor : Cursor} {error : LexError} (fails : Fails cursor error)
    (nonempty : cursor.rest ≠ []) :
    ∃ chars behind, cursor.rest = chars ++ behind ∧
      (resume cursor).offset = cursor.offset + Text.byteLength chars ∧
      error.Skips cursor.offset chars := by
  have resumed {pattern : Pattern} {length : Nat} {start : List Char}
      (longest : Pattern.longest? cursor.rest = some (pattern, length))
      (fixed : pattern.extent cursor.rest = Pattern.extent.opening cursor.rest start fun _ => 0) :
      ∃ behind, cursor.rest = start ++ behind ∧
        (resume cursor).offset = cursor.offset + Text.byteLength start := by
    obtain ⟨rfl, behind, here⟩ := Pattern.eq_append_of_longest? longest fixed
    refine ⟨behind, here, ?_⟩
    rw [resume, longest, Option.elim_some, Cursor.advance, here, List.take_left]
  cases fails with
  | character nothing =>
      obtain ⟨char, behind, here⟩ := List.exists_cons_of_ne_nil nonempty
      refine ⟨[char], behind, here, ?_, .character⟩
      rw [resume, nothing, Option.elim_none, Cursor.advance, here]
      rfl
  | comment longest _ =>
      obtain ⟨behind, here, next⟩ := resumed longest rfl
      exact ⟨_, behind, here, next, .comment⟩
  | string longest _ =>
      obtain ⟨behind, here, next⟩ := resumed longest rfl
      exact ⟨_, behind, here, next, .string⟩
  | regexp longest _ =>
      obtain ⟨behind, here, next⟩ := resumed longest rfl
      exact ⟨_, behind, here, next, .regexp⟩
  | chevron longest inside =>
      obtain ⟨behind, here, next⟩ := resumed longest rfl
      refine ⟨_, behind, here, next, ?_⟩
      rcases inside.isAhead with rfl | ahead
      · exact .chevron
      · refine .inside ?_
        have opened := (Pattern.eq_append_of_longest? longest rfl).1
        have onward := ahead.le
        rw [opened, Cursor.advance, here] at onward
        exact onward

/-- A step takes what it reads or passes over, whole characters up to the next step. -/
theorem tiles_stepsFrom {cursor : Cursor} (within : origin.Within cursor) :
    Tiles origin cursor.offset ((stepsFrom cursor).map Step.span)
        (cursor.offset + Text.byteLength cursor.rest) ∧
      ∀ step ∈ stepsFrom cursor, step.Fits origin := by
  fun_induction stepsFrom cursor with
  | case1 cursor atEnd =>
      rw [atEnd]
      exact ⟨.nil, List.forall_mem_nil _⟩
  | case2 cursor atEnd error failed shorter next ih =>
      obtain ⟨chars, behind, here, stop, skips⟩ := (fails_of_lexeme failed).skips atEnd
      have advances : ∃ count, next = cursor.advance count := ⟨_, rfl⟩
      obtain ⟨rest, others⟩ := ih (within.of_advances advances)
      rw [Cursor.stop_eq advances] at rest
      have onward : cursor.offset < next.offset := by
        have := Text.byteLength_pos skips.ne_nil
        exact stop ▸ Nat.lt_add_of_pos_right this
      have spells := within.spells here
      rw [← stop] at spells
      exact ⟨within.tile advances onward rest,
        List.forall_mem_cons.mpr ⟨.error spells skips, others⟩⟩
  | case3 cursor atEnd first begins shorter ih =>
      have reads := reads_of_lexeme begins
      obtain ⟨starts, stops, _⟩ := reads.orderly
      obtain ⟨rest, others⟩ := ih (within.of_advances reads.advances)
      have same : first.value.span = ⟨cursor.offset, first.next.offset⟩ := by
        rw [Lexeme.span, starts, stops]
      rw [Cursor.stop_eq reads.advances] at rest
      rw [List.map_cons, ← same]
      exact ⟨reads.tile within rest,
        List.forall_mem_cons.mpr ⟨.token (reads.filled within), others⟩⟩

/-- Where the end of a source is a word, the ends of all steps are. -/
theorem steps_lt_wordLimit {source : String} {base : Nat}
    (fits : base + Text.byteLength source.toList < wordLimit) :
    ∀ step ∈ steps source base, step.span.stop < wordLimit := by
  intro step member
  have tiles := (tiles_stepsFrom (.self ⟨base, source.toList⟩)).1
  exact Nat.lt_of_le_of_lt (tiles.bounds.2 step.span (List.mem_map_of_mem member)) fits

/-- What the steps through a source take follows without a gap or an overlap from its first
byte to its last one, errors included, and each step takes its token or what it passes over
on its error. The templates in tokens are filled in the same way. -/
theorem steps_tile (source : String) (base : Nat) :
    Tiles ⟨base, source.toList⟩ base ((steps source base).map Step.span)
        (base + Text.byteLength source.toList) ∧
      ∀ step ∈ steps source base, step.Fits ⟨base, source.toList⟩ :=
  tiles_stepsFrom (.self _)

end Token

end Krl

import Krl.Error
import Krl.Token.Literal

/-!
# The tokenizer

At each place the longest matching pattern decides which token begins there.
Templates hold tokens inside their interpolations, so the tokenizer calls itself;
offsets are counted in the outermost source throughout. Every reader returns the
place where it stopped along with a proof that less text is left, on which its
termination rests.
-/

namespace Krl

/-- A place in a source: its byte offset and the text from there on. The offset is a word as long
as the text ends below the limit of words. -/
structure Cursor where
  offset : Nat
  rest : List Char
  deriving DecidableEq, Repr

namespace Cursor

/-- The place `count` characters further on. -/
def advance (cursor : Cursor) (count : Nat) : Cursor :=
  ⟨cursor.offset + Text.byteLength (cursor.rest.take count), cursor.rest.drop count⟩

@[simp] theorem length_rest_advance (cursor : Cursor) (count : Nat) :
    (cursor.advance count).rest.length = cursor.rest.length - count := by
  simp [advance]

end Cursor

/-- Something read at a cursor, and a later cursor where its text ends. -/
abbrev Reading (α : Type) (cursor : Cursor) : Type :=
  { found : α × Cursor // found.2.rest.length < cursor.rest.length }

namespace Reading

/-- What was read. -/
def value {α : Type} {cursor : Cursor} (reading : Reading α cursor) : α :=
  reading.1.1

/-- Where the text read ends. -/
def next {α : Type} {cursor : Cursor} (reading : Reading α cursor) : Cursor :=
  reading.1.2

/-- Reading on makes progress. -/
theorem shorter {α : Type} {cursor : Cursor} (reading : Reading α cursor) :
    reading.next.rest.length < cursor.rest.length :=
  reading.2

end Reading

namespace Token

/-- The token that a text matched in full writes. -/
def PlainToken.read (chars : List Char) : PlainToken → Token
  | spaces => .whitespace
  | lineComment => .lineComment
  | number | fraction => .number (Literal.number chars)
  | word => .symbol (String.ofList chars)
  | domainWord =>
      .domainName (String.ofList (chars.takeWhile (· != ':')))
        (String.ofList ((chars.dropWhile (· != ':')).drop 1))
  | punct mark => .punct mark

/-- The part of a template that a run of text makes, unless the run is empty. -/
def templateText (value : List Char) (start stop : Nat) : List TemplatePart :=
  if value.isEmpty then [] else [.text (String.ofList value) start stop]

mutual

/-- The token at the cursor. -/
def lexeme (cursor : Cursor) : Except LexError (Reading Lexeme cursor) :=
  match found : Pattern.longest? cursor.rest with
  | none => .error ⟨.unexpectedCharacter, cursor.offset⟩
  | some (pattern, length) =>
      have bounds := Pattern.longest?_bounds found
      let reading (token : Token) (next : Cursor)
          (shorter : next.rest.length < cursor.rest.length) : Reading Lexeme cursor :=
        ⟨(⟨token, cursor.offset, next.offset⟩, next), shorter⟩
      let opened := cursor.advance length
      have shorter (more : Nat) : (opened.advance more).rest.length < cursor.rest.length := by
        simp [opened]
        omega
      match pattern with
      | .opened .blockComment =>
          match Literal.comment? opened.rest with
          | none => .error ⟨.unterminatedComment, cursor.offset⟩
          | some more => .ok (reading .blockComment (opened.advance more) (shorter more))
      | .opened .string =>
          match Literal.string? opened.rest with
          | none => .error ⟨.unterminatedString, cursor.offset⟩
          | some (value, more) =>
              .ok (reading (.string (String.ofList value)) (opened.advance more) (shorter more))
      | .opened .regexp =>
          match Literal.regexp? opened.rest with
          | none => .error ⟨.unterminatedRegExp, cursor.offset⟩
          | some (body, more) =>
              let flags := (opened.rest.drop more).takeWhile isLetter
              .ok (reading (.regexp (String.ofList body) (String.ofList flags))
                (opened.advance (more + flags.length)) (shorter _))
      | .opened .chevron =>
          match template cursor.offset opened with
          | .error error => .error error
          | .ok parts =>
              .ok (reading (.chevron parts.value) parts.next
                (Nat.lt_trans parts.shorter (shorter 0)))
      | .plain token =>
          .ok (reading (token.read (cursor.rest.take length)) opened (shorter 0))
termination_by 2 * cursor.rest.length
decreasing_by
  rw [Cursor.length_rest_advance]
  omega

/-- The parts of a template up to and including `>>`. The template opened at
byte `start`, which is blamed when it does not end. -/
def template (start : Nat) (cursor : Cursor) :
    Except LexError (Reading (List TemplatePart) cursor) :=
  let (value, length) := Literal.template cursor.rest
  let here := cursor.advance length
  let text := templateText value cursor.offset here.offset
  match remaining : here.rest with
  | '>' :: '>' :: _ =>
      .ok ⟨(text, here.advance 2), by
        have := congrArg List.length remaining
        simp [here] at this ⊢
        omega⟩
  | '#' :: '{' :: _ =>
      have inside : (here.advance 2).rest.length < cursor.rest.length := by
        have := congrArg List.length remaining
        simp [here] at this ⊢
        omega
      match interpolation here.offset 0 (here.advance 2) with
      | .error error => .error error
      | .ok body =>
          have after := Nat.lt_trans body.shorter inside
          let (tokens, close) := body.value
          match template start body.next with
          | .error error => .error error
          | .ok others =>
              .ok ⟨(text ++ .interpolation tokens here.offset close :: others.value, others.next),
                Nat.lt_trans others.shorter after⟩
  | _ => .error ⟨.unterminatedChevron, start⟩
termination_by 2 * cursor.rest.length
decreasing_by
  · simp only [here] at inside
    omega
  · omega

/-- The tokens of an interpolation up to the brace that closes it, with the
offset of that brace. `depth` counts the braces open within. The interpolation
opened at byte `start`, which is blamed when it does not end. -/
def interpolation (start depth : Nat) (cursor : Cursor) :
    Except LexError (Reading (List Lexeme × Nat) cursor) :=
  if cursor.rest.isEmpty then
    .error ⟨.unterminatedInterpolation, start⟩
  else
    match lexeme cursor with
    | .error error => .error error
    | .ok first =>
        have shorter := first.shorter
        let more (depth : Nat) : Except LexError (Reading (List Lexeme × Nat) cursor) :=
          match interpolation start depth first.next with
          | .error error => .error error
          | .ok others =>
              .ok ⟨((first.value :: others.value.1, others.value.2), others.next),
                Nat.lt_trans others.shorter shorter⟩
        match first.value.token, depth with
        | .punct .rightBrace, 0 => .ok ⟨(([], first.value.start), first.next), shorter⟩
        | .punct .rightBrace, inner + 1 => more inner
        | .punct .leftBrace, inner => more (inner + 1)
        | _, inner => more inner
termination_by 2 * cursor.rest.length + 1
decreasing_by all_goals omega

end

/-- Where the tokenizer goes on after an error: past the opening delimiter that
could not be completed, or past the one character that begins nothing. -/
def resume (cursor : Cursor) : Cursor :=
  cursor.advance (((Pattern.longest? cursor.rest).elim 1) Prod.snd)

theorem length_rest_resume_lt {cursor : Cursor} (nonempty : cursor.rest ≠ []) :
    (resume cursor).rest.length < cursor.rest.length := by
  have positive := List.length_pos_iff.mpr nonempty
  rw [resume, Cursor.length_rest_advance]
  cases found : Pattern.longest? cursor.rest with
  | none => simpa using by omega
  | some best =>
      have := Pattern.longest?_bounds found
      simp only [Option.elim_some]
      omega

/-- A step of the tokenizer: the bytes it takes, and the token or the error it
finds there. -/
structure Step where
  span : Span
  outcome : Except LexError Lexeme

/-- The steps from the cursor to the end of the source. -/
def stepsFrom (cursor : Cursor) : List Step :=
  if atEnd : cursor.rest = [] then
    []
  else
    match lexeme cursor with
    | .error error =>
        have := length_rest_resume_lt atEnd
        let next := resume cursor
        ⟨⟨cursor.offset, next.offset⟩, .error error⟩ :: stepsFrom next
    | .ok first =>
        have := first.shorter
        ⟨⟨cursor.offset, first.next.offset⟩, .ok first.value⟩ :: stepsFrom first.next
termination_by cursor.rest.length

/-- The steps through a source whose first byte has offset `base`. Its last byte must have an
offset as well: the base and the length of the source add up to a word. -/
def steps (source : String) (base : Nat) : List Step :=
  stepsFrom ⟨base, source.toList⟩

/-- The tokens of a source, trivia included, or the first error. -/
def tokenize (source : String) : Except LexError (List Lexeme) :=
  (steps source 0).mapM Step.outcome

end Token

end Krl

import Krl.Proofs.Token.Delimiters
import Krl.Proofs.Token.LongestMatch

/-!
# Why a source has no tokens

The tokenizer fails only at a place to which it comes, and only if something is wrong there that
the text from there on shows by itself: a literal that does not end by its own rules, or a character
with which nothing begins. It fails at the first such place, which in a template is within one of
its interpolations rather than where the template begins.
-/

namespace Krl.Token

/-- A template goes on from one place to another, over text in which no delimiter begins and over
interpolations, each of which has tokens among which braces match and a brace behind. -/
inductive Passes : Cursor → Cursor → Prop where
  | text {offset : Nat} {run behind : List Char} (text : TextRun behind run) :
      Passes ⟨offset, run ++ behind⟩ ⟨offset + Text.byteLength run, behind⟩
  | interpolation {offset : Nat} {run inside behind : List Char} {tokens : List Lexeme}
      {brace place : Cursor} (text : TextRun ('#' :: '{' :: inside) run)
      (body : ReadsAll ⟨offset + Text.byteLength run + 2, inside⟩ tokens brace)
      (open_ : bracesOpen 0 tokens = some 0) (closes : brace.rest = '}' :: behind)
      (rest : Passes ⟨brace.offset + 1, behind⟩ place) :
      Passes ⟨offset, run ++ '#' :: '{' :: inside⟩ place

mutual

/-- The tokenizer begins to read tokens at a place: at the beginning of the source, or inside an
interpolation. -/
inductive Begins (source : String) : (inside : Bool) → Cursor → Prop where
  | source : Begins source false ⟨0, source.toList⟩
  | interpolation {place : Cursor} {behind : List Char} (opens : ComesInside source place)
      (here : place.rest = '#' :: '{' :: behind) :
      Begins source true ⟨place.offset + 2, behind⟩

/-- The tokenizer comes to a place where it reads a token, since it could read all tokens before,
none of which was the brace behind an interpolation. -/
inductive Comes (source : String) : Cursor → Prop where
  | reads {inside : Bool} {origin place : Cursor} {tokens : List Lexeme}
      (begins : Begins source inside origin) (reads : ReadsAll origin tokens place)
      (open_ : inside = true → bracesOpen 0 tokens ≠ none) : Comes source place

/-- The tokenizer comes to an interpolation of a template, since it could read all text and all
interpolations before. -/
inductive ComesInside (source : String) : Cursor → Prop where
  | passes {template place : Cursor} {text behind : List Char} (comes : Comes source template)
      (opens : template.rest = '<' :: '<' :: text)
      (passes : Passes ⟨template.offset + 2, text⟩ place)
      (here : place.rest = '#' :: '{' :: behind) : ComesInside source place

end

/-- What is wrong with the text at a place: a literal or an interpolation begins there that does not
end by its own rules, or nothing begins there. -/
inductive Defect (place : Cursor) : LexError.Kind → Prop where
  | character (nonempty : place.rest ≠ [])
      (nothing : ∀ word, word <+: place.rest → ∀ pattern : Pattern, ¬pattern.regex.Matches word) :
      Defect place .unexpectedCharacter
  | comment {text : List Char} (opens : place.rest = '/' :: '*' :: text)
      (endless : ¬['*', '/'] <:+: text) : Defect place .unterminatedComment
  | string {text : List Char} (opens : place.rest = '"' :: text)
      (endless : ¬ClosedBy '"' text) : Defect place .unterminatedString
  | regexp {text : List Char} (opens : place.rest = 'r' :: 'e' :: '#' :: text)
      (endless : ¬ClosedBy '#' text) : Defect place .unterminatedRegExp
  | chevron {text : List Char} {final : Cursor} (opens : place.rest = '<' :: '<' :: text)
      (endless : Passes ⟨place.offset + 2, text⟩ final) (atEnd : final.rest = []) :
      Defect place .unterminatedChevron
  | interpolation {text : List Char} {tokens : List Lexeme} {final : Cursor}
      (opens : place.rest = '#' :: '{' :: text)
      (reads : ReadsAll ⟨place.offset + 2, text⟩ tokens final) (atEnd : final.rest = [])
      (open_ : bracesOpen 0 tokens ≠ none) : Defect place .unterminatedInterpolation

/-- The tokenizer meets an error where it comes to a place and something is wrong there. That an
interpolation does not end matters only within a template, where it can begin. -/
inductive Meets (source : String) : LexError → Prop where
  | token {place : Cursor} {kind : LexError.Kind} (comes : Comes source place)
      (other : kind ≠ .unterminatedInterpolation) (defect : Defect place kind) :
      Meets source ⟨kind, place.offset⟩
  | interpolation {place : Cursor} (comes : ComesInside source place)
      (defect : Defect place .unterminatedInterpolation) :
      Meets source ⟨.unterminatedInterpolation, place.offset⟩

section Failures

variable {source : String} {start depth inner : Nat} {cursor place origin : Cursor}
  {tokens : List Lexeme} {error : LexError}

theorem advance_hash {text : List Char} (opens : cursor.rest = '#' :: '{' :: text) :
    cursor.advance 2 = ⟨cursor.offset + 2, text⟩ := by
  rw [Cursor.advance, opens]
  rfl

/-- A template fails where the text that is left fails. -/
theorem FailsParts.of_textEnd (fails : FailsParts start place error)
    (same : textEnd cursor = textEnd place) : FailsParts start cursor error := by
  cases fails with
  | endless open_ plain => exact .endless (same ▸ open_) (same ▸ plain)
  | inside opens body => exact .inside (same ▸ opens) (same ▸ body)
  | behind opens body more => exact .behind (same ▸ opens) (same ▸ body) more

theorem Passes.failsParts (passes : Passes cursor place)
    (ends : place.rest = [] ∨ EndsText place.rest) (fails : FailsParts start place error) :
    FailsParts start cursor error := by
  induction passes with
  | @text offset run behind text =>
      refine fails.of_textEnd ?_
      rw [textEnd_of_textRun text ends, textEnd_eq_self ends]
  | @interpolation offset run inside behind tokens brace place text body open_ closes _ ih =>
      have ended := @textEnd_of_textRun offset _ _ text (.inr ⟨inside, .inr rfl⟩)
      have within := body.readsBody open_ closes
      have start : (textEnd ⟨offset, run ++ '#' :: '{' :: inside⟩).advance 2 =
          ⟨offset + Text.byteLength run + 2, inside⟩ := by
        rw [ended]
        rfl
      rw [← start] at within
      exact .behind (congrArg Cursor.rest ended) within (ih ends fails)

/-- An interpolation fails where a token fails behind others, none of which closes it. -/
theorem ReadsAll.failsBody (reads : ReadsAll origin tokens place)
    (open_ : bracesOpen depth tokens = some inner) (fails : FailsBody start inner place error) :
    FailsBody start depth origin error := by
  induction reads generalizing depth with
  | nil =>
      cases open_
      exact fails
  | cons first _ ih =>
      obtain ⟨stays, open_⟩ := bracesOpen_cons_eq_some_iff.mp open_
      exact .behind first stays (ih open_ fails)

/-- Where something is wrong, no token is read. -/
theorem Defect.fails {kind : LexError.Kind} (defect : Defect place kind)
    (other : kind ≠ .unterminatedInterpolation) : Fails place ⟨kind, place.offset⟩ := by
  obtain ⟨offset, rest⟩ := place
  cases defect with
  | character _ nothing => exact .character (Pattern.longest?_eq_none_iff.mpr nothing)
  | comment opens endless =>
      cases opens
      exact @Fails.comment ⟨offset, _⟩ 2 rfl (Literal.comment?_eq_none_iff.mpr endless)
  | string opens endless =>
      cases opens
      exact @Fails.string ⟨offset, _⟩ 1 rfl (Literal.string?_eq_none_iff.mpr endless)
  | regexp opens endless =>
      cases opens
      exact @Fails.regexp ⟨offset, _⟩ 3 rfl (Literal.regexp?_eq_none_iff.mpr endless)
  | @chevron text final opens endless atEnd =>
      cases opens
      -- At the end of the source nothing is left of the template, so it fails there.
      have stays := textEnd_eq_self (.inl atEnd)
      refine @Fails.chevron ⟨offset, _⟩ 2 _ rfl (endless.failsParts (.inl atEnd) (.endless ?_ ?_))
      · rw [stays, atEnd]
        nofun
      · rw [stays, atEnd]
        nofun
  | interpolation => exact absurd rfl other

theorem Defect.rest_ne_nil {kind : LexError.Kind} (defect : Defect place kind) :
    place.rest ≠ [] := by
  cases defect with
  | character nonempty _ => exact nonempty
  | comment opens _ | string opens _ | regexp opens _ | chevron opens _ _
  | interpolation opens _ _ _ =>
      rw [opens]
      exact List.cons_ne_nil _ _

theorem ReadsAll.steps_error (reads : ReadsAll origin tokens place) (nonempty : place.rest ≠ [])
    (fails : Fails place error) : (stepsFrom origin).mapM Step.outcome = .error error := by
  induction reads with
  | nil =>
      rw [stepsFrom, dif_neg nonempty, fails.lexeme_eq]
      rfl
  | cons first _ ih =>
      obtain ⟨reading, begins, rfl, rfl⟩ := first.lexeme_eq
      rw [stepsFrom, dif_neg (Token.rest_ne_nil reading), begins]
      simp only [List.mapM_cons, ih nonempty fails]
      rfl

mutual

/-- Where the tokenizer comes to a place at which no token is read, it fails. -/
theorem Comes.tokenize_eq {place : Cursor} : Comes source place →
    place.rest ≠ [] → ∀ {error}, Fails place error → tokenize source = .error error
  | .reads .source reads _, nonempty, _, fails => reads.steps_error nonempty fails
  | .reads (.interpolation opens here) reads open_, nonempty, _, fails => by
      obtain ⟨inner, open_⟩ := Option.ne_none_iff_exists'.mp (open_ rfl)
      exact opens.tokenize_eq here (reads.failsBody open_ (.inside nonempty fails))

/-- Where the tokenizer comes to an interpolation that is not read, it fails. -/
theorem ComesInside.tokenize_eq {place : Cursor} : ComesInside source place →
    ∀ {text error}, place.rest = '#' :: '{' :: text →
      FailsBody place.offset 0 ⟨place.offset + 2, text⟩ error → tokenize source = .error error
  | @ComesInside.passes _ template _ _ _ comes opens passes _, text, error, here, fails => by
      have failed := comes.tokenize_eq
      obtain ⟨offset, rest⟩ := template
      cases opens
      have ends : EndsText place.rest := ⟨text, .inr here⟩
      have stays := textEnd_eq_self (.inr ends)
      have inside : FailsParts offset place error := by
        refine .inside ((congrArg Cursor.rest stays).trans here) ?_
        rw [stays, advance_hash here]
        exact fails
      exact failed (List.cons_ne_nil _ _)
        (@Fails.chevron ⟨offset, _⟩ 2 error rfl (passes.failsParts (.inr ends) inside))

end

/-- An error that the tokenizer meets is the one that it answers. -/
theorem Meets.tokenize_eq : Meets source error → tokenize source = .error error
  | .token comes other defect => comes.tokenize_eq defect.rest_ne_nil (defect.fails other)
  | .interpolation comes (.interpolation opens reads atEnd open_) => by
      obtain ⟨inner, open_⟩ := Option.ne_none_iff_exists'.mp open_
      exact comes.tokenize_eq opens (reads.failsBody open_ (.endless atEnd))

/-- An opening delimiter stands where it is found, and the literal behind it. -/
theorem exists_opened {start : List Char} {pattern : Pattern} {length : Nat}
    (longest : Pattern.longest? place.rest = some (pattern, length))
    (fixed : pattern.extent place.rest = Pattern.extent.opening place.rest start fun _ => 0) :
    ∃ text, place.rest = start ++ text ∧
      place.advance length = ⟨place.offset + Text.byteLength start, text⟩ := by
  obtain ⟨rfl, text, here⟩ := Pattern.eq_append_of_longest? longest fixed
  exact ⟨text, here, advance_eq_of_append here rfl⟩

theorem passes_textEnd (cursor : Cursor) : Passes cursor (textEnd cursor) := by
  have passes := @Passes.text cursor.offset _ _ (textRun_template cursor.rest)
  rwa [List.take_append_drop] at passes

theorem passes_of_readsBody {next further : Cursor} {close : Nat} {text : List Char}
    (opens : (textEnd cursor).rest = '#' :: '{' :: text)
    (body : ReadsBody 0 ((textEnd cursor).advance 2) tokens close next)
    (more : Passes next further) : Passes cursor further := by
  obtain ⟨brace, behind, reads, open_, closes, rfl⟩ := body.exists_readsAll
  have run := textRun_template cursor.rest
  have whole := List.take_append_drop (Literal.template cursor.rest).2 cursor.rest
  rw [show cursor.rest.drop _ = _ from opens] at run whole
  rw [advance_hash opens] at reads
  have passes := @Passes.interpolation cursor.offset _ _ _ _ _ _ run reads open_ closes more
  rwa [whole] at passes

mutual

/-- Where the tokenizer comes to a token and fails, it meets an error. The induction is on the
failure. -/
theorem Fails.meets {place : Cursor} {error : LexError} : Fails place error →
    Comes source place → place.rest ≠ [] → Meets source error
  | .character nothing, comes, nonempty =>
      .token comes (by decide) (.character nonempty (Pattern.longest?_eq_none_iff.mp nothing))
  | .comment longest endless, comes, nonempty => by
      obtain ⟨text, opens, next⟩ := exists_opened longest rfl
      rw [next] at endless
      exact .token comes (by decide) (.comment opens (Literal.comment?_eq_none_iff.mp endless))
  | .string longest endless, comes, nonempty => by
      obtain ⟨text, opens, next⟩ := exists_opened longest rfl
      rw [next] at endless
      exact .token comes (by decide) (.string opens (Literal.string?_eq_none_iff.mp endless))
  | .regexp longest endless, comes, nonempty => by
      obtain ⟨text, opens, next⟩ := exists_opened longest rfl
      rw [next] at endless
      exact .token comes (by decide) (.regexp opens (Literal.regexp?_eq_none_iff.mp endless))
  | .chevron longest inside, comes, nonempty => by
      obtain ⟨text, opens, next⟩ := exists_opened longest rfl
      refine inside.meets comes rfl opens fun passes => ?_
      rw [next] at passes
      exact passes

/-- Where a template fails to which the tokenizer came, it meets an error. -/
theorem FailsParts.meets {start : Nat} {cursor : Cursor} {error : LexError} :
    FailsParts start cursor error → ∀ {template text}, Comes source template →
      template.offset = start → template.rest = '<' :: '<' :: text →
      (∀ {further}, Passes cursor further → Passes ⟨start + 2, text⟩ further) → Meets source error
  | .endless open_ plain, template, text, comes, starts, opens, onward => by
      subst starts
      -- Text ends at a delimiter or not at all, and neither delimiter stands there.
      have atEnd : (textEnd cursor).rest = [] := by
        refine (endsText_template cursor.rest).resolve_right ?_
        rintro ⟨rest, ends | opens⟩
        · exact open_ rest ends
        · exact plain rest opens
      exact .token comes (by decide) (.chevron opens (onward (passes_textEnd cursor)) atEnd)
  | .inside hash body, template, text, comes, starts, opens, onward => by
      subst starts
      exact body.meets (.passes comes opens (onward (passes_textEnd cursor)) hash) rfl hash
        (by rw [advance_hash hash]; exact .nil) rfl
  | .behind hash body more, template, text, comes, starts, opens, onward =>
      more.meets comes starts opens fun passes => onward (passes_of_readsBody hash body passes)

/-- Where an interpolation fails to which the tokenizer came, it meets an error. -/
theorem FailsBody.meets {start depth : Nat} {cursor : Cursor} {error : LexError} :
    FailsBody start depth cursor error → ∀ {hash text tokens}, ComesInside source hash →
      hash.offset = start → hash.rest = '#' :: '{' :: text →
      ReadsAll ⟨start + 2, text⟩ tokens cursor → bracesOpen 0 tokens = some depth →
        Meets source error
  | .endless atEnd, hash, text, tokens, comes, starts, opens, reads, open_ => by
      subst starts
      exact .interpolation comes (.interpolation opens reads atEnd (by rw [open_]; nofun))
  | .inside nonempty token, hash, text, tokens, comes, starts, opens, reads, open_ => by
      subst starts
      exact token.meets (.reads (.interpolation comes opens) reads fun _ => by rw [open_]; nofun)
        nonempty
  | .behind first stays more, hash, text, tokens, comes, starts, opens, reads, open_ => by
      refine more.meets comes starts opens (reads.append (.cons first .nil)) ?_
      rw [bracesOpen_append, open_]
      exact bracesOpen_of_stays stays

end

theorem Passes.advances (passes : Passes cursor place) :
    ∃ count, place = cursor.advance count := by
  induction passes with
  | @text offset run behind _ => exact ⟨run.length, (Cursor.advance_append ..).symm⟩
  | @interpolation offset run inside behind tokens brace place _ body _ closes _ ih =>
      have toHash : ∃ count, (⟨offset + Text.byteLength run, '#' :: '{' :: inside⟩ : Cursor) =
          Cursor.advance ⟨offset, run ++ '#' :: '{' :: inside⟩ count :=
        ⟨run.length, (Cursor.advance_append ..).symm⟩
      have toBody : ∃ count, (⟨offset + Text.byteLength run + 2, inside⟩ : Cursor) =
          Cursor.advance ⟨offset + Text.byteLength run, '#' :: '{' :: inside⟩ count := ⟨2, rfl⟩
      have behindBrace : ∃ count, (⟨brace.offset + 1, behind⟩ : Cursor) = brace.advance count := by
        refine ⟨1, ?_⟩
        rw [Cursor.advance, closes]
        rfl
      exact Cursor.advances_trans toHash (Cursor.advances_trans toBody
        (Cursor.advances_trans body.advances (Cursor.advances_trans behindBrace ih)))

mutual

/-- The tokenizer comes to places in the source only. -/
theorem Comes.inSource {place : Cursor} : Comes source place → place.In source
  | .reads .source reads _ => Cursor.In.of_advances ⟨0, rfl⟩ reads.advances
  | .reads (.interpolation opens here) reads _ =>
      Cursor.In.of_advances (advance_hash here ▸ opens.inSource.advance 2) reads.advances

theorem ComesInside.inSource {place : Cursor} : ComesInside source place → place.In source
  | .passes comes opens passes _ => by
      have opened := comes.inSource.advance 2
      rw [Cursor.advance, opens] at opened
      exact opened.of_advances passes.advances

end

/-- Where the tokenizer meets an error, something is wrong with the text from there on. -/
theorem Meets.exists_defect (meets : Meets source error) :
    ∃ place : Cursor, place.In source ∧ place.offset = error.offset ∧ Defect place error.kind := by
  cases meets with
  | token comes _ defect => exact ⟨_, comes.inSource, rfl, defect⟩
  | interpolation comes defect => exact ⟨_, comes.inSource, rfl, defect⟩

/-- The tokenizer meets the error that it answers. -/
theorem meets_of_tokenize (failed : tokenize source = .error error) : Meets source error := by
  obtain ⟨tokens, place, reads, nonempty, fails⟩ := fails_of_tokenize failed
  exact fails.meets (.reads .source reads nofun) nonempty

theorem exists_first_error {steps : List Step}
    (failed : steps.mapM Step.outcome = .error error) :
    ∃ before span behind, steps = before ++ ⟨span, .error error⟩ :: behind ∧
      ∀ step ∈ before, ∃ lexeme, step.outcome = .ok lexeme := by
  induction steps with
  | nil => cases failed
  | cons step steps ih =>
      obtain ⟨span, outcome⟩ := step
      rw [List.mapM_cons] at failed
      cases outcome with
      | error first =>
          cases failed
          exact ⟨[], span, steps, rfl, List.forall_mem_nil _⟩
      | ok lexeme =>
          cases others : steps.mapM Step.outcome with
          | ok lexemes =>
              rw [others] at failed
              cases failed
          | error inner =>
              rw [others] at failed
              cases failed
              obtain ⟨before, span', behind, rfl, read⟩ := ih others
              exact ⟨_ :: before, span', behind, rfl,
                List.forall_mem_cons.mpr ⟨⟨lexeme, rfl⟩, read⟩⟩

end Failures

/-- A source fails with an error just when the tokenizer meets it: when it comes to a place, having
read everything before, and what begins there does not end by its own rules, or nothing begins. The
place is one before a character of the source. No other error is met, since the tokenizer goes no
further, and this one is that of the first step that fails. Without any such place the source has
tokens. -/
theorem tokenize_fails_exactly (source : String) :
    (∀ error, tokenize source = .error error ↔ Meets source error) ∧
    (∀ error, Meets source error → error.offset < Text.byteLength source.toList ∧
      ∃ before behind, source.toList = before ++ behind ∧ error.offset = Text.byteLength before ∧
        Defect ⟨error.offset, behind⟩ error.kind) ∧
    (∀ first second, Meets source first → Meets source second → first = second) ∧
    (∀ error, tokenize source = .error error → ∃ before span behind,
      steps source 0 = before ++ ⟨span, .error error⟩ :: behind ∧
        ∀ step ∈ before, ∃ lexeme, step.outcome = .ok lexeme) ∧
    ((∀ error, ¬Meets source error) → ∃ lexemes, tokenize source = .ok lexemes) := by
  refine ⟨fun error => ⟨meets_of_tokenize, Meets.tokenize_eq⟩, fun error meets => ?_,
    fun first second meets meets' => ?_, fun error => exists_first_error, fun nothing => ?_⟩
  · obtain ⟨place, ⟨count, rfl⟩, offset, defect⟩ := meets.exists_defect
    have whole := (List.take_append_drop count source.toList).symm
    have before : error.offset = Text.byteLength (source.toList.take count) := by
      rw [← offset, Cursor.advance, Nat.zero_add]
    refine ⟨?_, _, _, whole, before, offset ▸ defect⟩
    have behind : 0 < Text.byteLength (source.toList.drop count) :=
      Text.byteLength_pos defect.rest_ne_nil
    have total := congrArg Text.byteLength whole
    rw [Text.byteLength_append] at total
    omega
  · exact Except.error.inj (meets.tokenize_eq.symm.trans meets'.tokenize_eq)
  · cases read : tokenize source with
    | error error => exact absurd (meets_of_tokenize read) (nothing error)
    | ok lexemes => exact ⟨lexemes, rfl⟩

/-- A string without an end in an interpolation is to blame, and not the interpolation or the
template, which do not end either. With a quote there is nothing to blame. -/
theorem tokenize_fails_exactly_string :
    tokenize "x <<a#\x7b\"b\x7d>>" = .error ⟨.unterminatedString, 7⟩ ∧
    Meets "x <<a#\x7b\"b\x7d>>" ⟨.unterminatedString, 7⟩ ∧
    (∃ behind, Defect ⟨7, behind⟩ .unterminatedString) ∧
    (∀ error, Meets "x <<a#\x7b\"b\x7d>>" error → error = ⟨.unterminatedString, 7⟩) ∧
    ∃ lexemes, tokenize "x <<a#\x7b\"b\"\x7d>>" = .ok lexemes := by
  obtain ⟨meets_iff, placed, unique, _⟩ := tokenize_fails_exactly "x <<a#\x7b\"b\x7d>>"
  have failed : tokenize "x <<a#\x7b\"b\x7d>>" = .error ⟨.unterminatedString, 7⟩ := by
    have checked : (tokenize "x <<a#\x7b\"b\x7d>>").map (fun _ => ()) =
        .error ⟨.unterminatedString, 7⟩ := by decide +kernel
    cases answer : tokenize "x <<a#\x7b\"b\x7d>>" with
    | error error =>
        rw [answer] at checked
        exact congrArg Except.error (Except.error.inj checked)
    | ok lexemes =>
        rw [answer] at checked
        cases checked
  have meets := (meets_iff _).mp failed
  obtain ⟨_, _, behind, _, _, defect⟩ := placed _ meets
  refine ⟨failed, meets, ⟨behind, defect⟩, fun error also => unique _ _ also meets, ?_⟩
  obtain ⟨meets_iff, _, _, _, succeeds⟩ := tokenize_fails_exactly "x <<a#\x7b\"b\"\x7d>>"
  refine succeeds fun error meets => ?_
  have read : (tokenize "x <<a#\x7b\"b\"\x7d>>").toBool = true := by decide +kernel
  rw [(meets_iff error).mpr meets] at read
  cases read

end Krl.Token

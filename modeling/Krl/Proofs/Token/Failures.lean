import Krl.Proofs.Token.Order

/-!
# How reading fails

The errors of the tokenizer as relations, as those for what it reads. A token fails because
nothing begins at its place or because its literal does not end. A template passes on the error
of the first token that fails in one of its interpolations, however deep that lies, and is
itself to blame only if it does not end.
-/

namespace Krl.Token

mutual

/-- No token can be read at a place. -/
inductive Fails : Cursor → LexError → Prop where
  | character {cursor : Cursor} (nothing : Pattern.longest? cursor.rest = none) :
      Fails cursor ⟨.unexpectedCharacter, cursor.offset⟩
  | comment {cursor : Cursor} {length : Nat}
      (longest : Pattern.longest? cursor.rest = some (.opened .blockComment, length))
      (endless : Literal.comment? (cursor.advance length).rest = none) :
      Fails cursor ⟨.unterminatedComment, cursor.offset⟩
  | string {cursor : Cursor} {length : Nat}
      (longest : Pattern.longest? cursor.rest = some (.opened .string, length))
      (endless : Literal.string? (cursor.advance length).rest = none) :
      Fails cursor ⟨.unterminatedString, cursor.offset⟩
  | regexp {cursor : Cursor} {length : Nat}
      (longest : Pattern.longest? cursor.rest = some (.opened .regexp, length))
      (endless : Literal.regexp? (cursor.advance length).rest = none) :
      Fails cursor ⟨.unterminatedRegExp, cursor.offset⟩
  | chevron {cursor : Cursor} {length : Nat} {error : LexError}
      (longest : Pattern.longest? cursor.rest = some (.opened .chevron, length))
      (inside : FailsParts cursor.offset (cursor.advance length) error) : Fails cursor error

/-- The template that opened at byte `start` cannot be read on from a place. -/
inductive FailsParts : Nat → Cursor → LexError → Prop where
  | endless {start : Nat} {cursor : Cursor}
      (open_ : ∀ rest, (textEnd cursor).rest ≠ '>' :: '>' :: rest)
      (plain : ∀ rest, (textEnd cursor).rest ≠ '#' :: '{' :: rest) :
      FailsParts start cursor ⟨.unterminatedChevron, start⟩
  | inside {start : Nat} {cursor : Cursor} {rest : List Char} {error : LexError}
      (opens : (textEnd cursor).rest = '#' :: '{' :: rest)
      (body : FailsBody (textEnd cursor).offset 0 ((textEnd cursor).advance 2) error) :
      FailsParts start cursor error
  | behind {start : Nat} {cursor next : Cursor} {rest : List Char} {tokens : List Lexeme}
      {close : Nat} {error : LexError} (opens : (textEnd cursor).rest = '#' :: '{' :: rest)
      (body : ReadsBody 0 ((textEnd cursor).advance 2) tokens close next)
      (more : FailsParts start next error) : FailsParts start cursor error

/-- The interpolation that opened at byte `start` cannot be read on from a place, where some
braces are open. -/
inductive FailsBody : (start depth : Nat) → Cursor → LexError → Prop where
  | endless {start depth : Nat} {cursor : Cursor} (atEnd : cursor.rest = []) :
      FailsBody start depth cursor ⟨.unterminatedInterpolation, start⟩
  | inside {start depth : Nat} {cursor : Cursor} {error : LexError} (nonempty : cursor.rest ≠ [])
      (token : Fails cursor error) : FailsBody start depth cursor error
  | behind {start depth : Nat} {cursor next : Cursor} {lexeme : Lexeme} {error : LexError}
      (first : Reads cursor lexeme next) (stays : ¬Closes lexeme.token depth)
      (more : FailsBody start (depthAfter lexeme.token depth) next error) :
      FailsBody start depth cursor error

end

mutual

theorem fails_of_lexeme {cursor : Cursor} {error : LexError}
    (failed : lexeme cursor = .error error) : Fails cursor error := by
  rw [lexeme] at failed
  split at failed
  next nothing =>
    cases failed
    exact .character nothing
  next pattern length found =>
    simp only at failed
    split at failed
    · split at failed
      next endless =>
        cases failed
        exact .comment found endless
      · cases failed
    · split at failed
      next endless =>
        cases failed
        exact .string found endless
      · cases failed
    · split at failed
      next endless =>
        cases failed
        exact .regexp found endless
      · cases failed
    · split at failed
      next inner inside =>
        cases failed
        have shorter := Cursor.length_rest_advance cursor length
        have bounds := Pattern.longest?_bounds found
        exact .chevron found (failsParts_of_template inside)
      · cases failed
    · cases failed
termination_by 2 * cursor.rest.length
decreasing_by omega

theorem failsParts_of_template {start : Nat} {cursor : Cursor} {error : LexError}
    (failed : template start cursor = .error error) : FailsParts start cursor error := by
  rw [template] at failed
  simp only at failed
  split at failed
  · cases failed
  next rest opens =>
    have inside := length_rest_advance_two opens
    split at failed
    next inner within =>
      cases failed
      have inside : ((textEnd cursor).advance 2).rest.length < cursor.rest.length := inside
      exact .inside opens (failsBody_of_interpolation within)
    next body within =>
      split at failed
      next inner more =>
        cases failed
        have inside : ((textEnd cursor).advance 2).rest.length < cursor.rest.length := inside
        have shorter := Nat.lt_trans body.shorter inside
        exact .behind opens (readsBody_of_interpolation within) (failsParts_of_template more)
      · cases failed
  next closes opens =>
    cases failed
    exact .endless closes opens
termination_by 2 * cursor.rest.length
decreasing_by all_goals omega

theorem failsBody_of_interpolation {start depth : Nat} {cursor : Cursor} {error : LexError}
    (failed : interpolation start depth cursor = .error error) :
    FailsBody start depth cursor error := by
  rw [interpolation] at failed
  split at failed
  next atEnd =>
    cases failed
    exact .endless (List.isEmpty_iff.mp atEnd)
  next nonempty =>
    split at failed
    next inner token =>
      cases failed
      exact .inside (mt List.isEmpty_iff.mpr nonempty) (fails_of_lexeme token)
    next first begins =>
      have shorter := first.shorter
      have onward : ∀ {deeper : Nat}, ¬Closes first.value.token depth →
          depthAfter first.value.token depth = deeper →
          interpolation start deeper first.next = .error error →
            FailsBody start depth cursor error := by
        rintro deeper stays rfl failed
        exact .behind (reads_of_lexeme begins) stays (failsBody_of_interpolation failed)
      simp only at failed
      split at failed
      · cases failed
      next isBrace =>
        split at failed
        next more =>
          cases failed
          exact onward (by simp [Closes]) (by rw [isBrace]; rfl) more
        · cases failed
      next isBrace =>
        split at failed
        next more =>
          cases failed
          exact onward (by simp [Closes, isBrace]) (by rw [isBrace]; rfl) more
        · cases failed
      next notLeft notLast notRight =>
        split at failed
        next more =>
          cases failed
          refine onward ?_ (depthAfter_eq_self notLeft notRight) more
          rintro ⟨isBrace, rfl⟩
          exact notLast isBrace rfl
        · cases failed
termination_by 2 * cursor.rest.length + 1
decreasing_by all_goals omega

end

mutual

/-- What fails determines what the tokenizer answers. The induction is on the failure. -/
theorem Fails.lexeme_eq {cursor : Cursor} {error : LexError} :
    Fails cursor error → lexeme cursor = .error error
  | .character nothing => by
      rw [lexeme]
      split
      · rfl
      · simp_all
  | .comment longest endless | .string longest endless | .regexp longest endless => by
      rw [lexeme]
      split
      · simp_all
      next found =>
        rw [longest] at found
        cases found
        simp only
        split
        · rfl
        · simp_all
  | .chevron longest inside => by
      have failed := inside.template_eq
      rw [lexeme]
      split
      · simp_all
      next found =>
        rw [longest] at found
        cases found
        simp only [failed]

theorem FailsParts.template_eq {start : Nat} {cursor : Cursor} {error : LexError} :
    FailsParts start cursor error → template start cursor = .error error
  | .endless open_ plain => by
      rw [template]
      simp only
  | .inside opens body => by
      have failed := body.interpolation_eq
      rw [template]
      simp only
      split
      next other =>
        rw [opens] at other
        cases other
      · rw [failed]
      next neither => exact (neither _ opens).elim
  | .behind opens body more => by
      have failed := more.template_eq
      obtain ⟨inner, answered, _, rfl⟩ := body.interpolation_eq (textEnd _).offset
      rw [template]
      simp only
      split
      next other =>
        rw [opens] at other
        cases other
      · rw [answered]
        simp only [failed]
      next neither => exact (neither _ opens).elim

theorem FailsBody.interpolation_eq {start depth : Nat} {cursor : Cursor} {error : LexError} :
    FailsBody start depth cursor error → interpolation start depth cursor = .error error
  | .endless atEnd => by
      rw [interpolation, if_pos (List.isEmpty_iff.mpr atEnd)]
  | .inside nonempty token => by
      have failed := token.lexeme_eq
      rw [interpolation, if_neg (mt List.isEmpty_iff.mp nonempty), failed]
  | .behind first stays more => by
      have failed := more.interpolation_eq
      obtain ⟨reading, answered, rfl, rfl⟩ := first.lexeme_eq
      rw [interpolation, if_neg (by simp [rest_ne_nil reading]), answered]
      simp only
      have goesOn : ∀ deeper, depthAfter reading.value.token depth = deeper →
          interpolation start deeper reading.next = .error error := by
        rintro deeper rfl
        exact failed
      split
      next isBrace => exact (stays ⟨isBrace, rfl⟩).elim
      next isBrace => rw [goesOn _ (by rw [isBrace]; rfl)]
      next isBrace => rw [goesOn _ (by rw [isBrace]; rfl)]
      next notLeft notLast notRight => rw [goesOn _ (depthAfter_eq_self notLeft notRight)]

end

/-- The offset is that of a place some characters further on. -/
def IsAhead (cursor : Cursor) (offset : Nat) : Prop :=
  ∃ count, offset = (cursor.advance count).offset

namespace IsAhead

variable {cursor next : Cursor} {offset : Nat}

theorem le (ahead : IsAhead cursor offset) : cursor.offset ≤ offset := by
  obtain ⟨count, rfl⟩ := ahead
  exact cursor.le_offset_advance count

theorem self (cursor : Cursor) : IsAhead cursor cursor.offset :=
  ⟨0, by simp [Cursor.advance]⟩

theorem of_advances (ahead : IsAhead next offset)
    (advances : ∃ count, next = cursor.advance count) : IsAhead cursor offset := by
  obtain ⟨count, rfl⟩ := advances
  obtain ⟨further, rfl⟩ := ahead
  exact ⟨count + further, by rw [Cursor.advance_advance]⟩

theorem of_advance {count : Nat} (ahead : IsAhead (cursor.advance count) offset) :
    IsAhead cursor offset :=
  ahead.of_advances ⟨count, rfl⟩

end IsAhead

mutual

/-- Errors blame a place at or behind that of the token. The induction is on the failure. -/
theorem Fails.isAhead {cursor : Cursor} {error : LexError} :
    Fails cursor error → IsAhead cursor error.offset
  | .character _ | .comment _ _ | .string _ _ | .regexp _ _ => .self cursor
  | .chevron _ inside => by
      rcases inside.isAhead with rfl | ahead
      · exact .self cursor
      · exact ahead.of_advance

/-- Errors in a template blame the template, or a place behind. -/
theorem FailsParts.isAhead {start : Nat} {cursor : Cursor} {error : LexError} :
    FailsParts start cursor error →
      error = ⟨.unterminatedChevron, start⟩ ∨ IsAhead cursor error.offset
  | .endless _ _ => .inl rfl
  | .inside _ body => by
      rcases body.isAhead with blamed | ahead
      · right
        rw [blamed]
        exact (IsAhead.self _).of_advance
      · exact .inr ahead.of_advance.of_advance
  | .behind _ body more => by
      rcases more.isAhead with rfl | ahead
      · exact .inl rfl
      · exact .inr (ahead.of_advances body.advances).of_advance.of_advance

theorem FailsBody.isAhead {start depth : Nat} {cursor : Cursor} {error : LexError} :
    FailsBody start depth cursor error →
      error.offset = start ∨ IsAhead cursor error.offset
  | .endless _ => .inl rfl
  | .inside _ token => .inr token.isAhead
  | .behind first _ more => by
      rcases more.isAhead with blamed | ahead
      · exact .inl blamed
      · exact .inr (ahead.of_advances first.advances)

end

/-- If a source is not tokenized, then tokens are read up to the place where one fails. -/
theorem fails_of_steps {cursor : Cursor} {error : LexError}
    (failed : (stepsFrom cursor).mapM Step.outcome = .error error) :
    ∃ lexemes place, ReadsAll cursor lexemes place ∧ place.rest ≠ [] ∧ Fails place error := by
  fun_induction stepsFrom cursor with
  | case1 cursor atEnd => cases failed
  | case2 cursor atEnd first fails _ _ _ =>
      rw [List.mapM_cons] at failed
      cases failed
      exact ⟨[], cursor, .nil, atEnd, fails_of_lexeme fails⟩
  | case3 cursor _ first begins _ ih =>
      rw [List.mapM_cons] at failed
      cases others : (stepsFrom first.next).mapM Step.outcome with
      | error inner =>
          rw [others] at failed
          cases failed
          obtain ⟨lexemes, place, rest, nonempty, fails⟩ := ih others
          exact ⟨_, place, .cons (reads_of_lexeme begins) rest, nonempty, fails⟩
      | ok lexemes =>
          rw [others] at failed
          cases failed

theorem fails_of_tokenize {source : String} {error : LexError}
    (failed : tokenize source = .error error) :
    ∃ lexemes place, ReadsAll ⟨0, source.toList⟩ lexemes place ∧ place.rest ≠ [] ∧
      Fails place error :=
  fails_of_steps failed

end Krl.Token

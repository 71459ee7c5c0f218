import Krl.Proofs.Token.Patterns
import Krl.Proofs.Token.Tiling

/-!
# The longest match decides

Each step of the tokenizer is decided by the longest text that any pattern matches at its place. A
pattern that matches a token in full makes the token of that text. One that matches an opening
delimiter makes a literal, or the error of one that does not end. Where no pattern matches anything
there is an unexpected character.
-/

namespace Krl.Token

/-- The token is a literal of the kind that the delimiter opens. -/
def OpenedToken.Makes : OpenedToken → Token → Prop
  | .blockComment, .blockComment | .string, .string _ | .regexp, .regexp _ _
  | .chevron, .chevron _ => True
  | _, _ => False

/-- What is wrong with a literal that does not end. -/
def OpenedToken.unterminated : OpenedToken → LexError.Kind
  | .blockComment => .unterminatedComment
  | .string => .unterminatedString
  | .regexp => .unterminatedRegExp
  | .chevron => .unterminatedChevron

/-- A step does what the pattern asks for that matches the word at its place. A template can also
fail for an error further on, in one of its interpolations. -/
inductive Step.Takes (start : Nat) (word : List Char) : Pattern → Step → Prop where
  | plain {token : PlainToken} :
      Step.Takes start word (.plain token)
        ⟨⟨start, start + Text.byteLength word⟩,
          .ok ⟨token.read word, start, start + Text.byteLength word⟩⟩
  | literal {opening : OpenedToken} {token : Token} {stop : Nat} (kind : opening.Makes token)
      (onward : start + Text.byteLength word ≤ stop) :
      Step.Takes start word (.opened opening) ⟨⟨start, stop⟩, .ok ⟨token, start, stop⟩⟩
  | endless {opening : OpenedToken} :
      Step.Takes start word (.opened opening)
        ⟨⟨start, start + Text.byteLength word⟩, .error ⟨opening.unterminated, start⟩⟩
  | inside {error : LexError} (further : start + Text.byteLength word ≤ error.offset) :
      Step.Takes start word (.opened .chevron)
        ⟨⟨start, start + Text.byteLength word⟩, .error error⟩

/-- The step at a place is decided by the longest match there. -/
structure Step.Munches (cursor : Cursor) (step : Step) : Prop where
  /-- If something matches, then there is just one longest match, which the step takes. -/
  takes : ∀ (word : List Char) (pattern : Pattern), word ≠ [] → word <+: cursor.rest →
    pattern.regex.Matches word → ∃ best longest, Pattern.Longest cursor.rest best longest ∧
      (∀ pattern' word', Pattern.Longest cursor.rest pattern' word' →
        pattern' = best ∧ word' = longest) ∧
      step.Takes cursor.offset longest best
  /-- If nothing matches, then the character at the place is to blame. -/
  blames : (∀ (word : List Char) (pattern : Pattern), word ≠ [] → word <+: cursor.rest →
    ¬pattern.regex.Matches word) →
      step = ⟨⟨cursor.offset, (cursor.advance 1).offset⟩,
        .error ⟨.unexpectedCharacter, cursor.offset⟩⟩

variable {cursor next : Cursor} {step : Step}

theorem Step.munches_of_takes {pattern : Pattern} {length : Nat}
    (found : Pattern.longest? cursor.rest = some (pattern, length))
    (takes : step.Takes cursor.offset (cursor.rest.take length) pattern) : step.Munches cursor := by
  have longest := Pattern.longest_of_longest? found
  refine ⟨fun _ _ _ _ _ => ⟨pattern, _, longest, fun _ _ => longest.unique, takes⟩, ?_⟩
  intro nothing
  exact absurd longest.matched
    (nothing _ _ (Pattern.ne_nil_of_matches longest.matched) longest.begins)

/-- A token that is read is decided by the longest match. -/
theorem Reads.munches {lexeme : Lexeme} (reads : Reads cursor lexeme next) :
    Step.Munches cursor ⟨⟨cursor.offset, next.offset⟩, .ok lexeme⟩ := by
  cases reads with
  | plain longest => exact Step.munches_of_takes longest .plain
  | blockComment longest _ | string longest _ | regexp longest _ _ =>
      exact Step.munches_of_takes longest (.literal trivial
        (Cursor.le_offset_advance (Cursor.advance _ _) _))
  | chevron longest inside =>
      exact Step.munches_of_takes longest (.literal trivial (PartsOrderly.le _ inside.orderly))

/-- An error is decided by the longest match, or there is none. -/
theorem Fails.munches {error : LexError} (fails : Fails cursor error) :
    Step.Munches cursor ⟨⟨cursor.offset, (resume cursor).offset⟩, .error error⟩ := by
  cases fails with
  | character nothing =>
      rw [resume, nothing, Option.elim_none]
      refine ⟨fun word pattern _ begins matched => ?_, fun _ => rfl⟩
      exact absurd nothing (Pattern.longest?_ne_none begins matched)
  | comment longest _ | string longest _ | regexp longest _ =>
      rw [resume, longest, Option.elim_some]
      exact Step.munches_of_takes longest .endless
  | chevron longest inside =>
      rw [resume, longest, Option.elim_some]
      rcases inside.isAhead with rfl | ahead
      · exact Step.munches_of_takes longest .endless
      · exact Step.munches_of_takes longest (.inside ahead.le)

/-- The steps from a place begin with one that the longest match there decides. -/
theorem exists_munches (nonempty : cursor.rest ≠ []) :
    ∃ step others, stepsFrom cursor = step :: others ∧ step.Munches cursor := by
  rw [stepsFrom, dif_neg nonempty]
  cases read : lexeme cursor with
  | error error => exact ⟨_, _, rfl, (fails_of_lexeme read).munches⟩
  | ok reading => exact ⟨_, _, rfl, (reads_of_lexeme read).munches⟩

theorem exists_cursor_of_mem {origin : Cursor} (within : origin.Within cursor)
    (member : step ∈ stepsFrom cursor) :
    ∃ place others, origin.Within place ∧ place.rest ≠ [] ∧ stepsFrom place = step :: others := by
  fun_induction stepsFrom cursor with
  | case1 => cases member
  | case2 cursor nonempty error failed _ next ih =>
      rcases List.mem_cons.mp member with rfl | member
      · refine ⟨cursor, stepsFrom next, within, nonempty, ?_⟩
        rw [stepsFrom, dif_neg nonempty, failed]
      · exact ih (within.advance _) member
  | case3 cursor nonempty first begins _ ih =>
      rcases List.mem_cons.mp member with rfl | member
      · refine ⟨cursor, stepsFrom first.next, within, nonempty, ?_⟩
        rw [stepsFrom, dif_neg nonempty, begins]
      · exact ih (within.of_advances (reads_of_lexeme begins).advances) member

/-- Wherever a tokenizer takes a step, that of a whole source or that of an interpolation, the
step is decided by the longest match there. The steps through a source are such steps. -/
theorem steps_munch :
    (∀ cursor : Cursor, cursor.rest ≠ [] →
      ∃ step others, stepsFrom cursor = step :: others ∧ step.Munches cursor) ∧
    ∀ (source : String) (base : Nat), ∀ step ∈ steps source base, ∃ cursor,
      Cursor.Within ⟨base, source.toList⟩ cursor ∧ cursor.rest ≠ [] ∧ step.Munches cursor := by
  refine ⟨fun cursor => exists_munches, fun source base step member => ?_⟩
  obtain ⟨place, others, within, nonempty, steps⟩ := exists_cursor_of_mem (.self _) member
  obtain ⟨first, _, steps', munches⟩ := exists_munches nonempty
  cases steps.symm.trans steps'
  exact ⟨place, within, nonempty, munches⟩

/-- A name in a domain goes on up to the second colon, and not up to the first one. -/
theorem steps_munch_domainName :
    ∃ step others, stepsFrom ⟨0, "a:b:c".toList⟩ = step :: others ∧ step.span = ⟨0, 3⟩ ∧
      step.Munches ⟨0, "a:b:c".toList⟩ ∧ ∃ cursor, Cursor.Within ⟨0, "a:b:c".toList⟩ cursor ∧
        cursor.rest ≠ [] ∧ step.Munches cursor := by
  have spans : (stepsFrom ⟨0, "a:b:c".toList⟩).map Step.span = [⟨0, 3⟩, ⟨3, 4⟩, ⟨4, 5⟩] := by
    decide +kernel
  obtain ⟨step, others, same, munches⟩ := steps_munch.1 ⟨0, "a:b:c".toList⟩ (by decide)
  have member : step ∈ steps "a:b:c" 0 := by
    rw [steps, same]
    exact List.mem_cons_self
  rw [same, List.map_cons] at spans
  exact ⟨step, others, same, (List.cons.inj spans).1, munches, steps_munch.2 _ _ step member⟩

end Krl.Token

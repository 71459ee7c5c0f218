import Krl.Proofs.Token.Compositions

/-!
# Where literals end

A literal ends at the first delimiter that is not escaped, and only if there is one. What this
means is said here of the text alone, without the readers of literals: for strings and regular
expressions, in which a backslash takes along whatever follows it, for comments, in which nothing is
escaped, and for the text of templates, in which only some characters are.
-/

namespace Krl.Token

section Delimiters

/-- Text without the delimiter, apart from characters behind a backslash, which are passed over
along with it. -/
inductive Unclosed (delimiter : Char) : List Char → Prop where
  | nil : Unclosed delimiter []
  | escaped {char : Char} {others : List Char} (rest : Unclosed delimiter others) :
      Unclosed delimiter ('\\' :: char :: others)
  | other {char : Char} {others : List Char} (notBackslash : char ≠ '\\')
      (notDelimiter : char ≠ delimiter) (rest : Unclosed delimiter others) :
      Unclosed delimiter (char :: others)

/-- Somewhere in the text stands the delimiter, and is not escaped. -/
def ClosedBy (delimiter : Char) (text : List Char) : Prop :=
  ∃ body behind, text = body ++ delimiter :: behind ∧ Unclosed delimiter body

/-- What holds of a reader of literals with a delimiter, no matter what it makes of escapes: it
passes over pairs of a backslash and another character, and stops at the delimiter. -/
structure StopsAt (delimiter : Char) (stops : List Char → Bool) : Prop where
  nil : stops [] = false
  lone : stops ['\\'] = false
  here : ∀ rest, stops (delimiter :: rest) = true
  pair : ∀ char rest, stops ('\\' :: char :: rest) = stops rest
  other : ∀ char rest, char ≠ '\\' → char ≠ delimiter → stops (char :: rest) = stops rest

namespace StopsAt

variable {delimiter : Char} {stops : List Char → Bool} (reader : StopsAt delimiter stops)

include reader

theorem closedBy : (text : List Char) → stops text = true → ClosedBy delimiter text
  | [], found => absurd (reader.nil.symm.trans found) Bool.false_ne_true
  | char :: rest, found => by
      by_cases same : char = delimiter
      · exact ⟨[], rest, same ▸ rfl, .nil⟩
      by_cases backslash : char = '\\'
      · subst backslash
        match rest with
        | [] => exact absurd (reader.lone.symm.trans found) Bool.false_ne_true
        | escaped :: rest =>
            rw [reader.pair] at found
            obtain ⟨body, behind, rfl, unclosed⟩ := closedBy rest found
            exact ⟨'\\' :: escaped :: body, behind, rfl, .escaped unclosed⟩
      · rw [reader.other char rest backslash same] at found
        obtain ⟨body, behind, rfl, unclosed⟩ := closedBy rest found
        exact ⟨char :: body, behind, rfl, .other backslash same unclosed⟩

theorem stops_of_unclosed {body : List Char} (unclosed : Unclosed delimiter body)
    (behind : List Char) : stops (body ++ delimiter :: behind) = true := by
  induction unclosed with
  | nil => exact reader.here behind
  | escaped _ ih => exact (reader.pair _ _).trans ih
  | other notBackslash notDelimiter _ ih =>
      exact (reader.other _ _ notBackslash notDelimiter).trans ih

theorem iff (text : List Char) : stops text = true ↔ ClosedBy delimiter text := by
  refine ⟨reader.closedBy text, ?_⟩
  rintro ⟨body, behind, rfl, unclosed⟩
  exact reader.stops_of_unclosed unclosed behind

end StopsAt

namespace Literal

theorem stopsAt_string : StopsAt '"' fun text => (string? text).isSome where
  nil := rfl
  lone := rfl
  here _ := rfl
  pair char rest := by rw [string?, Option.isSome_map]
  other char rest notBackslash notQuote := by
    rw [string?_other notQuote notBackslash, Option.isSome_map]

theorem stopsAt_regexp : StopsAt '#' fun text => (regexp? text).isSome where
  nil := rfl
  lone := rfl
  here _ := rfl
  pair char rest := by rw [regexp?, Option.isSome_map]
  other char rest notBackslash notMark := by
    rw [regexp?_other notMark notBackslash, Option.isSome_map]

theorem string?_eq_none_iff {text : List Char} : string? text = none ↔ ¬ClosedBy '"' text := by
  rw [← stopsAt_string.iff, Bool.not_eq_true, Option.isSome_eq_false_iff, Option.isNone_iff_eq_none]

theorem regexp?_eq_none_iff {text : List Char} : regexp? text = none ↔ ¬ClosedBy '#' text := by
  rw [← stopsAt_regexp.iff, Bool.not_eq_true, Option.isSome_eq_false_iff, Option.isNone_iff_eq_none]

theorem comment?_eq_none_iff {text : List Char} :
    comment? text = none ↔ ¬['*', '/'] <:+: text := by
  fun_induction comment? text with
  | case1 => simp
  | case2 rest => simp [List.infix_cons_iff]
  | case3 char rest notEnd ih =>
      have notHere : ¬['*', '/'] <+: char :: rest := by
        rintro ⟨behind, same⟩
        cases same
        exact notEnd behind rfl rfl
      rw [Option.map_eq_none_iff, ih, List.infix_cons_iff, or_iff_right notHere]

end Literal

end Delimiters

section Runs

/-- What can be escaped in a template. -/
def escapable : List (List Char) :=
  [['#', '{'], ['>'], ['<'], ['\\']]

/-- Text of a template before other text, in which no delimiter begins that is not escaped. -/
inductive TextRun (behind : List Char) : List Char → Prop where
  | nil : TextRun behind []
  | escaped {mark others : List Char} (escapes : mark ∈ escapable) (rest : TextRun behind others) :
      TextRun behind ('\\' :: (mark ++ others))
  | other {char : Char} {others : List Char}
      (notEnd : ¬['>', '>'] <+: char :: (others ++ behind))
      (notOpening : ¬['#', '{'] <+: char :: (others ++ behind))
      (notEscape : char = '\\' → ∀ mark ∈ escapable, ¬mark <+: others ++ behind)
      (rest : TextRun behind others) : TextRun behind (char :: others)

variable {offset : Nat} {run behind : List Char}

/-- What the tokenizer takes as text of a template has no delimiter in it. -/
theorem textRun_template (text : List Char) :
    TextRun (text.drop (Literal.template text).2) (text.take (Literal.template text).2) := by
  fun_induction Literal.template text with
  | case1 | case2 | case3 => exact .nil
  | case4 rest value length read ih =>
      rw [read] at ih
      exact @TextRun.escaped _ ['#', '{'] _ (by simp [escapable]) ih
  | case5 rest value length read ih =>
      rw [read] at ih
      exact @TextRun.escaped _ ['>'] _ (by simp [escapable]) ih
  | case6 rest value length read ih =>
      rw [read] at ih
      exact @TextRun.escaped _ ['<'] _ (by simp [escapable]) ih
  | case7 rest value length read ih =>
      rw [read] at ih
      exact @TextRun.escaped _ ['\\'] _ (by simp [escapable]) ih
  | case8 char rest notEnd notOpening notHash notGreater notLess notBackslash value length read
      ih =>
      rw [read] at ih
      have whole : rest.take length ++ rest.drop length = rest := List.take_append_drop length rest
      -- What is taken and what is left make up the text, in which nothing else begins.
      suffices other : TextRun (rest.drop length) (char :: rest.take length) from other
      refine .other ?_ ?_ ?_ ih <;> rw [whole]
      · rintro ⟨behind, same⟩
        cases same
        exact notEnd behind rfl rfl
      · rintro ⟨behind, same⟩
        cases same
        exact notOpening behind rfl rfl
      · simp only [escapable, List.forall_mem_cons]
        rintro rfl
        refine ⟨?_, ?_, ?_, ?_, List.forall_mem_nil _⟩
        · rintro ⟨behind, rfl⟩
          exact notHash behind rfl rfl
        · rintro ⟨behind, rfl⟩
          exact notGreater behind rfl rfl
        · rintro ⟨behind, rfl⟩
          exact notLess behind rfl rfl
        · rintro ⟨behind, rfl⟩
          exact notBackslash behind rfl rfl

/-- Text of a template goes on up to the end of the source or to a delimiter. -/
theorem endsText_template (text : List Char) :
    text.drop (Literal.template text).2 = [] ∨ EndsText (text.drop (Literal.template text).2) := by
  fun_induction Literal.template text with
  | case1 => exact .inl rfl
  | case2 rest => exact .inr ⟨rest, .inl rfl⟩
  | case3 rest => exact .inr ⟨rest, .inr rfl⟩
  | case4 rest value length read ih | case5 rest value length read ih
  | case6 rest value length read ih | case7 rest value length read ih
  | case8 char rest _ _ _ _ _ _ value length read ih =>
      rw [read] at ih
      exact ih

/-- Text in which no delimiter begins is taken as text of a template. -/
theorem template_of_textRun (text : TextRun behind run) (ends : behind = [] ∨ EndsText behind) :
    (Literal.template (run ++ behind)).2 = run.length := by
  induction text with
  | nil =>
      rcases ends with rfl | ⟨rest, rfl | rfl⟩ <;> rfl
  | @escaped mark others escapes _ ih =>
      simp only [escapable, List.mem_cons, List.not_mem_nil, or_false] at escapes
      rcases escapes with rfl | rfl | rfl | rfl <;>
        exact congrArg (· + _) ih
  | @other char others notEnd notOpening notEscape _ ih =>
      rw [List.cons_append, Literal.template]
      · exact congrArg (· + 1) ih
      · rintro rest rfl same
        exact notEnd ⟨rest, by rw [same]; rfl⟩
      · rintro rest rfl same
        exact notOpening ⟨rest, by rw [same]; rfl⟩
      · rintro rest rfl same
        exact notEscape rfl ['#', '{'] (by simp [escapable]) ⟨rest, same.symm⟩
      · rintro rest rfl same
        exact notEscape rfl ['>'] (by simp [escapable]) ⟨rest, same.symm⟩
      · rintro rest rfl same
        exact notEscape rfl ['<'] (by simp [escapable]) ⟨rest, same.symm⟩
      · rintro rest rfl same
        exact notEscape rfl ['\\'] (by simp [escapable]) ⟨rest, same.symm⟩

theorem textEnd_of_textRun (text : TextRun behind run) (ends : behind = [] ∨ EndsText behind) :
    textEnd ⟨offset, run ++ behind⟩ = ⟨offset + Text.byteLength run, behind⟩ := by
  rw [textEnd, template_of_textRun text ends, Cursor.advance_append]

/-- Where no text of a template stands, none is taken. -/
theorem textEnd_eq_self {place : Cursor} (ends : place.rest = [] ∨ EndsText place.rest) :
    textEnd place = place :=
  textEnd_of_textRun .nil ends

end Runs

end Krl.Token

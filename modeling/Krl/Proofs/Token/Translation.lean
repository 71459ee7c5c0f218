import Krl.Proofs.Token.Extensions
import Krl.Proofs.Token.Failures

/-!
# The tokenizer does not depend on where a text stands

Offsets are carried along and never looked at. A text whose first byte has another offset is
read in the same steps, errors included, with all offsets moved. Along with the cuts of a
source this says that any run of its tokens, from the first byte of one to the last byte of
another, is a text that has just these tokens.
-/

namespace Krl

/-- The same text some bytes further on. -/
def Cursor.shift (base : Nat) (cursor : Cursor) : Cursor :=
  ⟨cursor.offset + base, cursor.rest⟩

namespace Cursor

theorem widen_nil (base : Nat) (cursor : Cursor) : cursor.widen base [] = cursor.shift base := by
  rw [widen, List.append_nil, shift]

theorem advance_shift (base : Nat) (cursor : Cursor) (count : Nat) :
    (cursor.shift base).advance count = (cursor.advance count).shift base := by
  simp only [shift, advance, Nat.add_right_comm]

end Cursor

namespace Token

variable {base : Nat}

theorem Reads.shift {cursor next : Cursor} {lexeme : Lexeme} (reads : Reads cursor lexeme next) :
    Reads (cursor.shift base) (lexeme.shift base) (next.shift base) := by
  simpa only [Cursor.widen_nil] using reads.widen base apart_nil fun _ => .inl rfl

theorem ReadsBody.shift {depth : Nat} {cursor next : Cursor} {tokens : List Lexeme}
    {close : Nat} (reads : ReadsBody depth cursor tokens close next) :
    ReadsBody depth (cursor.shift base) (tokens.map (Lexeme.shift base)) (close + base)
      (next.shift base) := by
  simpa only [Cursor.widen_nil] using reads.widen base apart_nil

theorem textEnd_shift (cursor : Cursor) :
    textEnd (cursor.shift base) = (textEnd cursor).shift base :=
  Cursor.advance_shift ..

mutual

/-- A token that cannot be read cannot be read further on, for the same reason. The induction
is on the failure. -/
theorem Fails.shift {cursor : Cursor} {error : LexError} :
    Fails cursor error → Fails (cursor.shift base) (error.shift base)
  | .character nothing => .character nothing
  | .comment longest endless => .comment longest endless
  | .string longest endless => .string longest endless
  | .regexp longest endless => .regexp longest endless
  | .chevron longest inside => .chevron longest (Cursor.advance_shift base _ _ ▸ inside.shift)

theorem FailsParts.shift {start : Nat} {cursor : Cursor} {error : LexError} :
    FailsParts start cursor error →
      FailsParts (start + base) (cursor.shift base) (error.shift base)
  | .endless open_ plain => .endless open_ plain
  | .inside opens body => by
      refine .inside opens ?_
      rw [textEnd_shift, Cursor.advance_shift]
      exact body.shift
  | .behind opens body more => by
      have read : ReadsBody _ (Cursor.shift base _) _ _ _ := body.shift
      rw [← Cursor.advance_shift, ← textEnd_shift] at read
      exact .behind opens read more.shift

theorem FailsBody.shift {start depth : Nat} {cursor : Cursor} {error : LexError} :
    FailsBody start depth cursor error →
      FailsBody (start + base) depth (cursor.shift base) (error.shift base)
  | .endless atEnd => .endless atEnd
  | .inside nonempty token => .inside nonempty token.shift
  | .behind first stays more => by
      refine .behind first.shift (closes_shift_iff.not.mpr stays) ?_
      rw [Lexeme.shift, depthAfter_shift]
      exact more.shift

end

/-- A text further on is read in the same steps. -/
theorem stepsFrom_shift (cursor : Cursor) :
    stepsFrom (cursor.shift base) = (stepsFrom cursor).map (Step.shift base) := by
  fun_induction stepsFrom cursor with
  | case1 cursor atEnd =>
      rw [stepsFrom, dif_pos (show (cursor.shift base).rest = [] from atEnd)]
      rfl
  | case2 cursor nonempty error failed _ next ih =>
      have resumed : resume (cursor.shift base) = next.shift base := Cursor.advance_shift ..
      rw [stepsFrom, dif_neg (show (cursor.shift base).rest ≠ [] from nonempty),
        (fails_of_lexeme failed).shift.lexeme_eq]
      simp only [resumed, ih]
      rfl
  | case3 cursor nonempty first begins _ ih =>
      obtain ⟨reading, read, value, next⟩ := (reads_of_lexeme begins).shift.lexeme_eq
      rw [stepsFrom, dif_neg (show (cursor.shift base).rest ≠ [] from nonempty), read]
      simp only [value, next, ih]
      rfl

theorem steps_eq_map_shift (text : String) (base : Nat) :
    steps text base = (steps text 0).map (Step.shift base) := by
  rw [steps, steps, ← stepsFrom_shift, Cursor.shift, Nat.zero_add]

/-- The bytes from one token of a source to the same one or a later one are a text that has
these tokens, at offsets counted from its beginning. -/
theorem exists_slice_of_tokenize {source : String} {lexemes : List Lexeme}
    (tokenized : tokenize source = .ok lexemes) {first last : Nat} (ordered : first ≤ last)
    {opens closes : Lexeme} (firstIs : lexemes[first]? = some opens)
    (lastIs : lexemes[last]? = some closes) :
    ∃ text piece, Span.slice? source ⟨opens.start, closes.stop⟩ = some text ∧
      tokenize text = .ok piece ∧
      (lexemes.take (last + 1)).drop first = piece.map (Lexeme.shift opens.start) := by
  obtain ⟨final, reads, _⟩ := tokenize_eq_ok_iff.mp tokenized
  have inside : Cursor.In source ⟨0, source.toList⟩ := ⟨0, rfl⟩
  have closed : lexemes.take (last + 1) = lexemes.take last ++ [closes] := by
    rw [List.take_add_one, lastIs, Option.toList_some]
  have room : first ≤ (lexemes.take last).length := by
    have := (List.getElem?_eq_some_iff.mp lastIs).1
    rw [List.length_take]
    omega
  have opened : (lexemes.take (last + 1)).drop first =
      opens :: (lexemes.take (last + 1)).drop (first + 1) := by
    rw [← List.getElem?_take_of_lt (Nat.lt_succ_of_le ordered)] at firstIs
    obtain ⟨within, rfl⟩ := List.getElem?_eq_some_iff.mp firstIs
    exact List.drop_eq_getElem_cons within
  have split : lexemes = (lexemes.take (last + 1)).take first ++
      (opens :: (lexemes.take (last + 1)).drop (first + 1) ++ lexemes.drop (last + 1)) := by
    rw [← opened, ← List.append_assoc, List.take_append_drop, List.take_append_drop]
  have ends : opens :: (lexemes.take (last + 1)).drop (first + 1) =
      (lexemes.take last).drop first ++ [closes] := by
    rw [← opened, closed, List.drop_append_of_le_length room]
  rw [split] at reads
  obtain ⟨text, piece, slice, tokenized, shifted⟩ := exists_run inside reads ends
  exact ⟨text, piece, slice, tokenized, opened.trans shifted⟩

/-- Every run of tokens of a source is what its own text has, and the steps through a text
are those at any other offset. Both times all offsets move by the same number of bytes, those
within templates and those of errors included. -/
theorem tokens_translate :
    (∀ (source : String) (lexemes : List Lexeme) (first last : Nat) (opens closes : Lexeme),
      tokenize source = .ok lexemes → first ≤ last → lexemes[first]? = some opens →
        lexemes[last]? = some closes →
          ∃ text piece, Span.slice? source ⟨opens.start, closes.stop⟩ = some text ∧
            tokenize text = .ok piece ∧
            (lexemes.take (last + 1)).drop first = piece.map (Lexeme.shift opens.start)) ∧
    ∀ (text : String) (base : Nat), steps text base = (steps text 0).map (Step.shift base) :=
  ⟨fun _ _ _ _ _ _ tokenized ordered firstIs lastIs =>
      exists_slice_of_tokenize tokenized ordered firstIs lastIs,
    steps_eq_map_shift⟩

/-- A template with a template in it, and the tokens behind it. -/
theorem tokens_translate_template :
    ∃ lexemes opens closes text piece,
      tokenize "x <<a#\x7b<<#\x7by\x7d>>\x7d>> z" = .ok lexemes ∧
      lexemes.map Lexeme.span = [⟨0, 1⟩, ⟨1, 2⟩, ⟨2, 18⟩, ⟨18, 19⟩, ⟨19, 20⟩] ∧
      lexemes[2]? = some opens ∧ lexemes[4]? = some closes ∧
      Span.slice? "x <<a#\x7b<<#\x7by\x7d>>\x7d>> z" ⟨opens.start, closes.stop⟩ = some text ∧
      tokenize text = .ok piece ∧
      (lexemes.take 5).drop 2 = piece.map (Lexeme.shift opens.start) := by
  have spans : (tokenize "x <<a#\x7b<<#\x7by\x7d>>\x7d>> z").toOption.map (·.map Lexeme.span) =
      some [⟨0, 1⟩, ⟨1, 2⟩, ⟨2, 18⟩, ⟨18, 19⟩, ⟨19, 20⟩] := by decide +kernel
  cases tokenized : tokenize "x <<a#\x7b<<#\x7by\x7d>>\x7d>> z" with
  | error error =>
      rw [tokenized] at spans
      cases spans
  | ok lexemes =>
      rw [tokenized] at spans
      have places := Option.some.inj spans
      have five : lexemes.length = 5 := by simpa using congrArg List.length places
      have firstIs := List.getElem?_eq_getElem (show 2 < lexemes.length by omega)
      have lastIs := List.getElem?_eq_getElem (show 4 < lexemes.length by omega)
      obtain ⟨text, piece, slice, retokenized, same⟩ :=
        tokens_translate.1 _ _ _ _ _ _ tokenized (by decide) firstIs lastIs
      exact ⟨lexemes, _, _, text, piece, rfl, places, firstIs, lastIs, slice, retokenized, same⟩

end Token

end Krl

import Krl.Proofs.Token.Locality
import Krl.Proofs.Token.Order
import Krl.Proofs.Token.Shifts

/-!
# Tokens of a piece of a source

A piece of a source that begins where a token begins and ends where one ends has the tokens
that the source has there. Their offsets are smaller by that of the piece.
-/

namespace Krl

namespace Cursor

variable {base : Nat} {tail : List Char}

theorem advance_widen {cursor : Cursor} {count : Nat} (within : count ≤ cursor.rest.length) :
    (cursor.widen base tail).advance count = (cursor.advance count).widen base tail := by
  rw [advance, advance, widen, widen]
  simp only [List.take_append_of_le_length within, List.drop_append_of_le_length within]
  congr 1
  omega

/-- What ends before the text behind a piece ends in the piece. -/
theorem within_of_suffix {cursor : Cursor} {count : Nat}
    (le : count ≤ (cursor.widen base tail).rest.length)
    (behind : tail <:+ ((cursor.widen base tail).advance count).rest) :
    count ≤ cursor.rest.length := by
  have length := behind.length_le
  simp only [length_rest_advance, widen, List.length_append] at length le
  omega

theorem suffix_rest_of_advances {cursor final : Cursor}
    (advances : ∃ count, final = cursor.advance count) (behind : tail <:+ final.rest) :
    tail <:+ cursor.rest := by
  obtain ⟨count, rfl⟩ := advances
  exact behind.trans (List.drop_suffix count cursor.rest)

end Cursor

namespace Token

theorem closes_shift_iff {base : Nat} {token : Token} {depth : Nat} :
    Closes (token.shift base) depth ↔ Closes token depth :=
  and_congr_left' shift_eq_punct_iff

@[simp] theorem depthAfter_shift (base : Nat) (token : Token) (depth : Nat) :
    depthAfter (token.shift base) depth = depthAfter token depth := by
  cases token <;> rfl

variable {base : Nat} {tail : List Char}

/-- What begins in a piece begins with the same match there. -/
theorem longest?_widen {cursor : Cursor} {pattern : Pattern} {length : Nat}
    (longest : Pattern.longest? (cursor.widen base tail).rest = some (pattern, length))
    (behind : tail <:+ ((cursor.widen base tail).advance length).rest) :
    Pattern.longest? cursor.rest = some (pattern, length) ∧ length ≤ cursor.rest.length := by
  have within := Cursor.within_of_suffix (Pattern.longest?_bounds longest).2 behind
  exact ⟨Pattern.longest?_cut longest within, within⟩

theorem plain_read (token : PlainToken) (chars : List Char) (parts : List TemplatePart) :
    token.read chars ≠ .chevron parts := by
  cases token <;> nofun

theorem textPart_widen {cursor : Cursor}
    (same : Literal.template (cursor.widen base tail).rest = Literal.template cursor.rest)
    (place : textEnd (cursor.widen base tail) = (textEnd cursor).widen base tail) :
    textPart (cursor.widen base tail) = partsShift base (textPart cursor) := by
  rw [textPart, textPart, same, place, templateText, templateText]
  split <;> rfl

/-- A run of template text in a piece ends before a delimiter. -/
theorem textEnd_widen {cursor : Cursor} {first second : Char} {rest : List Char}
    (ends : (textEnd (cursor.widen base tail)).rest = first :: second :: rest)
    (behind : tail <:+ rest) :
    Literal.template (cursor.widen base tail).rest = Literal.template cursor.rest ∧
      textEnd (cursor.widen base tail) = (textEnd cursor).widen base tail ∧
      ∃ others, (textEnd cursor).rest = first :: second :: others ∧ rest = others ++ tail := by
  obtain ⟨others, rfl⟩ := behind
  have length := congrArg List.length ends
  simp only [Cursor.length_rest_advance, Cursor.widen, List.length_append,
    List.length_cons] at length
  have within : (Literal.template (cursor.rest ++ tail)).2 + 2 ≤ cursor.rest.length := by
    omega
  have same : Literal.template cursor.rest = Literal.template (cursor.rest ++ tail) :=
    Literal.template_cut rfl within
  have place : textEnd (cursor.widen base tail) = (textEnd cursor).widen base tail := by
    show (cursor.widen base tail).advance (Literal.template (cursor.rest ++ tail)).2 = _
    rw [← same] at within ⊢
    exact Cursor.advance_widen (Nat.le_of_add_right_le within)
  refine ⟨same.symm, place, others, ?_, rfl⟩
  rw [place] at ends
  exact List.append_cancel_right (ends : (textEnd cursor).rest ++ tail = (_ :: _ :: others) ++ tail)

mutual

/-- A token that ends in a piece of a source is read in the piece as well. The induction is
on the reading. -/
theorem Reads.cut (base : Nat) (tail : List Char) {wide next : Cursor} {lexeme : Lexeme} :
    Reads wide lexeme next → ∀ cursor : Cursor, wide = cursor.widen base tail →
      tail <:+ next.rest → ∃ lexeme' next', Reads cursor lexeme' next' ∧
        next = next'.widen base tail ∧ lexeme = lexeme'.shift base
  | @Reads.plain _ token length longest, cursor, here, behind => by
      subst here
      obtain ⟨longest, within⟩ := longest?_widen longest behind
      have place : (cursor.widen base tail).advance length = _ := Cursor.advance_widen within
      refine ⟨_, _, .plain longest, place, ?_⟩
      rw [show (cursor.widen base tail).rest = cursor.rest ++ tail from rfl,
        List.take_append_of_le_length within, place, Lexeme.shift, shift_plain (plain_read _ _)]
      rfl
  | .blockComment longest closed, cursor, here, behind => by
      subst here
      have opened := longest?_widen longest (Cursor.suffix_rest_of_advances ⟨_, rfl⟩ behind)
      rw [Cursor.advance_widen opened.2] at closed behind ⊢
      have within := Cursor.within_of_suffix (Literal.comment?_le closed) behind
      rw [Cursor.advance_widen within]
      exact ⟨_, _, .blockComment opened.1 (Literal.comment?_cut closed within), rfl, rfl⟩
  | .string longest closed, cursor, here, behind => by
      subst here
      have opened := longest?_widen longest (Cursor.suffix_rest_of_advances ⟨_, rfl⟩ behind)
      rw [Cursor.advance_widen opened.2] at closed behind ⊢
      have within := Cursor.within_of_suffix (Literal.string?_le closed) behind
      rw [Cursor.advance_widen within]
      exact ⟨_, _, .string opened.1 (Literal.string?_cut closed within), rfl, rfl⟩
  | @Reads.regexp _ _ _ length more longest closed letters, cursor, here, behind => by
      subst here
      have opened := longest?_widen longest (Cursor.suffix_rest_of_advances ⟨_, rfl⟩ behind)
      rw [Cursor.advance_widen opened.2] at closed behind letters ⊢
      subst letters
      have body := Literal.regexp?_le closed
      have letters := Pattern.run_le isLetter
        (((cursor.advance length).widen base tail).rest.drop more)
      rw [List.length_drop] at letters
      have within := Cursor.within_of_suffix (Nat.add_le_of_le_sub' body letters) behind
      have inside := Nat.le_of_add_right_le within
      have flags : (((cursor.advance length).widen base tail).rest.drop more).takeWhile isLetter =
          ((cursor.advance length).rest.drop more).takeWhile isLetter := by
        rw [Cursor.widen, List.drop_append_of_le_length inside] at within ⊢
        refine (Pattern.takeWhile_of_local isLetter ?_).symm
        rw [List.length_drop]
        exact Nat.le_sub_of_add_le' within
      rw [Pattern.run, flags] at within
      rw [flags, Cursor.advance_widen within]
      exact ⟨_, _, .regexp opened.1 (Literal.regexp?_cut closed inside) rfl, rfl, rfl⟩
  | .chevron longest inside, cursor, here, behind => by
      have cut := inside.cut base tail
      subst here
      have opened := longest?_widen longest (Cursor.suffix_rest_of_advances inside.advances behind)
      obtain ⟨parts, next', reads, rfl, rfl⟩ :=
        cut _ (Cursor.advance_widen opened.2) behind
      exact ⟨_, _, .chevron opened.1 reads, rfl, rfl⟩

theorem ReadsParts.cut (base : Nat) (tail : List Char) {wide next : Cursor}
    {parts : List TemplatePart} :
    ReadsParts wide parts next → ∀ cursor : Cursor, wide = cursor.widen base tail →
      tail <:+ next.rest → ∃ parts' next', ReadsParts cursor parts' next' ∧
        next = next'.widen base tail ∧ parts = partsShift base parts'
  | .close ends, cursor, here, behind => by
      subst here
      rw [Cursor.advance, ends] at behind
      obtain ⟨same, place, others, ends', rfl⟩ := textEnd_widen ends behind
      rw [place, Cursor.advance_widen (by rw [ends']; simp)]
      exact ⟨_, _, .close ends', rfl, textPart_widen same place⟩
  | .interpolation opens body more, cursor, here, behind => by
      have cutBody := body.cut base tail
      have cutMore := more.cut base tail
      subst here
      have inside := Cursor.suffix_rest_of_advances more.advances behind
      have onward := Cursor.suffix_rest_of_advances body.advances inside
      rw [Cursor.advance, opens] at onward
      obtain ⟨same, place, others, opens', rfl⟩ := textEnd_widen opens onward
      have start : (textEnd (cursor.widen base tail)).advance 2 =
          ((textEnd cursor).advance 2).widen base tail := by
        rw [place, Cursor.advance_widen (by rw [opens']; simp)]
      obtain ⟨tokens, close, middle, body', rfl, rfl, rfl⟩ := cutBody _ start inside
      obtain ⟨parts, next', more', rfl, rfl⟩ := cutMore _ rfl behind
      refine ⟨_, _, .interpolation opens' body' more', rfl, ?_⟩
      rw [textPart_widen same place, place, partsShift_append, partsShift, lexemesShift_eq]
      rfl

theorem ReadsBody.cut (base : Nat) (tail : List Char) {depth : Nat} {wide next : Cursor}
    {tokens : List Lexeme} {close : Nat} :
    ReadsBody depth wide tokens close next → ∀ cursor : Cursor, wide = cursor.widen base tail →
      tail <:+ next.rest → ∃ tokens' close' next', ReadsBody depth cursor tokens' close' next' ∧
        next = next'.widen base tail ∧ tokens = tokens'.map (Lexeme.shift base) ∧
          close = close' + base
  | .close last, cursor, here, behind => by
      obtain ⟨⟨token, start, stop⟩, next', reads, rfl, same⟩ := last.cut base tail _ here behind
      obtain ⟨brace, rfl, -⟩ := Lexeme.mk.inj same
      obtain rfl := shift_eq_punct_iff.mp brace.symm
      exact ⟨[], start, next', .close reads, rfl, rfl, rfl⟩
  | .inner first stays more, cursor, here, behind => by
      have cutFirst := first.cut base tail
      have cutMore := more.cut base tail
      have inside := Cursor.suffix_rest_of_advances more.advances behind
      obtain ⟨lexeme, middle, first', rfl, rfl⟩ := cutFirst _ here inside
      obtain ⟨tokens, close, next', more', rfl, rfl, rfl⟩ := cutMore _ rfl behind
      rw [Lexeme.shift, depthAfter_shift] at more'
      exact ⟨_, close, next', .inner first' (closes_shift_iff.not.mp stays) more', rfl, rfl, rfl⟩

end

/-- All tokens up to a place in a piece of a source are read in the piece as well. -/
theorem ReadsAll.cut {wide final : Cursor} {lexemes : List Lexeme}
    (reads : ReadsAll wide lexemes final) {cursor : Cursor} (here : wide = cursor.widen base tail)
    (behind : tail <:+ final.rest) :
    ∃ lexemes' final', ReadsAll cursor lexemes' final' ∧ final = final'.widen base tail ∧
      lexemes = lexemes'.map (Lexeme.shift base) := by
  induction reads generalizing cursor with
  | nil => exact ⟨[], cursor, .nil, here, rfl⟩
  | cons first rest ih =>
      have inside := Cursor.suffix_rest_of_advances rest.advances behind
      obtain ⟨lexeme, middle, first', rfl, rfl⟩ := first.cut base tail _ here inside
      obtain ⟨lexemes', final', rest', rfl, rfl⟩ := ih rfl behind
      exact ⟨_, final', .cons first' rest', rfl, rfl⟩

theorem ReadsAll.split {cursor final : Cursor} (before : List Lexeme) {behind : List Lexeme}
    (reads : ReadsAll cursor (before ++ behind) final) :
    ∃ middle, ReadsAll cursor before middle ∧ ReadsAll middle behind final := by
  induction before generalizing cursor with
  | nil => exact ⟨cursor, .nil, reads⟩
  | cons lexeme before ih =>
      cases reads with
      | cons first rest =>
          obtain ⟨middle, earlier, later⟩ := ih rest
          exact ⟨middle, .cons first earlier, later⟩

theorem ReadsAll.append {cursor middle final : Cursor} {before behind : List Lexeme}
    (first : ReadsAll cursor before middle) (rest : ReadsAll middle behind final) :
    ReadsAll cursor (before ++ behind) final := by
  induction first with
  | nil => exact rest
  | cons first _ ih => exact .cons first (ih rest)

theorem ReadsAll.start_eq {cursor final : Cursor} {first : Lexeme} {others : List Lexeme}
    (reads : ReadsAll cursor (first :: others) final) : first.start = cursor.offset := by
  cases reads with
  | cons first _ => exact first.orderly.1

theorem ReadsAll.stop_eq {cursor final : Cursor} {before : List Lexeme} {last : Lexeme}
    (reads : ReadsAll cursor (before ++ [last]) final) : last.stop = final.offset := by
  obtain ⟨middle, _, reads⟩ := reads.split before
  cases reads with
  | cons last done =>
      cases done
      exact last.orderly.2.1

end Token

namespace Text

/-- The bytes of a text are one more than some number, as the cuts of a text count them, and
without its first character those of the others are left. -/
theorem exists_byteLength_cons (first : Char) (others : List Char) :
    ∃ count, byteLength (first :: others) = count + 1 ∧ first.utf8Size ≤ count + 1 ∧
      count + 1 - first.utf8Size = byteLength others := by
  have positive := first.utf8Size_pos
  have whole := byteLength_cons first others
  exact ⟨byteLength (first :: others) - 1, by omega, by omega, by omega⟩

theorem dropBytes?_byteLength (taken left : List Char) :
    dropBytes? (byteLength taken) (taken ++ left) = some left := by
  induction taken with
  | nil => rw [byteLength_nil, List.nil_append, dropBytes?]
  | cons first others ih =>
      obtain ⟨count, same, fits, rest⟩ := exists_byteLength_cons first others
      rw [same, List.cons_append, dropBytes?, if_pos fits, rest, ih]

theorem takeBytes?_byteLength (taken left : List Char) :
    takeBytes? (byteLength taken) (taken ++ left) = some taken := by
  induction taken with
  | nil => rw [byteLength_nil, takeBytes?]
  | cons first others ih =>
      obtain ⟨count, same, fits, rest⟩ := exists_byteLength_cons first others
      rw [same, List.cons_append, takeBytes?, if_pos fits, rest, ih, Option.map_some]

end Text

/-- A place in a source. -/
def Cursor.In (source : String) (cursor : Cursor) : Prop :=
  ∃ count, cursor = Cursor.advance ⟨0, source.toList⟩ count

namespace Cursor.In

variable {source : String} {cursor : Cursor}

theorem advance (inside : cursor.In source) (count : Nat) : (cursor.advance count).In source := by
  obtain ⟨before, rfl⟩ := inside
  exact ⟨_, Cursor.advance_advance ..⟩

theorem slice?_eq (inside : cursor.In source) (count : Nat) :
    Span.slice? source ⟨cursor.offset, (cursor.advance count).offset⟩ =
      some (String.ofList (cursor.rest.take count)) := by
  obtain ⟨before, rfl⟩ := inside
  have start : Text.dropBytes? (Text.byteLength (source.toList.take before)) source.toList =
      some (source.toList.drop before) := by
    conv => enter [1, 2]; rw [← List.take_append_drop before source.toList]
    exact Text.dropBytes?_byteLength _ _
  have stop : Text.takeBytes? (Text.byteLength ((source.toList.drop before).take count))
      (source.toList.drop before) = some ((source.toList.drop before).take count) := by
    conv => enter [1, 2]; rw [← List.take_append_drop count (source.toList.drop before)]
    exact Text.takeBytes?_byteLength _ _
  rw [Span.slice?, if_pos (Cursor.le_offset_advance _ _)]
  simp only [Cursor.advance, Span.length, Nat.zero_add, Nat.add_sub_cancel_left, start, stop,
    Option.bind_eq_bind, Option.bind_some, Option.pure_def]

end Cursor.In

/-- Tokens other than trivia, together with the trivia between them. -/
theorem exists_between {lexemes before piece behind : List Lexeme}
    (split : significant lexemes = before ++ piece ++ behind) {first last : Lexeme}
    (opens : piece.head? = some first) (closes : piece.getLast? = some last) :
    ∃ earlier others inner later, lexemes = earlier ++ (first :: others ++ later) ∧
      first :: others = inner ++ [last] ∧ significant (first :: others) = piece := by
  obtain ⟨front, later, rfl, split, -⟩ := List.filter_eq_append_iff.mp split
  obtain ⟨earlier, middle, rfl, -, whole⟩ := List.filter_eq_append_iff.mp split
  obtain ⟨tail, same⟩ := List.head?_eq_some_iff.mp opens
  obtain ⟨skipped, others, rfl, none_, seen, -⟩ := List.filter_eq_cons_iff.mp (whole.trans same)
  have trimmed : significant (first :: others) = piece := by
    rw [List.filter_append, List.filter_eq_nil_iff.mpr none_] at whole
    exact whole
  obtain ⟨body, same⟩ := List.getLast?_eq_some_iff.mp closes
  obtain ⟨left, right, ends, inBody, atLast⟩ :=
    List.filter_eq_append_iff.mp (trimmed.trans same)
  obtain ⟨between, behindLast, rfl, none_, seenLast, -⟩ := List.filter_eq_cons_iff.mp atLast
  have opened : ∃ others', left ++ between ++ [last] = first :: others' := by
    rw [← List.append_assoc] at ends
    cases inner : left ++ between with
    | nil =>
        rw [inner] at ends
        exact ⟨[], congrArg (fun lexeme => [lexeme]) (List.cons.inj ends).1.symm⟩
    | cons head others' =>
        rw [inner] at ends
        exact ⟨others' ++ [last], by rw [(List.cons.inj ends).1]; rfl⟩
  obtain ⟨others', opened⟩ := opened
  refine ⟨earlier ++ skipped, others', left ++ between, behindLast ++ later, ?_, opened.symm, ?_⟩
  · rw [← opened, ends]
    simp
  · rw [← opened, significant, List.filter_append, List.filter_append, inBody,
      List.filter_eq_nil_iff.mpr none_, List.append_nil, same]
    exact congrArg (body ++ ·) (List.filter_cons_of_pos seenLast)

/-- The bytes over which tokens are read are a text with these tokens, whose offsets count
from its beginning. -/
theorem Token.ReadsAll.exists_text {source : String} {cursor final : Cursor}
    {lexemes : List Lexeme} (reads : Token.ReadsAll cursor lexemes final)
    (inside : cursor.In source) :
    ∃ text lexemes', Span.slice? source ⟨cursor.offset, final.offset⟩ = some text ∧
      final.offset = cursor.offset + Text.byteLength text.toList ∧
      Token.tokenize text = .ok lexemes' ∧ lexemes = lexemes'.map (Lexeme.shift cursor.offset) := by
  obtain ⟨length, rfl⟩ := reads.advances
  have here : cursor =
      Cursor.widen cursor.offset (cursor.advance length).rest ⟨0, cursor.rest.take length⟩ := by
    rw [Cursor.widen, Cursor.advance, Nat.zero_add]
    simp only [List.take_append_drop]
  obtain ⟨lexemes', final', reads', atEnd, shifted⟩ := reads.cut here (List.suffix_refl _)
  have done : final'.rest = [] := by
    have rest : (cursor.advance length).rest = final'.rest ++ (cursor.advance length).rest :=
      congrArg Cursor.rest atEnd
    simpa using rest
  refine ⟨String.ofList (cursor.rest.take length), lexemes', inside.slice?_eq length, ?_, ?_,
    shifted⟩
  · rw [String.toList_ofList]
    rfl
  · rw [Token.tokenize_eq_ok_iff, String.toList_ofList]
    exact ⟨final', reads', done⟩

/-- The bytes from the first of some tokens read in a row to the last of them are a text that
has these tokens. -/
theorem exists_run {source : String} {cursor final : Cursor} (inside : cursor.In source)
    {earlier later others inner : List Lexeme} {first last : Lexeme}
    (reads : Token.ReadsAll cursor (earlier ++ (first :: others ++ later)) final)
    (ends : first :: others = inner ++ [last]) :
    ∃ text lexemes', Span.slice? source ⟨first.start, last.stop⟩ = some text ∧
      Token.tokenize text = .ok lexemes' ∧
      first :: others = lexemes'.map (Lexeme.shift first.start) := by
  obtain ⟨start, toStart, reads⟩ := reads.split earlier
  obtain ⟨stop, across, _⟩ := reads.split (first :: others)
  have starts := across.start_eq
  have stops : last.stop = stop.offset := (ends ▸ across).stop_eq
  obtain ⟨count, rfl⟩ := toStart.advances
  obtain ⟨text, lexemes', slice, _, tokenized, shifted⟩ :=
    across.exists_text (inside.advance count)
  rw [← starts, ← stops] at slice
  rw [← starts] at shifted
  exact ⟨text, lexemes', slice, tokenized, shifted⟩

/-- The bytes from one token to another are a text whose tokens are those between. -/
theorem exists_piece {source : String} {cursor final : Cursor} {lexemes : List Lexeme}
    (inside : cursor.In source) (reads : Token.ReadsAll cursor lexemes final)
    {before piece behind : List Lexeme} (split : significant lexemes = before ++ piece ++ behind)
    {first last : Lexeme} (opens : piece.head? = some first) (closes : piece.getLast? = some last) :
    ∃ text lexemes', Span.slice? source ⟨first.start, last.stop⟩ = some text ∧
      Token.tokenize text = .ok lexemes' ∧
      piece = (significant lexemes').map (Lexeme.shift first.start) := by
  obtain ⟨earlier, others, inner, later, rfl, ends, rfl⟩ := exists_between split opens closes
  obtain ⟨text, lexemes', slice, tokenized, shifted⟩ := exists_run inside reads ends
  exact ⟨text, lexemes', slice, tokenized, by rw [shifted, significant_map_shift]⟩

end Krl

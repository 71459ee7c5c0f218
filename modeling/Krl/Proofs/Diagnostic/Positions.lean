import Krl.Diagnostic.Position
import Krl.Proofs.Diagnostic.Lines
import Krl.Proofs.Token.Boundaries
import Mathlib.Data.List.Basic
import Mathlib.Data.Prod.Lex

/-!
# Positions and byte offsets

The boundaries between the characters of a source and the positions in its lines stand for each
other one to one, and in order. The offset of a position is got back by adding up the lines before
it and the characters before it in its line.
-/

namespace Krl

theorem Text.takeBytes?_eq_some_iff {count : Nat} {chars taken : List Char} :
    takeBytes? count chars = some taken ↔
      ∃ left, chars = taken ++ left ∧ byteLength taken = count := by
  constructor
  · intro isTaken
    fun_induction takeBytes? count chars generalizing taken with
    | case1 chars =>
        cases isTaken
        exact ⟨chars, rfl, rfl⟩
    | case2 => cases isTaken
    | case3 count char rest fits ih =>
        obtain ⟨tail, isTail, rfl⟩ := Option.map_eq_some_iff.mp isTaken
        obtain ⟨left, same, length⟩ := ih isTail
        refine ⟨left, by rw [same, List.cons_append], ?_⟩
        rw [byteLength_cons, length]
        exact Nat.add_sub_cancel' fits
    | case4 => cases isTaken
  · rintro ⟨left, rfl, rfl⟩
    exact takeBytes?_byteLength taken left

namespace Position

/-- A line of a source, counted from one. -/
def lineOf (source : String) (number : Nat) : List Char :=
  (source.toList.splitOn '\n').getD (number - 1) []

/-- The offset at which a line of a source begins: the lines before it, each with its newline, take
so many bytes. -/
def lineStart (source : String) (number : Nat) : Nat :=
  Text.byteLength (Text.ended ((source.toList.splitOn '\n').take (number - 1)))

/-- The offset of a position: so many bytes do the lines before it and the characters before it in
its line take. -/
def offsetIn (source : String) (position : Position) : Nat :=
  lineStart source position.line +
    Text.byteLength ((lineOf source position.line).take (position.column - 1))

/-- The line is one of the source, and the column that of one of its characters or the one behind
the last. -/
structure In (source : String) (position : Position) : Prop where
  line_pos : 1 ≤ position.line
  line_le : position.line ≤ (source.toList.splitOn '\n').length
  column_pos : 1 ≤ position.column
  column_le : position.column ≤ (lineOf source position.line).length + 1

section After

variable {before last : List Char} {others : List (List Char)}

theorem takeWhile_reverse_ended (parts : List (List Char)) :
    (Text.ended parts).reverse.takeWhile (· != '\n') = [] := by
  rcases List.eq_nil_or_concat' parts with rfl | ⟨others, last, rfl⟩
  · rfl
  · rw [Text.ended, List.flatMap_append, List.flatMap_singleton, List.reverse_append,
      List.reverse_append]
    rfl

/-- The position behind a text is told by its lines. -/
theorem after_eq (split : Text.lines before = others ++ [last]) :
    after before = ⟨others.length + 1, last.length + 1⟩ := by
  have count : before.count '\n' = others.length := by
    have lengths := Text.length_lines before
    rw [split, List.length_append, List.length_singleton] at lengths
    exact (Nat.add_right_cancel lengths).symm
  have bare : '\n' ∉ last :=
    Text.not_mem_lines before last (split ▸ List.mem_append_right _ List.mem_cons_self)
  have column : before.reverse.takeWhile (· != '\n') = last.reverse := by
    rw [Text.eq_ended_append split, List.reverse_append, List.takeWhile_append_of_pos,
      takeWhile_reverse_ended, List.append_nil]
    intro char member
    rw [bne_iff_ne]
    rintro rfl
    exact bare (List.mem_reverse.mp member)
  rw [after, count, column, List.length_reverse]

/-- Going on in a text leads to a later position. -/
theorem after_lt_append {more : List Char} (some_ : more ≠ []) :
    toLex ((after before).line, (after before).column) <
      toLex ((after (before ++ more)).line, (after (before ++ more)).column) := by
  obtain ⟨others, last, ends⟩ := Text.exists_lines_concat before
  obtain ⟨first, behind, begins⟩ := List.exists_cons_of_ne_nil (Text.lines_ne_nil more)
  have whole := Text.lines_append ends begins
  rw [after_eq ends, Prod.Lex.toLex_lt_toLex]
  rcases List.eq_nil_or_concat' behind with rfl | ⟨middle, final, rfl⟩
  · rw [after_eq whole]
    have filled : first ≠ [] := by
      rintro rfl
      apply some_
      rw [← Text.unlines_lines more, begins, Text.unlines_cons, List.flatMap_nil, List.append_nil]
    have longer := List.length_pos_iff.mpr filled
    refine .inr ⟨rfl, ?_⟩
    show last.length + 1 < (last ++ first).length + 1
    rw [List.length_append]
    omega
  · rw [← List.cons_append, ← List.append_assoc] at whole
    rw [after_eq whole]
    refine .inl ?_
    show others.length + 1 < (others ++ (last ++ first) :: middle).length + 1
    rw [List.length_append, List.length_cons]
    omega

end After

variable {source : String} {offset offset' : Nat} {position position' : Position}

theorem ofOffset?_eq_some_iff_after : ofOffset? source offset = some position ↔
    ∃ before behind, source.toList = before ++ behind ∧ Text.byteLength before = offset ∧
      after before = position := by
  rw [ofOffset?, Option.map_eq_some_iff]
  simp only [Text.takeBytes?_eq_some_iff]
  constructor
  · rintro ⟨before, ⟨behind, same, length⟩, at_⟩
    exact ⟨before, behind, same, length, at_⟩
  · rintro ⟨before, behind, same, length, at_⟩
    exact ⟨before, ⟨behind, same, length⟩, at_⟩

theorem exists_ofOffset?_iff :
    (∃ position, ofOffset? source offset = some position) ↔ IsBoundary source offset := by
  simp only [ofOffset?_eq_some_iff_after]
  constructor
  · rintro ⟨_, before, behind, same, length, _⟩
    exact ⟨before, behind, same, length⟩
  · rintro ⟨before, behind, same, length⟩
    exact ⟨_, before, behind, same, length, rfl⟩

/-- What the lines of a source are up to one of them. -/
theorem lineStart_lineOf {before behind : List (List Char)} {line : List Char}
    (split : Text.lines source.toList = before ++ line :: behind) :
    lineOf source (before.length + 1) = line ∧
      lineStart source (before.length + 1) = Text.byteLength (Text.ended before) := by
  rw [lineOf, lineStart, ← Text.lines_eq_splitOn, split, Nat.add_sub_cancel, List.take_left]
  refine ⟨?_, rfl⟩
  rw [List.getD_eq_getElem?_getD, List.getElem?_append_right (Nat.le_refl _), Nat.sub_self]
  rfl

/-- A byte offset has a position just if it is the offset of that position. -/
theorem ofOffset?_eq_some_iff :
    ofOffset? source offset = some position ↔
      position.In source ∧ position.offsetIn source = offset := by
  rw [ofOffset?_eq_some_iff_after]
  constructor
  · rintro ⟨before, behind, same, rfl, rfl⟩
    obtain ⟨others, last, ends⟩ := Text.exists_lines_concat before
    obtain ⟨first, rest, begins⟩ := List.exists_cons_of_ne_nil (Text.lines_ne_nil behind)
    have split := Text.lines_append ends begins
    rw [← same] at split
    obtain ⟨here, starts⟩ := lineStart_lineOf split
    rw [after_eq ends]
    refine ⟨⟨Nat.le_add_left 1 _, ?_, Nat.le_add_left 1 _, ?_⟩, ?_⟩
    · show others.length + 1 ≤ _
      rw [← Text.lines_eq_splitOn, split, List.length_append, List.length_cons]
      omega
    · show last.length + 1 ≤ (lineOf source (others.length + 1)).length + 1
      rw [here, List.length_append]
      omega
    · rw [offsetIn, here, starts, Nat.add_sub_cancel, List.take_left, ← Text.byteLength_append,
        ← Text.eq_ended_append ends]
  · rintro ⟨⟨linePos, lineLe, columnPos, columnLe⟩, rfl⟩
    obtain ⟨line, column⟩ := position
    obtain ⟨number, rfl⟩ := Nat.exists_eq_add_of_le' linePos
    obtain ⟨count, rfl⟩ := Nat.exists_eq_add_of_le' columnPos
    rw [← Text.lines_eq_splitOn] at lineLe
    have split := (List.take_append_drop number (Text.lines source.toList)).symm
    rw [List.drop_eq_getElem_cons lineLe] at split
    have length : ((Text.lines source.toList).take number).length = number :=
      List.length_take_of_le (Nat.le_of_lt lineLe)
    obtain ⟨here, starts⟩ := lineStart_lineOf split
    obtain ⟨rest, same, upTo⟩ := Text.exists_cut split count
    rw [length] at here starts
    rw [here] at columnLe
    refine ⟨_, rest, same, ?_, ?_⟩
    · rw [offsetIn, here, starts, Nat.add_sub_cancel, ← Text.byteLength_append]
    · rw [after_eq upTo, length, List.length_take_of_le (Nat.le_of_add_le_add_right columnLe)]

/-- The later of two offsets has the later position. -/
theorem lt_of_ofOffset? (first : ofOffset? source offset = some position)
    (second : ofOffset? source offset' = some position') (later : offset < offset') :
    toLex (position.line, position.column) < toLex (position'.line, position'.column) := by
  obtain ⟨before, behind, same, rfl, rfl⟩ := ofOffset?_eq_some_iff_after.mp first
  obtain ⟨before', behind', same', rfl, rfl⟩ := ofOffset?_eq_some_iff_after.mp second
  rcases List.append_eq_append_iff.mp (same.symm.trans same') with
    ⟨more, rfl, _⟩ | ⟨more, rfl, _⟩
  · refine after_lt_append ?_
    rintro rfl
    rw [List.append_nil] at later
    exact absurd later (Nat.lt_irrefl _)
  · rw [Text.byteLength_append] at later
    omega

/-- Positions and boundaries are one to one, and in the same order. A byte offset has a position
just if it is a boundary; the positions of the boundaries are all those that the lines of the source
have, and each offset is got back from its position; and of two boundaries the later one has the
later position, by lines first and then by columns. -/
theorem boundaries_correspond (source : String) :
    (∀ offset, (∃ position, ofOffset? source offset = some position) ↔
      IsBoundary source offset ∧ offset ≤ Text.byteLength source.toList) ∧
    (∀ offset position, ofOffset? source offset = some position ↔
      position.In source ∧ position.offsetIn source = offset) ∧
    ∀ offset offset' position position', ofOffset? source offset = some position →
      ofOffset? source offset' = some position' →
      (offset < offset' ↔
        toLex (position.line, position.column) < toLex (position'.line, position'.column)) := by
  refine ⟨fun offset => ?_, fun offset position => ofOffset?_eq_some_iff, ?_⟩
  · rw [exists_ofOffset?_iff]
    exact ⟨fun boundary => ⟨boundary, boundary.le⟩, And.left⟩
  · intro offset offset' position position' first second
    refine ⟨lt_of_ofOffset? first second, fun later => ?_⟩
    by_contra notLater
    rcases Nat.eq_or_lt_of_le (Nat.not_lt.mp notLater) with rfl | earlier
    · rw [first] at second
      cases second
      exact absurd later (lt_irrefl _)
    · exact absurd later (lt_asymm (lt_of_ofOffset? second first earlier))

end Position

end Krl

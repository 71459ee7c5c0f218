import Krl.Diagnostic.Excerpt
import Krl.Proofs.Diagnostic.Positions
import Mathlib.Data.List.Intervals

/-!
# What an excerpt shows

An excerpt prints the lines of a source around one of them, and points at a column of that line.
When line and column are those of an offset, it points at the character there, unless that is one
of those that end a line and are not printed.
-/

namespace Krl.Excerpt

/-- A line as it is printed: one carriage return at its end is left out. -/
def Prints (line printed : List Char) : Prop :=
  line = printed ++ ['\r'] ∨ line = printed ∧ ∀ rest, line ≠ rest ++ ['\r']

/-- The line asked for, or the nearest one that the source has. -/
def target (source : String) (line : Nat) : Nat :=
  max 1 (min line (source.toList.splitOn '\n').length)

/-- The text is made up of the lines from `context` lines before the target to `context` lines
behind it, as far as the source has them, with a caret in a line of its own behind the target. -/
structure Shows (source : String) (line column context : Nat) (printed : Nat → List Char)
    (text : String) : Prop where
  prints : ∀ number ∈ List.Ico 1 ((source.toList.splitOn '\n').length + 1),
    Prints (Position.lineOf source number) (printed number)
  text_eq : text.toList = ['\n'].intercalate
    ((List.Ico (max 1 (target source line - context)) (target source line + 1)).map printed ++
      (List.replicate (column - 1) ' ' ++ ['^']) ::
        (List.Ico (target source line + 1)
          (min (target source line + context) (source.toList.splitOn '\n').length + 1)).map printed)

/-- The offset lies in the line with the caret, and the character there is printed above the
caret, except for the newline or the carriage return that ends the line. -/
structure PointsAt (source : String) (line column : Nat) (printed : Nat → List Char)
    (offset : Nat) : Prop where
  target_eq : target source line = line
  start_le : Position.lineStart source line ≤ offset
  le_stop : offset ≤ Position.lineStart source line +
    Text.byteLength (Position.lineOf source line)
  above : ∀ before char behind, source.toList = before ++ char :: behind →
    Text.byteLength before = offset → char ≠ '\n' →
    ¬(char = '\r' ∧ ∀ next ∈ behind.head?, next = '\n') →
    (printed line)[column - 1]? = some char

section Printing

/-- A line of the source as the excerpt prints it. -/
def printedLine (source : String) (number : Nat) : List Char :=
  (sourceLines source).getD (number - 1) []

theorem length_sourceLines (source : String) :
    (sourceLines source).length = (source.toList.splitOn '\n').length := by
  rw [sourceLines, List.length_map, Text.lines_eq_splitOn]

theorem sourceLines_pos (source : String) : 0 < (sourceLines source).length := by
  rw [length_sourceLines, ← Text.lines_eq_splitOn]
  exact List.length_pos_iff.mpr (Text.lines_ne_nil _)

theorem prints_printedLine {source : String} {number : Nat} (pos : 1 ≤ number)
    (le : number ≤ (source.toList.splitOn '\n').length) :
    Prints (Position.lineOf source number) (printedLine source number) := by
  have inside : number - 1 < (Text.lines source.toList).length := by
    rw [Text.lines_eq_splitOn]
    omega
  rw [Position.lineOf, printedLine, sourceLines, ← Text.lines_eq_splitOn,
    List.getD_eq_getElem?_getD, List.getD_eq_getElem?_getD, List.getElem?_map,
    List.getElem?_eq_getElem inside, Option.map_some, Option.getD_some, Option.getD_some]
  generalize (Text.lines source.toList)[number - 1] = line
  split
  next ends =>
    exact .inl (List.dropLast_append_getLast? '\r' ends).symm
  next ends =>
    refine .inr ⟨rfl, ?_⟩
    rintro rest rfl
    exact ends List.getLast?_concat

/-- Lines that stand together are those with consecutive numbers. -/
theorem take_drop_eq_map (source : String) {start stop : Nat} (ordered : start ≤ stop)
    (inside : stop ≤ (sourceLines source).length) :
    ((sourceLines source).drop start).take (stop - start) =
      (List.Ico (start + 1) (stop + 1)).map (printedLine source) := by
  have lengths : (((sourceLines source).drop start).take (stop - start)).length = stop - start := by
    rw [List.length_take, List.length_drop]
    omega
  refine List.ext_getElem ?_ fun index below _ => ?_
  · rw [lengths, List.length_map, List.Ico.length]
    omega
  · rw [lengths] at below
    have found : start + index < (sourceLines source).length := by omega
    have number : start + 1 + index - 1 = start + index := by omega
    simp only [List.getElem_take, List.getElem_drop, List.getElem_map, List.Ico,
      List.getElem_range', printedLine, Nat.one_mul, number]
    exact List.getElem_eq_getD []

end Printing

/-- The bounds of a window are in order, and inside the text. -/
theorem window_ordered {count : Nat} (some_ : 0 < count) (line context : Nat) :
    (window count line context).first ≤ (window count line context).target ∧
      (window count line context).target ≤ (window count line context).last ∧
      (window count line context).last < count := by
  simp only [window, reach, targetLine]
  omega

theorem shows_excerpt (source : String) (line column context : Nat) :
    Shows source line column context (printedLine source) (excerpt source line column context) := by
  refine ⟨fun number member => ?_, ?_⟩
  · rw [List.Ico.mem] at member
    exact prints_printedLine member.1 (Nat.le_of_lt_succ member.2)
  · have some_ := sourceLines_pos source
    obtain ⟨first, last, inside⟩ := window_ordered some_ line context
    -- The lines of a window are counted from zero, those of a source from one.
    have target_eq : target source line =
        (window (sourceLines source).length line context).target + 1 := by
      simp only [target, window, targetLine, ← length_sourceLines]
      omega
    have first_eq : max 1 (target source line - context) =
        (window (sourceLines source).length line context).first + 1 := by
      rw [target_eq]
      simp only [window]
      omega
    have last_eq : min (target source line + context) (source.toList.splitOn '\n').length =
        (window (sourceLines source).length line context).last + 1 := by
      rw [target_eq, ← length_sourceLines]
      simp only [window, reach]
      omega
    have above := take_drop_eq_map source (Nat.le_succ_of_le first) (Nat.lt_of_le_of_lt last inside)
    have below := take_drop_eq_map source (Nat.add_le_add_right last 1) inside
    rw [Nat.add_sub_add_right] at below
    rw [excerpt, String.toList_ofList, Text.unlines, shown, caret, above, below, first_eq, last_eq,
      target_eq]

/-- Every character of a line is printed, unless it is a carriage return at the end. -/
theorem Prints.getElem? {line printed front back : List Char} {char : Char}
    (prints : Prints line printed) (split : line = front ++ char :: back)
    (visible : ¬(char = '\r' ∧ back = [])) : printed[front.length]? = some char := by
  have found : (front ++ char :: back)[front.length]? = some char := by
    rw [List.getElem?_append_right (Nat.le_refl _), Nat.sub_self]
    rfl
  rcases prints with same | ⟨rfl, _⟩
  · rw [split] at same
    rcases List.eq_nil_or_concat' back with rfl | ⟨others, last, rfl⟩
    · exact absurd ⟨(List.append_inj' same rfl).2 |> List.singleton_inj.mp, rfl⟩ visible
    · rw [← List.cons_append, ← List.append_assoc] at same
      rw [← (List.append_inj' same rfl).1, List.getElem?_append_right (Nat.le_refl _), Nat.sub_self]
      rfl
  · rw [split, found]

variable {source : String} {line column offset : Nat}

/-- The caret stands under the character at an offset. -/
theorem pointsAt (here : Position.ofOffset? source offset = some ⟨line, column⟩) :
    PointsAt source line column (printedLine source) offset := by
  obtain ⟨⟨linePos, lineLe, columnPos, columnLe⟩, atOffset⟩ := Position.ofOffset?_eq_some_iff.mp here
  have taken : Text.byteLength ((Position.lineOf source line).take (column - 1)) ≤
      Text.byteLength (Position.lineOf source line) := by
    have whole := Text.byteLength_append ((Position.lineOf source line).take (column - 1))
      ((Position.lineOf source line).drop (column - 1))
    rw [List.take_append_drop] at whole
    exact whole ▸ Nat.le_add_right _ _
  rw [Position.offsetIn] at atOffset
  refine ⟨?_, atOffset ▸ Nat.le_add_right _ _, atOffset ▸ Nat.add_le_add_left taken _, ?_⟩
  · rw [target, Nat.min_eq_left lineLe, Nat.max_eq_right linePos]
  · intro before char behind same length notNewline visible
    have at_ : Position.ofOffset? source offset = some (Position.after before) :=
      Position.ofOffset?_eq_some_iff_after.mpr ⟨before, _, same, length, rfl⟩
    obtain ⟨others, last, ends⟩ := Text.exists_lines_concat before
    obtain ⟨first, rest, begins⟩ := List.exists_cons_of_ne_nil (Text.lines_ne_nil behind)
    have split := Text.lines_append ends (Text.lines_cons_of_ne notNewline begins)
    rw [← same] at split
    rw [here, Position.after_eq ends, Option.some.injEq, Position.mk.injEq] at at_
    obtain ⟨rfl, rfl⟩ := at_
    refine (prints_printedLine linePos lineLe).getElem? (Position.lineStart_lineOf split).1 ?_
    rintro ⟨return_, rfl⟩
    refine visible ⟨return_, fun next member => ?_⟩
    rw [← Text.unlines_lines behind, begins, Text.unlines_cons, List.nil_append] at member
    cases rest with
    | nil => cases member
    | cons second others =>
        cases member
        rfl

end Krl.Excerpt

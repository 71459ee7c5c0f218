import Krl.Text

/-!
# The lines of a text

A text and its lines determine each other. The lines before a place are those of the text up to
it, and the line at a place is made up of the last line before it and the first one behind it.
-/

namespace Krl.Text

theorem lines_eq_splitOn (chars : List Char) : lines chars = chars.splitOn '\n' := by
  induction chars with
  | nil => rfl
  | cons char rest ih =>
      rw [lines, List.splitOn, List.splitOnP_cons_eq_if_modifyHead, ih, List.splitOn]
      by_cases newline : char = '\n'
      · rw [if_pos newline, if_pos (beq_iff_eq.mpr newline)]
      · rw [if_neg newline, if_neg (by rwa [beq_iff_eq])]
        cases split : List.splitOnP (· == '\n') rest with
        | nil => exact absurd split (List.splitOnP_ne_nil _ _)
        | cons line others => rfl

/-- Nothing but the newlines between its lines is missing from them. -/
theorem unlines_lines (chars : List Char) : unlines (lines chars) = chars := by
  rw [unlines, lines_eq_splitOn, List.intercalate_splitOn]

theorem lines_unlines {parts : List (List Char)} (some_ : parts ≠ [])
    (bare : ∀ part ∈ parts, '\n' ∉ part) : lines (unlines parts) = parts := by
  rw [unlines, lines_eq_splitOn, List.splitOn_intercalate _ bare some_]

theorem lines_ne_nil (chars : List Char) : lines chars ≠ [] := by
  rw [lines_eq_splitOn]
  exact List.splitOnP_ne_nil _ _

theorem exists_lines_concat (chars : List Char) : ∃ others last, lines chars = others ++ [last] :=
  ⟨_, _, (List.dropLast_concat_getLast (lines_ne_nil chars)).symm⟩

/-- No newline stands in a line. -/
theorem not_mem_lines (chars : List Char) : ∀ line ∈ lines chars, '\n' ∉ line := by
  induction chars with
  | nil => exact List.forall_mem_singleton.mpr List.not_mem_nil
  | cons char rest ih =>
      rw [lines]
      split
      next => exact List.forall_mem_cons.mpr ⟨List.not_mem_nil, ih⟩
      next other =>
        split
        next empty => exact absurd empty (lines_ne_nil rest)
        next first others split =>
          rw [split, List.forall_mem_cons] at ih
          exact List.forall_mem_cons.mpr
            ⟨List.not_mem_cons_of_ne_of_not_mem (Ne.symm other) ih.1, ih.2⟩

theorem lines_cons_of_ne {char : Char} {rest first : List Char} {behind : List (List Char)}
    (other : char ≠ '\n') (begins : lines rest = first :: behind) :
    lines (char :: rest) = (char :: first) :: behind := by
  rw [lines, if_neg other, begins]

/-- The lines with a newline behind each of them. -/
def ended (parts : List (List Char)) : List Char :=
  parts.flatMap fun part => part ++ ['\n']

theorem unlines_cons (line : List Char) (others : List (List Char)) :
    unlines (line :: others) = line ++ others.flatMap fun part => '\n' :: part := by
  induction others generalizing line with
  | nil => rw [unlines, List.intercalate_singleton, List.flatMap_nil, List.append_nil]
  | cons second rest ih =>
      rw [unlines, List.intercalate_cons_cons, ← unlines, ih, List.flatMap_cons, List.append_assoc]
      rfl

theorem unlines_append_cons (before : List (List Char)) (line : List Char)
    (others : List (List Char)) :
    unlines (before ++ line :: others) = ended before ++ unlines (line :: others) := by
  induction before with
  | nil => rfl
  | cons first rest ih =>
      have next : unlines (first :: (rest ++ line :: others)) =
          first ++ ['\n'] ++ unlines (rest ++ line :: others) := by
        cases rest <;> exact List.intercalate_cons_cons
      rw [List.cons_append, next, ih, ended, ended, List.flatMap_cons, ← List.append_assoc]

theorem unlines_concat (before : List (List Char)) (last : List Char) :
    unlines (before ++ [last]) = ended before ++ last := by
  rw [unlines_append_cons, unlines_cons, List.flatMap_nil, List.append_nil]

/-- A line may be cut in two, the newlines behind it going with its second part. -/
theorem unlines_append_cons_append (before : List (List Char)) (left right : List Char)
    (behind : List (List Char)) :
    unlines (before ++ (left ++ right) :: behind) =
      ended before ++ left ++ unlines (right :: behind) := by
  rw [unlines_append_cons, unlines_cons, unlines_cons, List.append_assoc, List.append_assoc]

theorem eq_ended_append {chars last : List Char} {others : List (List Char)}
    (split : lines chars = others ++ [last]) : chars = ended others ++ last := by
  rw [← unlines_concat, ← split, unlines_lines]

/-- Where two texts meet, the last line of the first one goes on with the first line of the
second. -/
theorem lines_append {left right last first : List Char} {before behind : List (List Char)}
    (ends : lines left = before ++ [last]) (begins : lines right = first :: behind) :
    lines (left ++ right) = before ++ (last ++ first) :: behind := by
  have whole : left ++ right = unlines (before ++ (last ++ first) :: behind) := by
    rw [unlines_append_cons_append, ← eq_ended_append ends, ← begins, unlines_lines]
  have bareLeft := not_mem_lines left
  have bareRight := not_mem_lines right
  rw [ends, List.forall_mem_append, List.forall_mem_singleton] at bareLeft
  rw [begins, List.forall_mem_cons] at bareRight
  have bareMiddle : '\n' ∉ last ++ first := by
    rw [List.mem_append, not_or]
    exact ⟨bareLeft.2, bareRight.1⟩
  rw [whole]
  exact lines_unlines (by simp) (List.forall_mem_append.mpr
    ⟨bareLeft.1, List.forall_mem_cons.mpr ⟨bareMiddle, bareRight.2⟩⟩)

/-- A text up to a column of one of its lines, and the lines of that part. -/
theorem exists_cut {chars line : List Char} {before behind : List (List Char)}
    (split : lines chars = before ++ line :: behind) (count : Nat) :
    ∃ rest, chars = ended before ++ line.take count ++ rest ∧
      lines (ended before ++ line.take count) = before ++ [line.take count] := by
  refine ⟨unlines (line.drop count :: behind), ?_, ?_⟩
  · rw [← unlines_append_cons_append, List.take_append_drop, ← split, unlines_lines]
  · have bare := not_mem_lines chars
    rw [split, List.forall_mem_append, List.forall_mem_cons] at bare
    rw [← unlines_concat]
    exact lines_unlines (by simp) (List.forall_mem_append.mpr ⟨bare.1,
      List.forall_mem_singleton.mpr fun newline => bare.2.1 (List.mem_of_mem_take newline)⟩)

end Krl.Text

import Krl.Text
import Krl.Word

/-!
# Excerpts

An excerpt shows a line of a source, some lines around it, and a caret under one
of its columns.
-/

namespace Krl.Excerpt

/-- The lines of a source as they are shown: a carriage return at the end of a
line is left out. -/
def sourceLines (source : String) : List (List Char) :=
  (Text.lines source.toList).map fun line =>
    if line.getLast? = some '\r' then line.dropLast else line

/-- Indices of the first line shown, of the line with the caret, and of the last
line shown. -/
structure Window where
  first : Nat
  target : Nat
  last : Nat
  deriving DecidableEq, Repr

/-- Index of the line asked for, or of the nearest one there is, in a text of
`count` lines. -/
def targetLine (count line : Nat) : Nat :=
  min (line - 1) (count - 1)

/-- Index of the last line asked for, which may lie past the end of the text. -/
def reach (count line context : Nat) : Nat :=
  targetLine count line + context

/-- The window with `context` lines on each side, as far as the text goes. -/
def window (count line context : Nat) : Window where
  first := targetLine count line - context
  target := targetLine count line
  last := min (reach count line context) (count - 1)

/-- The line that points at a column of the line above it. -/
def caret (column : Nat) : List Char :=
  List.replicate (column - 1) ' ' ++ ['^']

/-- The lines in the window, with the caret after the target. -/
def shown (lines : List (List Char)) (window : Window) (column : Nat) : List (List Char) :=
  (lines.drop window.first).take (window.target + 1 - window.first) ++
    caret column :: (lines.drop (window.target + 1)).take (window.last - window.target)

end Excerpt

/-- The line of the source with `context` lines on each side, and a caret under
the column right after it. A line number out of range means the nearest line. -/
def excerpt (source : String) (line column context : Nat) : String :=
  let lines := Excerpt.sourceLines source
  String.ofList (Text.unlines
    (Excerpt.shown lines (Excerpt.window lines.length line context) column))

/-- The excerpt, unless the last line asked for lies past the largest word. Then the program
panics on the sum of the two, and nothing is returned. -/
def excerpt? (source : String) (line column context : Nat) : Option String :=
  if Excerpt.reach (Excerpt.sourceLines source).length line context < wordLimit then
    some (excerpt source line column context)
  else
    none

end Krl

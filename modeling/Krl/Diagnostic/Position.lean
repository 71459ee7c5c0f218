import Krl.Text

/-!
# Positions

A reader finds a place in a source by its line and its column, the tokenizer by
its byte offset. Lines and columns count from one, columns in characters.
-/

namespace Krl

/-- A line and a column. -/
structure Position where
  line : Nat
  column : Nat
  deriving DecidableEq, Repr

namespace Position

/-- The position just after some text. -/
def after (before : List Char) : Position where
  line := before.count '\n' + 1
  column := (before.reverse.takeWhile (· != '\n')).length + 1

/-- The position of a byte offset. There is none past the end of the source or
inside a character. -/
def ofOffset? (source : String) (offset : Nat) : Option Position :=
  (Text.takeBytes? offset source.toList).map after

end Position

end Krl

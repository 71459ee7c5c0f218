/-!
# Options

What a caller can choose about parsing a source.
-/

namespace Krl

/-- Options for parsing a source. -/
structure ParseOptions where
  /-- The name of the source in messages. -/
  filename : Option String
  deriving DecidableEq, Repr

/-- Without options a source has no name. -/
def ParseOptions.none : ParseOptions := ⟨Option.none⟩

end Krl

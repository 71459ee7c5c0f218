import Krl.Span

/-!
# Names in the syntax tree

Words keep their place in the source. What kind of word a place calls for is part
of its type.
-/

namespace Krl

/-- A name: of a rule, a parameter, a label, an event. -/
structure Identifier where
  value : String
  span : Span
  deriving DecidableEq, Repr, Inhabited

/-- A word that selects a kind of property. It may be spelled differently in the
source, which its span still shows. -/
structure Keyword where
  value : String
  span : Span
  deriving DecidableEq, Repr, Inhabited

/-- The identifier of a ruleset, words joined by dots and dashes. -/
structure RulesetId where
  value : String
  span : Span
  deriving DecidableEq, Repr, Inhabited

namespace Identifier

/-- The same word as a keyword. -/
def toKeyword (identifier : Identifier) : Keyword :=
  ⟨identifier.value, identifier.span⟩

end Identifier

end Krl

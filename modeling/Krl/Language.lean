import Krl.Language.Declarations
import Krl.Language.Events
import Krl.Language.Expressions
import Krl.Language.Rules
import Krl.Language.Rulesets

/-!
# The language

The productions together with the meaning of tokens make up the language that
sources are written in.
-/

namespace Krl

/-- The error for a tree that the productions do not admit. -/
def misshapenError : ParseError :=
  .internal "a derivation does not follow the productions"

/-- The language of rulesets. -/
def language : Language Nonterminal Terminal Leaf Traced where
  Value := Nonterminal.Value
  Datum := Terminal.Datum
  read := Terminal.read
  span := fun leaf => leaf.lexeme.span
  reductions :=
    Productions.rulesetRules ++ Productions.declarationRules ++ Productions.ruleRules ++
      Productions.eventRules ++ Productions.expressionRules
  misshapen := throw misshapenError

end Krl

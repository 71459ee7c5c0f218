import Krl.Language.Vocabulary

/-!
# Guards

Two kinds of phrases depend on more than the order of their tokens: the parts of a
ruleset identifier must touch, and an action may not take the place of the
aggregator of the group of events before it.
-/

namespace Krl

/-- Whether each token begins where the one before it ends. -/
def isContiguous : List Lexeme → Bool
  | first :: second :: others => first.stop == second.start && isContiguous (second :: others)
  | _ => true

/-- The matched tokens touch. -/
def contiguous : Guard Leaf := fun tokens start stop =>
  isContiguous (((tokens.drop start).take (stop - start)).map Leaf.lexeme)

/-- Of tokens in reverse order, those past the opening parenthesis that leaves
none of the closing ones open. `depth` counts the closing ones that are open. -/
def beyondOpening? : (depth : Nat) → List Token → Option (List Token)
  | _, [] => none
  | depth, .punct .rightParen :: others => beyondOpening? (depth + 1) others
  | 1, .punct .leftParen :: others => some others
  | depth, .punct .leftParen :: others => beyondOpening? (depth - 1) others
  | depth, _ :: others => beyondOpening? depth others

/-- Whether tokens in reverse order are those before the parentheses of a group of
events: a number after `count` or `repeat`. -/
def opensGroup : List Token → Bool
  | .number _ :: .symbol text :: _ => text == "count" || text == "repeat"
  | _ => false

/-- Whether tokens in reverse order end in a group of events. -/
def endsInGroup : List Token → Bool
  | .punct .rightParen :: others => ((beyondOpening? 1 others).map opensGroup).getD false
  | _ => false

/-- Whether a token is the name of an aggregator. -/
def isAggregatorName : Token → Bool
  | .symbol text => AggregateOp.all.any fun op => op.word == text
  | _ => false

/-- The match does not begin with the name of an aggregator right after a group of
events. -/
def notAfterGroup : Guard Leaf := fun tokens start _ =>
  match tokens[start]? with
  | none => true
  | some first =>
      !(isAggregatorName first.lexeme.token &&
        endsInGroup ((tokens.take start).reverse.map fun leaf => leaf.lexeme.token))

end Krl

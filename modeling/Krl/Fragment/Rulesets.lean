import Krl.Fragment.Expressions

/-!
# Reducers of rulesets
-/

namespace Krl.Reducers

open Fragment (into intoIdentifier intoListOf)
open Reducing

/-- A source that is a ruleset. -/
def programRuleset : Reducer := fun _ =>
  return .piece .program (.ruleset (← piece .ruleset 0))

/-- A source that is a list of statements. -/
def programStatements : Reducer := fun _ =>
  return .piece .program (.statements (← items 0 (into .statement)))

/-- A whole ruleset. -/
def ruleset : Reducer := fun span =>
  return .piece .ruleset
    ⟨← piece .rulesetId 1, ← option 3 (into .metaBlock), ← items 4 (into .statement),
      ← items 5 (into .rule), span⟩

/-- The identifier of a ruleset, from its text. -/
def rulesetId : Reducer := fun span =>
  return .piece .rulesetId ⟨← piece .text 0, span⟩

/-- The text of a word. -/
def text : Reducer := fun _ =>
  return .piece .text (← word 0)

/-- A text with a mark and a word behind it. -/
def textJoin : Reducer := fun _ =>
  return .piece .text ((← piece .text 0) ++ (← word 1) ++ (← word 2))

/-- The properties of a ruleset. -/
def metaBlock : Reducer := fun span =>
  return .piece .metaBlock ⟨← items 2 (into .metaProperty), span⟩

/-- The keyword that a property begins with, in the canonical spelling. -/
def canonicalKey (canonical : String) : Reducing Keyword :=
  return { ← keyword 0 with value := canonical }

/-- A property that is an expression. -/
def metaExpression : Reducer := fun span =>
  return .piece .metaProperty ⟨← keyword 0, .expr (← piece .expression 1), span⟩

/-- A key of another service. -/
def metaKey : Reducer := fun span =>
  return .piece .metaProperty
    ⟨← canonicalKey "keys", .key (← keyword 1) (← piece .expression 2), span⟩

/-- Whether logging is on. -/
def metaLogging : Reducer := fun span => do
  let key ← keyword 0
  let switch ← piece .token 1
  let isOn := switch.lexeme.token.symbol? == some "on"
  return .piece .metaProperty ⟨key, .expr ⟨.boolean isOn, switch.lexeme.span⟩, span⟩

/-- Another ruleset that is used. -/
def metaUse : Reducer := fun span =>
  return .piece .metaProperty
    ⟨← keyword 0,
      .use (← keyword 1) (← piece .rulesetId 2) (← option 3 (into .expression))
        (← option 4 (into .identifier)) (← option 5 (intoListOf (into .statement))), span⟩

/-- The ruleset that errors are sent to. -/
def metaErrors : Reducer := fun span =>
  return .piece .metaProperty
    ⟨← keyword 0, .errors (← piece .rulesetId 2) (← option 3 (into .expression)), span⟩

/-- Names that are provided. -/
def metaProvides : Reducer := fun span =>
  return .piece .metaProperty
    ⟨← canonicalKey "provides", .provides none (← items 1 intoIdentifier) [], span⟩

/-- Keys that are provided to certain rulesets. -/
def metaProvidesKeys : Reducer := fun span =>
  return .piece .metaProperty
    ⟨← canonicalKey "provides",
      .provides (some (← keyword 1)) (← items 2 intoIdentifier) (← items 4 (into .rulesetId)),
      span⟩

/-- Names that are shared. -/
def metaShares : Reducer := fun span =>
  return .piece .metaProperty
    ⟨← canonicalKey "shares", .shares (← items 1 intoIdentifier), span⟩

/-- Variables for a configuration. -/
def metaConfigure : Reducer := fun span =>
  return .piece .metaProperty ⟨← keyword 0, .configure (← items 2 (into .statement)), span⟩

/-- A version, which is a string. -/
def version : Reducer := fun _ => do
  let leaf ← piece .token 1
  return .piece .expression (← ofExcept leaf.string)

/-- A variable for a ruleset that is used. Any word can be its name. -/
def binding : Reducer := fun span =>
  return .piece .statement
    ⟨.declaration (← identifier 0).toExpr (← piece .expression 2), span⟩

/-- The reducers of `Productions.rulesets`. -/
def rulesets : List Reducer :=
  [programRuleset, programStatements, ruleset, rulesetId, text, textJoin, textJoin,
    listFirst, listPush 2, nothing, pass 2]

/-- The reducers of `Productions.descriptions`. -/
def descriptions : List Reducer :=
  [nothing, pass 0, metaBlock, listEmpty, listPush 1] ++ List.replicate 3 metaExpression ++
    [string, template] ++ List.replicate 2 metaKey ++ List.replicate 2 metaLogging

/-- The reducers of `Productions.connections`. -/
def connections : List Reducer :=
  [metaUse, metaErrors, metaProvides, metaProvidesKeys, metaProvides, metaProvidesKeys,
    metaShares, metaShares, metaConfigure]

/-- The reducers of `Productions.connectionParts`. -/
def connectionParts : List Reducer :=
  [nothing, version, nothing, identifierAt 1, nothing, pass 1, pass 1, listFirst, listPush 1,
    listPair, listPush 2, binding, listFirst, listPush 1]

/-- The reducers of `Productions.rulesetRules`. -/
def rulesetRules : List Reducer :=
  rulesets ++ descriptions ++ connections ++ connectionParts

end Krl.Reducers

import Krl.Language.Guards

/-!
# Productions of rulesets

A source is a ruleset or a list of statements. A ruleset opens with properties
about itself, some of which have several spellings.
-/

namespace Krl.Productions

/-- Whole sources, rulesets, and their identifiers. -/
def rulesets : List Entry :=
  [rule .main [the .ruleset] fun _ ruleset => .ruleset ruleset,
    rule .main [the .statements] fun _ items => .statements items,
    rule .ruleset
      [word "ruleset", the .rulesetId, mark .leftBrace, the .metaOpt, the .globalOpt,
        the .rules, mark .rightBrace]
      fun span _ rid _ properties globals rules _ => ⟨rid, properties, globals, rules, span⟩,
    guarded contiguous <| rule .rulesetId [the .ridWords] fun span text => ⟨text, span⟩,
    rule .ridWords [token .symbol] fun _ name => name.value,
    rule .ridWords [the .ridWords, mark .dot, token .symbol]
      fun _ text _ name => text ++ "." ++ name.value,
    rule .ridWords [the .ridWords, mark .minus, token .symbol]
      fun _ text _ name => text ++ "-" ++ name.value,
    rule .rulesetIds [the .rulesetId] fun _ rid => [rid],
    rule .rulesetIds [the .rulesetIds, mark .comma, the .rulesetId]
      fun _ rids _ rid => rids ++ [rid],
    rule .globalOpt [] fun _ => [],
    rule .globalOpt [word "global", mark .leftBrace, the .declarations, mark .rightBrace]
      fun _ _ _ items _ => items]

/-- Properties that describe a ruleset. -/
def descriptions : List Entry :=
  [rule .metaOpt [] fun _ => none,
    rule .metaOpt [the .metaBlock] fun _ block => some block,
    rule .metaBlock [word "meta", mark .leftBrace, the .metaProperties, mark .rightBrace]
      fun span _ _ items _ => ⟨items, span⟩,
    rule .metaProperties [] fun _ => [],
    rule .metaProperties [the .metaProperties, the .metaProperty]
      fun _ items item => items ++ [item]] ++
  (["name", "description", "author"].map fun key =>
    rule .metaProperty [word key, the .metaText]
      fun span place value => ⟨⟨key, place⟩, .expr value, span⟩) ++
  [rule .metaText [token .string] fun _ literal => literal,
    template .metaText id] ++
  (["keys", "key"].map fun key =>
    rule .metaProperty [word key, token .symbol, the .expression]
      fun span place name value => ⟨⟨"keys", place⟩, .key name.toKeyword value, span⟩) ++
  ([("on", true), ("off", false)].map fun ((text, isOn) : String × Bool) =>
    rule .metaProperty [word "logging", word text]
      fun span place switch => ⟨⟨"logging", place⟩, .expr ⟨.boolean isOn, switch⟩, span⟩)

/-- Properties that connect a ruleset to others. -/
def connections : List Entry :=
  [rule .metaProperty
      [word "use", word "module", the .rulesetId, the .versionOpt, the .aliasOpt, the .withOpt]
      fun span place kind rid version localName bindings =>
        ⟨⟨"use", place⟩, .use ⟨"module", kind⟩ rid version localName bindings, span⟩,
    rule .metaProperty [word "errors", word "to", the .rulesetId, the .versionOpt]
      fun span place _ rid version => ⟨⟨"errors", place⟩, .errors rid version, span⟩] ++
  (["provides", "provide"].flatMap fun key =>
    [rule .metaProperty [word key, the .identifiers]
        fun span place names => ⟨⟨"provides", place⟩, .provides none names [], span⟩,
      rule .metaProperty
        [word key, word "keys", the .identifiers, word "to", the .rulesetIds]
        fun span place operator names _ rids =>
          ⟨⟨"provides", place⟩, .provides (some ⟨"keys", operator⟩) names rids, span⟩]) ++
  (["shares", "share"].map fun key =>
    rule .metaProperty [word key, the .identifiers]
      fun span place names => ⟨⟨"shares", place⟩, .shares names, span⟩) ++
  [rule .metaProperty [word "configure", word "using", the .configuration]
      fun span place _ items => ⟨⟨"configure", place⟩, .configure items, span⟩]

/-- The parts of properties that connect a ruleset to others. -/
def connectionParts : List Entry :=
  [rule .versionOpt [] fun _ => none,
    rule .versionOpt [word "version", token .string] fun _ _ literal => some literal,
    rule .aliasOpt [] fun _ => none,
    rule .aliasOpt [word "alias", token .identifier] fun _ _ name => some name,
    rule .withOpt [] fun _ => none,
    rule .withOpt [word "with", the .withSpaced] fun _ _ items => some items,
    rule .withOpt [word "with", the .withJoined] fun _ _ items => some items,
    rule .withSpaced [the .withBinding] fun _ item => [item],
    rule .withSpaced [the .withSpaced, the .withBinding] fun _ items item => items ++ [item],
    rule .withJoined [the .withBinding, word "and", the .withBinding]
      fun _ first _ second => [first, second],
    rule .withJoined [the .withJoined, word "and", the .withBinding]
      fun _ items _ item => items ++ [item],
    rule .withBinding [token .symbol, mark .equal, the .expression]
      fun span name _ value => ⟨.declaration name.toExpr value, span⟩,
    rule .configuration [the .declaration] fun _ item => [item],
    rule .configuration [the .configuration, the .declaration] fun _ items item => items ++ [item]]

/-- All productions of rulesets. -/
def rulesetRules : List Entry :=
  rulesets ++ descriptions ++ connections ++ connectionParts

end Krl.Productions

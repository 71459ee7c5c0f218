import Krl.Language.Vocabulary

/-!
# Productions of rules

A rule selects events, loops over values, prepares variables, performs actions,
and ends in a postlude. All of these are optional.
-/

namespace Krl.Productions

/-- Words for periods of time. -/
def timePeriods : List String :=
  ["years", "year", "months", "month", "weeks", "week", "days", "day", "hours", "hour",
    "minutes", "minute", "seconds", "second"]

/-- Rules and the parts before their postlude. -/
def rules : List Entry :=
  [rule .rules [] fun _ => [],
    rule .rules [the .rules, the .rule] fun _ items item => items ++ [item],
    rule .rule
      [word "rule", token .identifier, the .ruleState, mark .leftBrace, the .selectOpt,
        the .loops, the .preludeOpt, the .actionBlockOpt, the .postludeOpt, mark .rightBrace]
      fun span _ name state _ select loops prelude block postlude _ =>
        ⟨name, state, select, loops, prelude, block, postlude, span⟩,
    rule .ruleState [] fun _ => .active,
    rule .ruleState [word "is", word "active"] fun _ _ _ => .active,
    rule .ruleState [word "is", word "inactive"] fun _ _ _ => .inactive,
    rule .selectOpt [] fun _ => none,
    rule .selectOpt [the .ruleSelect] fun _ select => some select,
    rule .ruleSelect [word "select", word "when", the .eventOr, the .withinOpt]
      fun span _ _ event within => ⟨event, within, span⟩,
    rule .withinOpt [] fun _ => none,
    rule .withinOpt [word "within", the .expression, the .timePeriod]
      fun span _ value period => some ⟨value, period, span⟩] ++
  (timePeriods.map fun period => rule .timePeriod [word period] fun _ _ => period) ++
  [rule .loops [] fun _ => [],
    rule .loops [the .loops, the .loop] fun _ items item => items ++ [item],
    rule .loop
      [word "foreach", the .expression, word "setting", mark .leftParen, the .identifiers,
        mark .rightParen]
      fun span _ value _ _ names _ => ⟨value, names, span⟩,
    rule .preludeOpt [] fun _ => [],
    rule .preludeOpt [word "pre", mark .leftBrace, the .declarations, mark .rightBrace]
      fun _ _ _ items _ => items,
    rule .actionBlockOpt [] fun _ => none,
    rule .actionBlockOpt [the .actionBlock] fun _ block => some block,
    rule .postludeOpt [] fun _ => none,
    rule .postludeOpt [the .postlude] fun _ postlude => some postlude]

/-- Postludes: what happens in the case named first, in the other one, and in both. -/
def postludes : List Entry :=
  [rule .postlude [word "always", the .postludeBody]
      fun span _ always => ⟨none, none, some always, span⟩,
    rule .postlude [word "fired", the .postludeBody]
      fun span _ fired => ⟨some fired, none, none, span⟩,
    rule .postlude [word "fired", the .postludeBody, word "else", the .postludeBody]
      fun span _ fired _ notFired => ⟨some fired, some notFired, none, span⟩,
    rule .postlude [word "fired", the .postludeBody, word "finally", the .postludeBody]
      fun span _ fired _ always => ⟨some fired, none, some always, span⟩,
    rule .postlude
      [word "fired", the .postludeBody, word "else", the .postludeBody, word "finally",
        the .postludeBody]
      fun span _ fired _ notFired _ always => ⟨some fired, some notFired, some always, span⟩,
    rule .postlude [word "notfired", the .postludeBody]
      fun span _ notFired => ⟨none, some notFired, none, span⟩,
    rule .postlude [word "notfired", the .postludeBody, word "else", the .postludeBody]
      fun span _ notFired _ fired => ⟨some fired, some notFired, none, span⟩,
    rule .postlude [word "notfired", the .postludeBody, word "finally", the .postludeBody]
      fun span _ notFired _ always => ⟨none, some notFired, some always, span⟩,
    rule .postlude
      [word "notfired", the .postludeBody, word "else", the .postludeBody, word "finally",
        the .postludeBody]
      fun span _ notFired _ fired _ always => ⟨some fired, some notFired, some always, span⟩,
    rule .postludeBody [mark .leftBrace, the .postludeStatements, mark .rightBrace]
      fun _ _ items _ => items,
    rule .postludeStatements [] fun _ => [],
    same .postludeStatements .postludeSequence id,
    rule .postludeStatements [the .postludeSequence, mark .semicolon] fun _ items _ => items,
    rule .postludeSequence [the .postludeStatement] fun _ item => [item],
    rule .postludeSequence [the .postludeSequence, mark .semicolon, the .postludeStatement]
      fun _ items _ item => items ++ [item]]

/-- Statements that only a postlude can hold, and their conditions. -/
def postludeStatements : List Entry :=
  [same .postludeStatement .postludeCore id,
    rule .postludeStatement [the .postludeCore, word "on", word "final"]
      fun span statement _ _ => ⟨.guarded .onFinal statement, span⟩,
    rule .postludeStatement [the .postludeCore, word "if", the .expression]
      fun span statement _ test => ⟨.guarded (.if test) statement, span⟩,
    same .postludeCore .statement id,
    same .postludeCore .persistentAssignment id,
    same .postludeCore .clearStatement id,
    same .postludeCore .raiseStatement id,
    same .postludeCore .scheduleStatement id,
    same .postludeCore .logStatement id,
    same .postludeCore .errorStatement id,
    rule .postludeCore [word "last"] fun span _ => ⟨.last, span⟩,
    rule .persistentAssignment [token .persistent, mark .assign, the .expression]
      fun span left _ right => ⟨.persistent left none right, span⟩,
    rule .persistentAssignment
      [token .persistent, mark .leftBrace, the .expression, mark .rightBrace, mark .assign,
        the .expression]
      fun span left _ path _ _ right => ⟨.persistent left (some path) right, span⟩,
    rule .clearStatement [word "clear", token .persistent]
      fun span _ name => ⟨.clear name, span⟩]

/-- Statements that raise events, now or later, and those that log. -/
def effects : List Entry :=
  [rule .raiseStatement
      [word "raise", token .identifier, word "event", the .expression, the .forOpt,
        the .attributesOpt]
      fun span _ domain _ type rid attributes => ⟨.raise domain type rid attributes, span⟩,
    rule .forOpt [] fun _ => none,
    rule .forOpt [word "for", the .expression] fun _ _ value => some value,
    rule .attributesOpt [] fun _ => none,
    rule .attributesOpt [word "attributes", the .expression] fun _ _ value => some value,
    rule .scheduleStatement
      [word "schedule", token .identifier, word "event", the .expression, word "at",
        the .expression, the .attributesOpt, the .scheduleSettingOpt]
      fun span _ domain _ type _ time attributes setting =>
        ⟨.schedule (.at time) domain type attributes setting, span⟩,
    rule .scheduleStatement
      [word "schedule", token .identifier, word "event", the .expression, word "repeat",
        the .expression, the .attributesOpt, the .scheduleSettingOpt]
      fun span _ domain _ type _ timespec attributes setting =>
        ⟨.schedule (.repeat timespec) domain type attributes setting, span⟩,
    rule .scheduleSettingOpt [] fun _ => none,
    rule .scheduleSettingOpt
      [word "setting", mark .leftParen, token .identifier, mark .rightParen]
      fun _ _ _ name _ => some name,
    rule .logStatement [word "log", the .logLevel, the .expression]
      fun span _ level value => ⟨.log level value, span⟩,
    rule .errorStatement [word "error", the .logLevel, the .expression]
      fun span _ level value => ⟨.error level value, span⟩] ++
  (LogLevel.all.map fun level => rule .logLevel [word level.word] fun _ _ => level)

/-- All productions of rules. -/
def ruleRules : List Entry :=
  rules ++ postludes ++ postludeStatements ++ effects

end Krl.Productions

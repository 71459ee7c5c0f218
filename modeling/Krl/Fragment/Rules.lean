import Krl.Fragment.Rulesets

/-!
# Reducers of rules
-/

namespace Krl.Reducers

open Fragment (into intoIdentifier)
open Reducing

/-- A whole rule. -/
def rule : Reducer := fun span =>
  return .piece .rule
    ⟨← identifier 1, ← piece .ruleState 2, ← option 4 (into .select), ← items 5 (into .loop),
      ← items 6 (into .statement), ← option 7 (into .actionBlock), ← option 8 (into .postlude),
      span⟩

/-- Whether a rule takes part. -/
def ruleState (state : RuleState) : Reducer := fun _ =>
  return .piece .ruleState state

/-- The events that a rule waits for. -/
def ruleSelect : Reducer := fun span =>
  return .piece .select ⟨← piece .event 2, ← option 3 (into .within), span⟩

/-- A period of time. -/
def within : Reducer := fun span =>
  return .piece .within ⟨← piece .expression 1, ← piece .text 2, span⟩

/-- A loop over values. -/
def loop : Reducer := fun span =>
  return .piece .loop ⟨← piece .expression 1, ← items 4 intoIdentifier, span⟩

/-- A postlude with the statements at the positions given. -/
def postlude (fired notFired always : Option Nat) : Reducer := fun span =>
  return .piece .postlude ⟨← body fired, ← body notFired, ← body always, span⟩
where
  /-- The statements at a position, if there is one. -/
  body (position : Option Nat) : Reducing (Option (List Stmt)) :=
    position.mapM fun index => items index (into .statement)

/-- Statements that run in any case. -/
def postludeAlways : Reducer := postlude none none (some 1)

/-- Statements of the case named first, and those at the positions given for the other one and
for both. -/
def postludePhase (other always : Option Nat) : Reducer := fun span => do
  if (← word 0) == "fired" then
    postlude (some 1) other always span
  else
    postlude other (some 1) always span

/-- A statement that runs in the last iteration. -/
def guardOnFinal : Reducer := fun span =>
  return .piece .statement ⟨.guarded .onFinal (← piece .statement 0), span⟩

/-- A statement that runs if a test holds. -/
def guardIf : Reducer := fun span => do
  let test ← piece .expression 2
  return .piece .statement ⟨.guarded (.if test) (← piece .statement 0), span⟩

/-- The last statement that runs. -/
def last : Reducer := fun span =>
  return .piece .statement ⟨.last, span⟩

/-- An assignment to a persistent variable. -/
def persistentAssign : Reducer := fun span => do
  let leaf ← piece .token 0
  return .piece .statement
    ⟨.persistent (← ofExcept leaf.domainName) none (← piece .expression 2), span⟩

/-- An assignment to a part of a persistent variable. -/
def persistentAssignPath : Reducer := fun span => do
  let leaf ← piece .token 0
  return .piece .statement
    ⟨.persistent (← ofExcept leaf.domainName) (some (← piece .expression 2))
      (← piece .expression 5), span⟩

/-- A persistent variable that is cleared. -/
def clear : Reducer := fun span => do
  let leaf ← piece .token 1
  return .piece .statement ⟨.clear (← ofExcept leaf.domainName), span⟩

/-- An event that is raised. -/
def raise : Reducer := fun span =>
  return .piece .statement
    ⟨.raise (← identifier 1) (← piece .expression 3) (← option 4 (into .expression))
      (← option 5 (into .expression)), span⟩

/-- An event that is raised later. -/
def schedule (timing : Expr → ScheduleTiming) : Reducer := fun span => do
  let domain ← identifier 1
  let type ← piece .expression 3
  let timing := timing (← piece .expression 5)
  return .piece .statement
    ⟨.schedule timing domain type (← option 6 (into .expression))
      (← option 7 (into .identifier)), span⟩

/-- A message for the log. -/
def logStatement : Reducer := fun span =>
  return .piece .statement ⟨.log (← piece .logLevel 1) (← piece .expression 2), span⟩

/-- An error that is raised. -/
def errorStatement : Reducer := fun span =>
  return .piece .statement ⟨.error (← piece .logLevel 1) (← piece .expression 2), span⟩

/-- The level of a message. -/
def logLevel : Reducer := fun _ =>
  return .piece .logLevel (← known "log level" LogLevel.ofWord? (← word 0))

/-- The reducers of `Productions.rules`. -/
def rules : List Reducer :=
  [listEmpty, listPush 1, rule, ruleState .active, ruleState .active, ruleState .inactive,
    nothing, pass 0, ruleSelect, nothing, within] ++
  List.replicate 14 text ++
  [listEmpty, listPush 1, loop, nothing, pass 2, nothing, pass 0, nothing, pass 0]

/-- The reducers of `Productions.postludes`. -/
def postludes : List Reducer :=
  [postludeAlways,
    postludePhase none none, postludePhase (some 3) none, postludePhase none (some 3),
    postludePhase (some 3) (some 5),
    postludePhase none none, postludePhase (some 3) none, postludePhase none (some 3),
    postludePhase (some 3) (some 5),
    pass 1, listEmpty, pass 0, pass 0, listFirst, listPush 2]

/-- The reducers of `Productions.postludeStatements`. -/
def postludeStatements : List Reducer :=
  [pass 0, guardOnFinal, guardIf] ++ List.replicate 7 (pass 0) ++
    [last, persistentAssign, persistentAssignPath, clear]

/-- The reducers of `Productions.effects`. -/
def effects : List Reducer :=
  [raise, nothing, pass 1, nothing, pass 1, schedule .at, schedule .repeat, nothing,
    identifierAt 2, logStatement, errorStatement] ++
  List.replicate 4 logLevel

/-- The reducers of `Productions.ruleRules`. -/
def ruleRules : List Reducer :=
  rules ++ postludes ++ postludeStatements ++ effects

end Krl.Reducers

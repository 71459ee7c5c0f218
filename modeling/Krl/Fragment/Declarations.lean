import Krl.Fragment.Expressions

/-!
# Reducers of declarations and actions
-/

namespace Krl.Reducers

open Fragment (into intoIdentifier)
open Reducing

/-- A declaration of a variable. -/
def declaration : Reducer := fun span =>
  return .piece .statement ⟨.declaration (← piece .expression 0) (← piece .expression 2), span⟩

/-- A definition of an action. -/
def defaction : Reducer := fun span =>
  return .piece .statement
    ⟨.defaction
      ⟨← identifier 0, ← piece .parameters 4, ← items 7 (into .statement),
        ← piece .actionBlock 8, ← items 9 (into .expression)⟩,
      span⟩

/-- A block of the actions at a position, under the condition given for it. -/
def block (condition : Option Expr) (position : Nat) : Reducer := fun span => do
  let set ← piece .actionSet position
  return .piece .actionBlock ⟨condition, set.blockType, set.discriminant, set.actions, span⟩

/-- A block of actions. -/
def actionBlock : Reducer := block none 0

/-- A block of actions under a condition. -/
def actionBlockIf : Reducer := fun span => do
  block (some (← piece .expression 1)) 3 span

/-- A single action. -/
def actionSetSingle : Reducer := fun _ =>
  return .piece .actionSet ⟨.every, none, [← piece .action 0]⟩

/-- Several actions. -/
def actionSetOf (blockType : BlockType) : Reducer := fun _ =>
  return .piece .actionSet ⟨blockType, none, ← items 2 (into .action)⟩

/-- Actions of which a value chooses one. -/
def actionSetChoose : Reducer := fun _ =>
  return .piece .actionSet
    ⟨.choose, some (← piece .expression 1), ← items 3 (into .action)⟩

/-- An action. -/
def action : Reducer := fun span =>
  return .piece .action
    ⟨none, ← piece .expression 0, ← piece .arguments 1, ← items 2 intoIdentifier, span⟩

/-- An action with a label. -/
def actionLabeled : Reducer := fun span => do
  let unlabeled ← piece .action 2
  return .piece .action { unlabeled with label := some (← identifier 0), span := span }

/-- The reducers of `Productions.declarations`. -/
def declarations : List Reducer :=
  [listEmpty, listPush 1, pass 0, pass 0, pass 0, pass 0, declaration, name, domainName,
    memberDot, memberAt .index, memberAt .path]

/-- The reducers of `Productions.defactions`. -/
def defactions : List Reducer :=
  [defaction, listEmpty, listPush 1, pass 0, pass 0, nothing, pass 1, pass 1, listFirst,
    listPush 2]

/-- The reducers of `Productions.actionBlocks`. -/
def actionBlocks : List Reducer :=
  [actionBlock, actionBlockIf, actionSetSingle, actionSetOf .every, actionSetOf .sample,
    actionSetChoose, listFirst, listPush 1]

/-- The reducers of `Productions.actions`. -/
def actions : List Reducer :=
  [pass 0, pass 0, pass 0, actionLabeled, action, name, domainName, nothing, pass 2]

/-- The reducers of `Productions.identifierLists`. -/
def identifierLists : List Reducer :=
  [listFirst, listPush 2]

/-- The reducers of `Productions.declarationRules`. -/
def declarationRules : List Reducer :=
  declarations ++ defactions ++ actionBlocks ++ actions ++ identifierLists

end Krl.Reducers

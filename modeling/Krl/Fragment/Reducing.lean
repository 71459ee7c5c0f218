import Krl.Fragment

/-!
# Reducers

A reducer makes one fragment of the fragments of the parts of a phrase. It takes the parts by
their positions, terminals counted, and leaves nothing in their place.
-/

namespace Krl

/-- A computation on the parts of a phrase. -/
abbrev Reducing : Type → Type :=
  StateT (List Fragment) Traced

/-- What makes a fragment of the parts of a phrase, told which bytes the phrase covers. -/
abbrev Reducer : Type :=
  Span → Reducing Fragment

namespace Reducing

/-- What a computation makes of the parts of a phrase. The parts that it leaves are dropped. -/
def on {α : Type} (computation : Reducing α) (parts : List Fragment) : Traced α :=
  computation.run' parts

/-- Take the part at a position. -/
def take (index : Nat) : Reducing Fragment := do
  let parts ← get
  match parts[index]? with
  | some part =>
      set (parts.set index .nothing)
      return part
  | none => throw (.internal ("missing child " ++ toString index))

/-- What the part at a position is read as. -/
def read {α : Type} (index : Nat) (reading : Fragment → Except ParseError α) : Reducing α := do
  ofExcept (reading (← take index))

/-- The part at a position, which must be of a kind. -/
def piece (kind : Fragment.Kind) (index : Nat) : Reducing kind.Content :=
  read index (Fragment.into kind)

/-- The optional part at a position. -/
def option {α : Type} (index : Nat) (reading : Fragment → Except ParseError α) :
    Reducing (Option α) :=
  read index (Fragment.intoOption reading)

/-- The list at a position. -/
def items {α : Type} (index : Nat) (reading : Fragment → Except ParseError α) :
    Reducing (List α) :=
  read index (Fragment.intoItems reading)

/-- The identifier at a position. -/
def identifier (index : Nat) : Reducing Identifier :=
  read index Fragment.intoIdentifier

/-- The identifier at a position as a keyword. -/
def keyword (index : Nat) : Reducing Keyword :=
  return (← identifier index).toKeyword

/-- The text of the word or the mark at a position. -/
def word (index : Nat) : Reducing String := do
  ofExcept (← piece .token index).word

/-- What a text stands for in a table, which must have it. -/
def known {α : Type} (what : String) (table : String → Option α) (text : String) : Reducing α :=
  match table text with
  | some value => return value
  | none => throw (.internal ("unknown " ++ what ++ " `" ++ text ++ "`"))

end Reducing

namespace Reducers

open Fragment (intoList)
open Reducing

/-- The fragment of a part that is absent. -/
def nothing : Reducer := fun _ =>
  return .nothing

/-- Pass on a part. -/
def pass (index : Nat) : Reducer := fun _ =>
  take index

/-- The empty list. -/
def listEmpty : Reducer := fun _ =>
  return .list []

/-- A list of the first part. -/
def listFirst : Reducer := fun _ =>
  return .list [← take 0]

/-- A list of two parts with a separator between them. -/
def listPair : Reducer := fun _ =>
  return .list [← take 0, ← take 2]

/-- The list that is the first part, with one more part at its end. -/
def listPush (item : Nat) : Reducer := fun _ => do
  let parts ← read 0 intoList
  return .list (parts ++ [← take item])

/-- An identifier. -/
def identifierAt (index : Nat) : Reducer := fun _ =>
  return .piece .identifier (← identifier index)

end Reducers

end Krl

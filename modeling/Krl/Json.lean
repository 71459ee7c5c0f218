import Krl.Binary64
import Krl.Word

/-!
# Documents

A document is a tree of the kind that JSON text carries. Whole numbers and other
numbers are told apart, as a position in a source is written as a whole number
while a number literal is a double.

A record is written as an object and can be read from an array of its fields too.
A choice is written as an object with one field, named for the alternative, or as
the bare name when the alternative carries nothing.
-/

namespace Krl

/-- A JSON value. The fields of an object keep their order. -/
inductive Json where
  | null
  | bool (value : Bool)
  | int (value : Int)
  | double (value : Binary64)
  | string (value : String)
  | array (items : List Json)
  | object (fields : List (String × Json))

namespace Json

instance : Inhabited Json := ⟨null⟩

mutual

/-- How many arrays and objects lie inside one another. -/
def depth : Json → Nat
  | array items => depthOfItems items + 1
  | object fields => depthOfFields fields + 1
  | _ => 0

/-- The depth of the deepest item. -/
def depthOfItems : List Json → Nat
  | [] => 0
  | item :: others => max (depth item) (depthOfItems others)

/-- The depth of the deepest field. -/
def depthOfFields : List (String × Json) → Nat
  | [] => 0
  | (_, field) :: others => max (depth field) (depthOfFields others)

end

/-- A document for a value that may be missing. -/
def ofOption {α : Type} (encode : α → Json) : Option α → Json
  | some value => encode value
  | none => null

/-- The array of the documents for some values. -/
def ofList {α : Type} (encode : α → Json) (values : List α) : Json :=
  array (values.map encode)

/-- A count or an offset. -/
def ofNat (value : Nat) : Json :=
  int value

/-- An alternative that carries something. -/
def variant (name : String) (payload : Json) : Json :=
  object [(name, payload)]

/-- An offset or a count, which is a word. -/
def nat? : Json → Option Nat
  | int (.ofNat value) => if value < wordLimit then some value else none
  | _ => none

/-- A double; a whole number will do. -/
def double? : Json → Option Binary64
  | int value => some (.ofInt value)
  | double value => some value
  | _ => none

/-- A truth value. -/
def bool? : Json → Option Bool
  | bool value => some value
  | _ => none

/-- A text. -/
def string? : Json → Option String
  | string value => some value
  | _ => none

/-- A list of values. -/
def list? {α : Type} (decode : Json → Option α) : Json → Option (List α)
  | array items => items.mapM decode
  | _ => none

/-- The fields of a record by name, from an object. Some may be missing, and
fields of other names do not matter. -/
def objectFields? (names : List String) : Json → Option (List (Option Json))
  | object fields => some (names.map fun name => fields.lookup name)
  | _ => none

/-- The fields of a record, from an object or from an array of all of them. -/
def recordFields? (names : List String) : Json → Option (List (Option Json))
  | array items => if items.length = names.length then some (items.map some) else none
  | document => objectFields? names document

/-- A field that must be there. -/
def required {α : Type} (decode : Json → Option α) (field : Option Json) : Option α :=
  field.bind decode

/-- A field that may be missing or null. -/
def optional {α : Type} (decode : Json → Option α) : Option Json → Option (Option α)
  | none | some null => some none
  | some document => (decode document).map some

/-- The name of an alternative and what it carries. -/
def variant? : Json → Option (String × Option Json)
  | string name => some (name, none)
  | object [(name, payload)] => some (name, some payload)
  | _ => none

/-- An alternative that carries nothing. Null may stand where something could. -/
def unit? {α : Type} (value : α) : Option Json → Option α
  | none | some null => some value
  | _ => none

/-- One of some alternatives that carry nothing, by name. -/
def oneOf? {α : Type} (values : List α) (name : α → String) (document : Json) : Option α := do
  let (found, payload) ← variant? document
  unit? (← values.find? fun value => name value == found) payload

end Json

end Krl

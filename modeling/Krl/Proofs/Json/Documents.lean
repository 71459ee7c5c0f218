import Krl.Json

/-!
# Documents as texts

Documents travel as texts of some format. What a format does with a document is left to
it, except that it has to give back, unchanged, every document that is plain: one whose
doubles are finite, whose whole numbers are words, and whose objects name no field twice.

Not every document that can be read is plain. A number may be written as a whole number of
any sign and size. But no number of it can be infinite, as no text says so.
-/

namespace Krl.Json

variable {holds : Json → Prop} {bound : Nat}

/-- What is directly in a document. -/
@[simp] def parts : Json → List Json
  | array items => items
  | object fields => fields.map Prod.snd
  | _ => []

/-- Something holds of a document and of all that is in it, at any depth. -/
inductive Throughout (holds : Json → Prop) : Json → Prop where
  | intro {document : Json} (itself : holds document)
      (inside : ∀ part ∈ document.parts, Throughout holds part) : Throughout holds document

theorem throughout_iff {document : Json} :
    document.Throughout holds ↔ holds document ∧ ∀ part ∈ document.parts, part.Throughout holds :=
  ⟨fun ⟨itself, inside⟩ => ⟨itself, inside⟩, fun ⟨itself, inside⟩ => ⟨itself, inside⟩⟩

theorem throughout_scalar {document : Json} (scalar : document.parts = []) :
    document.Throughout holds ↔ holds document := by
  rw [throughout_iff, scalar]
  simp

theorem throughout_array {items : List Json} :
    (array items).Throughout holds ↔
      holds (array items) ∧ ∀ item ∈ items, item.Throughout holds :=
  throughout_iff

theorem throughout_object {fields : List (String × Json)} :
    (object fields).Throughout holds ↔
      holds (object fields) ∧ ∀ field ∈ fields, field.2.Throughout holds := by
  rw [throughout_iff, parts, List.forall_mem_map]

section Depth

/-- What is in a document is less deep. -/
theorem depth_part_lt {document part : Json} (mem : part ∈ document.parts) :
    part.depth < document.depth := by
  cases document with
  | array items =>
      suffices le : part.depth ≤ depthOfItems items from Nat.lt_succ_of_le le
      rw [parts] at mem
      induction items with
      | nil => simp at mem
      | cons first others ih =>
          rw [depthOfItems]
          rcases List.mem_cons.1 mem with rfl | mem
          · exact Nat.le_max_left _ _
          · exact Nat.le_trans (ih mem) (Nat.le_max_right _ _)
  | object fields =>
      suffices le : part.depth ≤ depthOfFields fields from Nat.lt_succ_of_le le
      rw [parts] at mem
      induction fields with
      | nil => simp at mem
      | cons first others ih =>
          rw [depthOfFields]
          rcases List.mem_cons.1 mem with rfl | mem
          · exact Nat.le_max_left _ _
          · exact Nat.le_trans (ih mem) (Nat.le_max_right _ _)
  | _ => simp at mem

/-- Nothing in a document is deeper than the document. -/
theorem throughout_depth_le (document : Json) (shallow : document.depth ≤ bound) :
    document.Throughout (·.depth ≤ bound) :=
  .intro shallow fun part mem =>
    throughout_depth_le part (Nat.le_trans (Nat.le_of_lt (depth_part_lt mem)) shallow)
termination_by document.depth
decreasing_by exact depth_part_lt mem

theorem throughout_parts_depth_le {document : Json} (shallow : document.depth ≤ bound + 1) :
    ∀ part ∈ document.parts, part.Throughout (·.depth ≤ bound) :=
  fun part mem =>
    throughout_depth_le part (Nat.le_of_lt_succ (Nat.lt_of_lt_of_le (depth_part_lt mem) shallow))

end Depth

/-- The document can be carried by any format, as far as it shows itself. -/
@[simp] def IsPlain : Json → Prop
  | int value => 0 ≤ value ∧ value < wordLimit
  | double value => value.isFinite
  | object fields => (fields.map Prod.fst).Nodup
  | _ => True

/-- The document is no number that would be infinite as a double. -/
@[simp] def IsFinite : Json → Prop
  | int value => (Binary64.ofInt value).isFinite
  | double value => value.isFinite
  | _ => True

/-- A way of writing documents as texts and of reading them back. -/
structure Format (Text : Type) where
  write : Json → Text
  /-- There are texts that are no document. -/
  read? : Text → Option Json

namespace Format

variable {Text : Type} (format : Format Text)

/-- The document comes back as it was written. -/
def Carries (document : Json) : Prop :=
  format.read? (format.write document) = some document

/-- What is expected of a format: it carries scalars, among them every finite double and
every string, and it carries an array, or an object with distinct names, if it carries what
is in there. -/
structure Sound : Prop where
  null : format.Carries null
  bool : ∀ value, format.Carries (bool value)
  word : ∀ value < wordLimit, format.Carries (ofNat value)
  double : ∀ value : Binary64, value.isFinite → format.Carries (double value)
  string : ∀ value, format.Carries (string value)
  array : ∀ items, (∀ item ∈ items, format.Carries item) → format.Carries (array items)
  object : ∀ fields : List (String × Json), (fields.map Prod.fst).Nodup →
    (∀ field ∈ fields, format.Carries field.2) → format.Carries (object fields)

variable {format}

theorem Sound.carries (sound : format.Sound) {document : Json}
    (plain : document.Throughout IsPlain) : format.Carries document := by
  induction plain with
  | @intro document itself _ carried =>
      cases document with
      | null => exact sound.null
      | bool value => exact sound.bool value
      | int value =>
          obtain ⟨value, rfl⟩ := Int.eq_ofNat_of_zero_le itself.1
          exact sound.word value (Int.ofNat_lt.1 itself.2)
      | double value => exact sound.double value itself
      | string value => exact sound.string value
      | array items => exact sound.array items carried
      | object fields => exact sound.object fields itself (List.forall_mem_map.1 carried)

variable (format) {α : Type}

/-- The text that a value is stored as. -/
def store (encode : α → Json) (value : α) : Text :=
  format.write (encode value)

/-- The value that a text stores. -/
def load? (decode : Json → Option α) (text : Text) : Option α :=
  (format.read? text).bind decode

end Format

end Krl.Json

import Krl.Proofs.Binary64.Overflow
import Krl.Proofs.Json.Faithful

/-!
# Numbers that no text tells

A format has no text for a number that is infinite. It may write null in its place, which is
no number any more, or anything else that can be written. So what cannot be stored does not
come back.
-/

namespace Krl.Json

namespace Format

variable {Written α : Type} {format : Format Written} {storable : α → Prop} {encode : α → Json}
  {decode : Json → Option α}

/-- Every number that is read from a text is finite. -/
def ReadsFinite (format : Format Written) : Prop :=
  ∀ text document, format.read? text = some document → document.Throughout IsFinite

/-- What comes back is just what can be stored. -/
theorem Sound.loads_iff (sound : format.Sound) (finite : format.ReadsFinite)
    (inverts : ∀ bound, Inverts bound storable encode decode) (value : α) :
    format.load? decode (format.store encode value) = some value ↔ storable value := by
  constructor
  · intro loaded
    obtain ⟨document, read, decoded⟩ := Option.bind_eq_some_iff.mp loaded
    exact (inverts 0).sound document value (finite _ document read) decoded
  · exact (sound.faithful inverts).loads value

end Format

mutual

/-- The document with null for each number that is not finite. -/
def withNulls : Json → Json
  | null => null
  | bool value => bool value
  | int value => if (Binary64.ofInt value).isFinite then int value else null
  | double value => if value.isFinite then double value else null
  | string value => string value
  | array items => array (itemsWithNulls items)
  | object fields => object (fieldsWithNulls fields)

def itemsWithNulls : List Json → List Json
  | [] => []
  | item :: others => item.withNulls :: itemsWithNulls others

def fieldsWithNulls : List (String × Json) → List (String × Json)
  | [] => []
  | (name, value) :: others => (name, value.withNulls) :: fieldsWithNulls others

end

mutual

theorem throughout_withNulls : (document : Json) → document.withNulls.Throughout IsFinite
  | null | bool _ | string _ => (throughout_scalar rfl).mpr trivial
  | int value => by
      rw [withNulls]
      split
      next finite => exact (throughout_scalar rfl).mpr finite
      next => exact (throughout_scalar rfl).mpr trivial
  | double value => by
      rw [withNulls]
      split
      next finite => exact (throughout_scalar rfl).mpr finite
      next => exact (throughout_scalar rfl).mpr trivial
  | array items => throughout_array.mpr ⟨trivial, throughout_itemsWithNulls items⟩
  | object fields => throughout_object.mpr ⟨trivial, throughout_fieldsWithNulls fields⟩

theorem throughout_itemsWithNulls :
    (items : List Json) → ∀ item ∈ itemsWithNulls items, item.Throughout IsFinite
  | [] => List.forall_mem_nil _
  | item :: others =>
      List.forall_mem_cons.mpr ⟨throughout_withNulls item, throughout_itemsWithNulls others⟩

theorem throughout_fieldsWithNulls :
    (fields : List (String × Json)) → ∀ field ∈ fieldsWithNulls fields,
      field.2.Throughout IsFinite
  | [] => List.forall_mem_nil _
  | (_, value) :: others =>
      List.forall_mem_cons.mpr ⟨throughout_withNulls value, throughout_fieldsWithNulls others⟩

end

theorem itemsWithNulls_eq (items : List Json) : itemsWithNulls items = items.map withNulls := by
  induction items with
  | nil => rfl
  | cons item others ih => rw [itemsWithNulls, ih, List.map_cons]

theorem fieldsWithNulls_eq (fields : List (String × Json)) :
    fieldsWithNulls fields = fields.map fun field => (field.1, field.2.withNulls) := by
  induction fields with
  | nil => rfl
  | cons field others ih => rw [fieldsWithNulls, ih, List.map_cons]

namespace Format

theorem wordLimit_le_overflow : wordLimit ≤ Binary64.overflow := by
  rw [show wordLimit = 2 ^ 64 from rfl, Binary64.overflow]
  have exponents : 2 ^ 64 ≤ 2 ^ 970 := by gcongr <;> decide
  exact exponents.trans (Nat.le_mul_of_pos_left _ (by decide))

/-- Documents that are handed over with null for each number that is not finite. -/
def nulls : Format Json :=
  ⟨withNulls, fun document => some document.withNulls⟩

theorem nulls_readsFinite : nulls.ReadsFinite := by
  rintro text _ ⟨⟩
  exact throughout_withNulls text

theorem carries_nulls_iff {document : Json} :
    nulls.Carries document ↔ document.withNulls.withNulls = document :=
  Option.some_inj

theorem nulls_sound : nulls.Sound where
  null := rfl
  bool _ := rfl
  word value small := by
    have finite : (Binary64.ofInt (Int.ofNat value)).isFinite = true := by
      rw [Binary64.ofInt, Binary64.isFinite_ofFraction_iff _ Nat.one_pos, Nat.one_mul]
      exact Nat.lt_of_lt_of_le small wordLimit_le_overflow
    have kept : (ofNat value).withNulls = ofNat value := if_pos finite
    rw [carries_nulls_iff, kept, kept]
  double value finite := by
    have kept : (double value).withNulls = double value := if_pos finite
    rw [carries_nulls_iff, kept, kept]
  string _ := rfl
  array items carried := by
    have kept : items.map (withNulls ∘ withNulls) = items := by
      conv => rhs; rw [← List.map_id items]
      exact List.map_congr_left fun item member => carries_nulls_iff.mp (carried item member)
    rw [carries_nulls_iff, withNulls, withNulls, itemsWithNulls_eq, itemsWithNulls_eq,
      List.map_map, kept]
  object fields _ carried := by
    have kept : (fields.map fun field => (field.1, field.2.withNulls)).map
        (fun field => (field.1, field.2.withNulls)) = fields := by
      rw [List.map_map]
      conv => rhs; rw [← List.map_id fields]
      exact List.map_congr_left fun field member =>
        Prod.ext rfl (carries_nulls_iff.mp (carried field member))
    rw [carries_nulls_iff, withNulls, withNulls, fieldsWithNulls_eq, fieldsWithNulls_eq, kept]

end Format

end Krl.Json

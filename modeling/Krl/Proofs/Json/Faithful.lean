import Krl.Proofs.Json.Rulesets

/-!
# Storing trees

Trees, locations and options can be stored as texts of any sound format: they come back
unchanged, so that different ones are never stored as the same text. What comes from a text
that was written elsewhere, in whatever form is accepted, can be stored too.
-/

namespace Krl

open Json

namespace Json.Format

variable {Text α : Type} {format : Format Text} {storable : α → Prop} {encode : α → Json}
  {decode : Json → Option α}

/-- Nothing about a value gets lost or mixed up in storing it. -/
structure Faithful (format : Format Text) (storable : α → Prop) (encode : α → Json)
    (decode : Json → Option α) : Prop where
  loads : ∀ value, storable value →
    format.load? decode (format.store encode value) = some value
  distinct : ∀ value other, storable value → storable other →
    format.store encode value = format.store encode other → value = other
  /-- The document need not be one that was written. -/
  settles : ∀ document value, document.Throughout IsFinite → decode document = some value →
    format.load? decode (format.store encode value) = some value

theorem Sound.faithful (sound : format.Sound)
    (inverts : ∀ bound, Inverts bound storable encode decode) :
    format.Faithful storable encode decode := by
  have loads value (isStorable : storable value) :
      format.load? decode (format.store encode value) = some value := by
    obtain ⟨plain, read⟩ := (inverts (encode value).depth).returns value isStorable
      (throughout_depth_le _ (Nat.le_refl _))
    rw [load?, store, sound.carries plain, Option.bind_some, read]
  refine ⟨loads, fun value other isStorable otherStorable same => ?_,
    fun document value finite decoded => loads value ?_⟩
  · have loaded := loads value isStorable
    rw [same, loads other otherStorable] at loaded
    exact (Option.some.inj loaded).symm
  · exact (inverts 0).sound document value finite decoded

/-- Documents that are handed over as they are. -/
def handedOver : Format Json :=
  ⟨id, some⟩

theorem handedOver_sound : handedOver.Sound where
  null := rfl
  bool _ := rfl
  word _ _ := rfl
  double _ _ := rfl
  string _ := rfl
  array _ _ := rfl
  object _ _ _ := rfl

end Json.Format

end Krl

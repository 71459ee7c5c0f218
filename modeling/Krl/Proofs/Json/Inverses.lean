import Krl.Proofs.Json.Documents
import Krl.Proofs.Syntax.Lists

/-!
# Writers and readers of documents

A reader undoes a writer when it gives back every value written, and when all it gives
back are values that can be written. The second matters as a reader accepts more than what
is written: records as arrays, records with fields left out, whole numbers for doubles.

Readers of trees look only into documents up to some depth, so a bound on the depth is
part of the notion. A reader of a tree is shown to undo its writer up to a bound once the
readers of the smaller trees are.
-/

namespace Krl.Json

variable {α : Type} {bound : Nat} {storable : α → Prop} {encode : α → Json}
  {decode : Json → Option α}

/-- Reading undoes writing of the storable values, in documents up to a depth. -/
structure Inverts (bound : Nat) (storable : α → Prop) (encode : α → Json)
    (decode : Json → Option α) : Prop where
  /-- Null is left to parts that are missing. -/
  solid : ∀ value, encode value ≠ null
  returns : ∀ value, storable value → (encode value).Throughout (·.depth ≤ bound) →
    (encode value).Throughout IsPlain ∧ decode (encode value) = some value
  sound : ∀ document value, document.Throughout IsFinite → decode document = some value →
    storable value

namespace Inverts

/-- Nothing is written that is not deep, so nothing need be read from there. -/
theorem none (deep : ∀ value, 0 < (encode value).depth) :
    Inverts 0 storable encode fun _ => Option.none where
  solid value isNull := by
    have deep := deep value
    rw [isNull] at deep
    exact Nat.lt_irrefl 0 deep
  returns value _ shallow := absurd (throughout_iff.1 shallow).1 (Nat.not_le.2 (deep value))
  sound _ _ _ := nofun

/-- Readers bounded by the depth of the document undo the writer up to every bound. -/
theorem unbounded {within : Nat → Json → Option α}
    (inverts : ∀ bound, Inverts bound storable encode (within bound)) :
    Inverts bound storable encode fun document => within document.depth document where
  solid := (inverts 0).solid
  returns value isStorable _ :=
    (inverts _).returns value isStorable (throughout_depth_le _ (Nat.le_refl _))
  sound document value := (inverts document.depth).sound document value

/-- Readers and writers of what is built from the values in a one-to-one way. -/
theorem map (inverts : Inverts bound storable encode decode) {β : Type} {build : α → β}
    {storable' : β → Prop} {encode' : β → Json} (covers : Function.Surjective build)
    (writes : ∀ value, encode' (build value) = encode value)
    (stores : ∀ value, storable' (build value) ↔ storable value) :
    Inverts bound storable' encode' fun document => (decode document).map build where
  solid value := by
    obtain ⟨part, rfl⟩ := covers value
    rw [writes]
    exact inverts.solid part
  returns value := by
    obtain ⟨part, rfl⟩ := covers value
    rw [writes, stores]
    intro isStorable shallow
    obtain ⟨plain, read⟩ := inverts.returns part isStorable shallow
    exact ⟨plain, Option.map_eq_some_iff.2 ⟨part, read, rfl⟩⟩
  sound document value finite decoded := by
    obtain ⟨part, read, rfl⟩ := Option.map_eq_some_iff.1 decoded
    exact (stores part).2 (inverts.sound document part finite read)

end Inverts

section Scalars

variable (bound : Nat)

theorem inverts_string : Inverts bound (fun _ => True) string string? where
  solid _ := nofun
  returns _ _ _ := ⟨(throughout_scalar rfl).2 trivial, rfl⟩
  sound _ _ _ _ := trivial

theorem inverts_bool : Inverts bound (fun _ => True) bool bool? where
  solid _ := nofun
  returns _ _ _ := ⟨(throughout_scalar rfl).2 trivial, rfl⟩
  sound _ _ _ _ := trivial

theorem inverts_nat : Inverts bound (· < wordLimit) ofNat nat? where
  solid _ := nofun
  returns _ isWord _ :=
    ⟨(throughout_scalar rfl).2 ⟨Int.natCast_nonneg _, Int.ofNat_lt.2 isWord⟩, if_pos isWord⟩
  sound document value _ decoded := by
    unfold nat? at decoded
    split at decoded
    · split at decoded
      next isWord => exact Option.some.inj decoded ▸ isWord
      · contradiction
    · contradiction

/-- A whole number is read as the nearest double, so the other way does not lead back to
the document. -/
theorem inverts_double : Inverts bound (·.isFinite) double double? where
  solid _ := nofun
  returns _ finite _ := ⟨(throughout_scalar rfl).2 finite, rfl⟩
  sound document value finite decoded := by
    have finite := (throughout_iff.1 finite).1
    cases document with
    | int _ | double _ => exact Option.some.inj decoded ▸ finite
    | _ => contradiction

/-- Alternatives that carry nothing are told apart by their names. -/
theorem inverts_oneOf {values : List α} {name : α → String}
    (named : ∀ value, (values.find? fun other => name other == name value) = some value) :
    Inverts bound (fun _ => True) (fun value => string (name value)) (oneOf? values name) where
  solid _ := nofun
  returns value _ _ :=
    ⟨(throughout_scalar rfl).2 trivial, by simp [oneOf?, variant?, unit?, named]⟩
  sound _ _ _ _ := trivial

end Scalars

section Lists

/-- Documents written one after the other are the array of the list that is written. -/
theorem array_eq_ofList {toJsons : List α → List Json} (nil : toJsons [] = [])
    (cons : ∀ item others, toJsons (item :: others) = encode item :: toJsons others)
    (items : List α) : array (toJsons items) = ofList encode items :=
  congrArg array (eq_map_of_cons nil cons items)

theorem mapM_map_encode {values : List α}
    (decoded : ∀ value ∈ values, decode (encode value) = some value) :
    (values.map encode).mapM decode = some values := by
  induction values with
  | nil => rfl
  | cons value others ih =>
      rw [List.forall_mem_cons] at decoded
      simp [List.mapM_cons, decoded.1, ih decoded.2]

theorem of_mapM {items : List Json} {values : List α} (decoded : items.mapM decode = some values) :
    ∀ value ∈ values, ∃ item ∈ items, decode item = some value := by
  induction items generalizing values with
  | nil =>
      cases decoded
      simp
  | cons item others ih =>
      simp only [List.mapM_cons, Option.bind_eq_bind, Option.bind_eq_some_iff] at decoded
      obtain ⟨first, found, rest, others, ⟨⟩⟩ := decoded
      rw [List.forall_mem_cons]
      refine ⟨⟨item, List.mem_cons_self, found⟩, fun value mem => ?_⟩
      obtain ⟨other, mem, found⟩ := ih others value mem
      exact ⟨other, List.mem_cons_of_mem _ mem, found⟩

theorem Inverts.list (inverts : Inverts bound storable encode decode) :
    Inverts bound (fun values => ∀ value ∈ values, storable value) (ofList encode)
      (list? decode) where
  solid _ := nofun
  returns values isStorable shallow := by
    rw [ofList, throughout_array, List.forall_mem_map] at *
    have returned value (mem : value ∈ values) :=
      inverts.returns value (isStorable value mem) (shallow.2 value mem)
    exact ⟨⟨trivial, fun value mem => (returned value mem).1⟩,
      mapM_map_encode fun value mem => (returned value mem).2⟩
  sound document values finite decoded value mem := by
    cases document with
    | array items =>
        obtain ⟨item, mem, decoded⟩ := of_mapM decoded value mem
        exact inverts.sound item value ((throughout_array.1 finite).2 item mem) decoded
    | _ => contradiction

end Lists

end Krl.Json

import Krl.Proofs.Json.Inverses

/-!
# Records as documents

A record is written as an object with all of its fields. It may be read from an array too,
and from an object that leaves out a field that may be missing. An alternative that carries
several things is read like a record, but from an object only.

A record is given by a list of its fields, each with its writer and its reader, and by what
makes something of the values read. What is known about the fields one by one is put
together along the list.
-/

namespace Krl.Json

variable {α : Type} {bound : Nat} {storable : α → Prop} {encode : α → Json}
  {decode : Json → Option α}

section Fields

/-- Nothing is infinite in a document that may be missing. -/
def FiniteField (field : Option Json) : Prop :=
  ∀ document ∈ field, document.Throughout IsFinite

/-- Reading a field of a record undoes writing it. The field may be missing. -/
structure InvertsField (bound : Nat) (storable : α → Prop) (encode : α → Json)
    (read : Option Json → Option α) : Prop where
  returns : ∀ value, storable value → (encode value).Throughout (·.depth ≤ bound) →
    (encode value).Throughout IsPlain ∧ read (some (encode value)) = some value
  sound : ∀ field value, FiniteField field → read field = some value → storable value

theorem Inverts.required (inverts : Inverts bound storable encode decode) :
    InvertsField bound storable encode (Json.required decode) where
  returns := inverts.returns
  sound field value finite decoded := by
    obtain ⟨document, found, decoded⟩ := Option.bind_eq_some_iff.1 decoded
    exact inverts.sound document value (finite document found) decoded

theorem Inverts.optional (inverts : Inverts bound storable encode decode) :
    InvertsField bound (fun value => ∀ part ∈ value, storable part) (ofOption encode)
      (Json.optional decode) where
  returns value isStorable shallow := by
    cases value with
    | none => exact ⟨(throughout_scalar rfl).2 trivial, rfl⟩
    | some part =>
        obtain ⟨plain, read⟩ := inverts.returns part (isStorable part rfl) shallow
        refine ⟨plain, ?_⟩
        rw [ofOption, Json.optional, read, Option.map_some]
        exact inverts.solid part
  sound field value finite decoded := by
    unfold Json.optional at decoded
    split at decoded
    · cases decoded
      nofun
    · cases decoded
      nofun
    next document _ =>
      obtain ⟨part, found, rfl⟩ := Option.map_eq_some_iff.1 decoded
      intro other same
      cases same
      exact inverts.sound document part (finite document rfl) found

variable {names : List String} {document : Json} {found : List (Option Json)}
  {build : List (Option Json) → Option α} {value : α}

/-- The fields of an object with distinct names are found in order. -/
theorem objectFields?_object (fields : List (String × Json))
    (distinct : (fields.map Prod.fst).Nodup) :
    objectFields? (fields.map Prod.fst) (object fields) =
      some (fields.map fun field => some field.2) := by
  rw [objectFields?, List.map_map]
  refine congrArg some (List.map_congr_left fun field mem => ?_)
  obtain ⟨before, after, rfl⟩ := List.append_of_mem mem
  rw [List.map_append, List.map_cons] at distinct
  refine List.lookup_eq_some_iff.2 ⟨before, after, rfl, fun other mem => ?_⟩
  exact bne_iff_ne.2 ((List.nodup_append.1 distinct).2.2 _ (List.mem_map_of_mem mem) _
    List.mem_cons_self).symm

/-- What is read from an object is built from finite fields, one for each name. -/
theorem finite_object (finite : document.Throughout IsFinite)
    (decoded : (objectFields? names document).bind build = some value) :
    ∃ found, found.length = names.length ∧ (∀ field ∈ found, FiniteField field) ∧
      build found = some value := by
  obtain ⟨found, read, built⟩ := Option.bind_eq_some_iff.1 decoded
  cases document with
  | object fields =>
      cases read
      refine ⟨_, List.length_map _, ?_, built⟩
      intro field mem document read
      obtain ⟨name, _, rfl⟩ := List.mem_map.1 mem
      obtain ⟨before, after, rfl, _⟩ := List.lookup_eq_some_iff.1 read
      exact (throughout_object.1 finite).2 (name, document) (by simp)
  | _ => contradiction

/-- What is read from a record is built from finite fields, one for each name. -/
theorem finite_record (finite : document.Throughout IsFinite)
    (decoded : (recordFields? names document).bind build = some value) :
    ∃ found, found.length = names.length ∧ (∀ field ∈ found, FiniteField field) ∧
      build found = some value := by
  cases document with
  | array items =>
      obtain ⟨found, read, built⟩ := Option.bind_eq_some_iff.1 decoded
      rw [recordFields?] at read
      split at read
      next sameLength =>
        cases read
        refine ⟨_, (List.length_map _).trans sameLength, ?_, built⟩
        intro field mem document read
        obtain ⟨item, held, rfl⟩ := List.mem_map.1 mem
        cases read
        exact (throughout_array.1 finite).2 document held
      · contradiction
  | _ =>
      exact finite_object finite
        (show (objectFields? names _).bind build = some value from decoded)

theorem throughout_variant {holds : Json → Prop} {name : String} {payload : Json} :
    (variant name payload).Throughout holds ↔
      holds (variant name payload) ∧ payload.Throughout holds := by
  simp [variant, throughout_object]

theorem plain_variant {name : String} {payload : Json} (plain : payload.Throughout IsPlain) :
    (variant name payload).Throughout IsPlain :=
  throughout_variant.2 ⟨by simp [variant], plain⟩

theorem unit_eq {only : α} {payload : Option Json} (decoded : unit? only payload = some value) :
    only = value := by
  unfold unit? at decoded
  split at decoded
  · exact Option.some.inj decoded
  · exact Option.some.inj decoded
  · contradiction

/-- What an alternative carries is finite in a finite document. -/
theorem finite_variant {build : String × Option Json → Option α}
    (finite : document.Throughout IsFinite)
    (decoded : (variant? document).bind build = some value) :
    ∃ alternative, FiniteField alternative.2 ∧ build alternative = some value := by
  obtain ⟨alternative, read, built⟩ := Option.bind_eq_some_iff.1 decoded
  refine ⟨alternative, ?_, built⟩
  unfold variant? at read
  split at read
  · cases read
    nofun
  · cases read
    intro document read
    cases read
    exact (throughout_object.1 finite).2 _ List.mem_cons_self
  · contradiction

end Fields

section Records

/-- A field of a record: its name, and how it is written and read. -/
structure RecordField (bound : Nat) where
  name : String
  {Value : Type}
  {storable : Value → Prop}
  {encode : Value → Json}
  {read : Option Json → Option Value}
  inverts : InvertsField bound storable encode read

namespace RecordField

/-- What the fields of a record hold. -/
def Values : List (RecordField bound) → Type
  | [] => Unit
  | part :: others => part.Value × Values others

/-- What makes something of the fields, one after the other. -/
def Make (α : Type) : List (RecordField bound) → Type
  | [] => α
  | part :: others => part.Value → Make α others

/-- What is made of some values. -/
@[simp] def apply : (parts : List (RecordField bound)) → Make α parts → Values parts → α
  | [], made, _ => made
  | _ :: others, make, values => apply others (make values.1) values.2

/-- What is made of the values read from some fields. -/
def build : (parts : List (RecordField bound)) → Make α parts → List (Option Json) → Option α
  | [], made, [] => some made
  | part :: others, make, field :: fields => do build others (make (← part.read field)) fields
  | _, _, _ => none

/-- The fields that hold the values. -/
@[simp] def fields : (parts : List (RecordField bound)) → Values parts → List (String × Json)
  | [], _ => []
  | part :: others, values => (part.name, part.encode values.1) :: fields others values.2

@[simp] def Storable : (parts : List (RecordField bound)) → Values parts → Prop
  | [], _ => True
  | part :: others, values => part.storable values.1 ∧ Storable others values.2

/-- Something holds of as many things that may be found as there are fields. -/
def EachFound : List (RecordField bound) → (List (Option Json) → Prop) → Prop
  | [], holds => holds []
  | _ :: others, holds => ∀ field, EachFound others fun fields => holds (field :: fields)

variable {parts : List (RecordField bound)} {make : Make α parts}

theorem EachFound.of_length {holds : List (Option Json) → Prop} {found : List (Option Json)}
    (each : EachFound parts holds) (sameLength : found.length = parts.length) : holds found := by
  induction parts generalizing holds found with
  | nil => exact List.eq_nil_of_length_eq_zero sameLength ▸ each
  | cons part others ih =>
      cases found with
      | nil => contradiction
      | cons field fields =>
          have held := ih (each field) (Nat.succ.inj sameLength)
          exact held

theorem names_fields (values : Values parts) :
    (fields parts values).map Prod.fst = parts.map name := by
  induction parts with
  | nil => rfl
  | cons part others ih => rw [fields, List.map_cons, List.map_cons, ih]

@[simp] theorem length_fields (values : Values parts) :
    (fields parts values).length = parts.length := by
  induction parts with
  | nil => rfl
  | cons part others ih => rw [fields, List.length_cons, List.length_cons, ih]

theorem returns {values : Values parts} (isStorable : Storable parts values)
    (shallow : ∀ field ∈ fields parts values, field.2.Throughout (·.depth ≤ bound)) :
    (∀ field ∈ fields parts values, field.2.Throughout IsPlain) ∧
      build parts make ((fields parts values).map fun field => some field.2) =
        some (apply parts make values) := by
  induction parts with
  | nil => exact ⟨nofun, rfl⟩
  | cons part others ih =>
      rw [fields, List.forall_mem_cons] at shallow ⊢
      obtain ⟨plain, read⟩ := part.inverts.returns values.1 isStorable.1 shallow.1
      obtain ⟨othersPlain, built⟩ := @ih (make values.1) values.2 isStorable.2 shallow.2
      refine ⟨⟨plain, othersPlain⟩, ?_⟩
      rw [List.map_cons, build, read]
      exact built

theorem storable_of_build {found : List (Option Json)} {value : α}
    (finite : ∀ field ∈ found, FiniteField field) (built : build parts make found = some value) :
    ∃ values, Storable parts values ∧ apply parts make values = value := by
  induction parts generalizing found with
  | nil =>
      cases found with
      | nil => exact ⟨(), trivial, Option.some.inj built⟩
      | cons _ _ => contradiction
  | cons part others ih =>
      cases found with
      | nil => contradiction
      | cons field fields =>
          rw [List.forall_mem_cons] at finite
          obtain ⟨first, read, built⟩ := Option.bind_eq_some_iff.1 built
          obtain ⟨values, areStorable, made⟩ := ih finite.2 built
          exact ⟨(first, values), ⟨part.inverts.sound field first finite.1 read, areStorable⟩, made⟩

/-- The fields of a record with distinct names are found where the values were put. -/
theorem objectFields?_fields (distinct : (parts.map name).Nodup) (values : Values parts) :
    objectFields? (parts.map name) (object (fields parts values)) =
      some ((fields parts values).map fun field => some field.2) := by
  rw [← names_fields values] at distinct ⊢
  exact objectFields?_object _ distinct

end RecordField

open RecordField

variable {document : Json} {value : α} {read : List (Option Json) → Option α}

/-- What carries one thing carries it as it is. -/
theorem returns_bare {β : Type} {storable : β → Prop} {encode : β → Json}
    {read : Option Json → Option β} (field : InvertsField bound storable encode read)
    (make : β → α) {part : β} (isStorable : storable part)
    (shallow : (encode part).Throughout (·.depth ≤ bound)) :
    (encode part).Throughout IsPlain ∧
      (do return make (← read (some (encode part)))) = some (make part) := by
  obtain ⟨plain, decoded⟩ := field.returns part isStorable shallow
  exact ⟨plain, by simp [decoded]⟩

theorem storable_bare {β : Type} {storable : β → Prop} {encode : β → Json}
    {read : Option Json → Option β} (field : InvertsField bound storable encode read)
    {make : β → α} {payload : Option Json} (finite : FiniteField payload)
    (decoded : (do return make (← read payload)) = some value) :
    ∃ part, storable part ∧ make part = value := by
  obtain ⟨part, decoded, made⟩ := Option.bind_eq_some_iff.1 decoded
  exact ⟨part, field.sound payload part finite decoded, Option.some.inj made⟩

/-- The fields of an object that is written are found again, and make up what they did. -/
theorem returns_fields (parts : List (RecordField bound)) (make : Make α parts)
    (distinct : (parts.map name).Nodup) (values : Values parts)
    (areStorable : Storable parts values)
    (shallow : ∀ field ∈ fields parts values, field.2.Throughout (·.depth ≤ bound)) :
    (object (fields parts values)).Throughout IsPlain ∧
      (objectFields? (parts.map name) (object (fields parts values))).bind (build parts make) =
        some (apply parts make values) := by
  obtain ⟨plain, built⟩ := RecordField.returns areStorable shallow
  rw [objectFields?_fields distinct]
  rw [← names_fields values] at distinct
  exact ⟨throughout_object.2 ⟨distinct, plain⟩, built⟩

/-- What carries several things carries them in an object. -/
theorem returns_object (parts : List (RecordField bound)) (make : Make α parts)
    (distinct : (parts.map name).Nodup) (values : Values parts)
    (areStorable : Storable parts values)
    (shallow : (object (fields parts values)).Throughout (·.depth ≤ bound)) :
    (object (fields parts values)).Throughout IsPlain ∧
      (objectFields? (parts.map name) (object (fields parts values))).bind (build parts make) =
        some (apply parts make values) :=
  returns_fields parts make distinct values areStorable (throughout_object.1 shallow).2

/-- What is read from an object is made of storable values, if it is read like a record. -/
theorem storable_object (parts : List (RecordField bound)) (make : Make α parts)
    (finite : document.Throughout IsFinite)
    (decoded : (objectFields? (parts.map name) document).bind read = some value)
    (agrees : EachFound parts fun found => read found = build parts make found) :
    ∃ values, Storable parts values ∧ apply parts make values = value := by
  obtain ⟨found, sameLength, finite, decoded⟩ := finite_object finite decoded
  rw [agrees.of_length (sameLength.trans (List.length_map _))] at decoded
  exact storable_of_build finite decoded

/-- A record is deeper than its fields, so that its reader can look one step further. The
reader matches on the fields found, of which there are as many as there are names. -/
theorem inverts_record {outer : Nat} (within : outer ≤ bound + 1) (parts : List (RecordField bound))
    (make : Make α parts) (distinct : (parts.map name).Nodup)
    (covers : ∀ value, ∃ values, apply parts make values = value)
    (writes : ∀ values, encode (apply parts make values) = object (fields parts values))
    (stores : ∀ values, storable (apply parts make values) ↔ Storable parts values)
    (agrees : EachFound parts fun found => read found = build parts make found) :
    Inverts outer storable encode fun document =>
      (recordFields? (parts.map name) document).bind read where
  solid value := by
    obtain ⟨values, rfl⟩ := covers value
    rw [writes]
    nofun
  returns value := by
    obtain ⟨values, rfl⟩ := covers value
    rw [writes, stores]
    intro areStorable shallow
    have shallow := throughout_parts_depth_le (Nat.le_trans (throughout_iff.1 shallow).1 within)
    obtain ⟨plain, built⟩ := returns_fields parts make distinct values areStorable
      (List.forall_mem_map.1 shallow)
    rw [objectFields?_fields distinct, Option.bind_some, ← agrees.of_length (by simp)] at built
    refine ⟨plain, ?_⟩
    rw [recordFields?, objectFields?_fields distinct]
    · exact built
    · nofun
  sound document value finite decoded := by
    obtain ⟨found, sameLength, finite, decoded⟩ := finite_record finite decoded
    rw [agrees.of_length (sameLength.trans (List.length_map _))] at decoded
    obtain ⟨values, areStorable, rfl⟩ := storable_of_build finite decoded
    exact (stores values).2 areStorable

end Records

end Krl.Json

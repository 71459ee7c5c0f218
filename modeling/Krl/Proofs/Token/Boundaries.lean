import Krl.Proofs.Token.Interpolations

/-!
# Where tokens begin and end

Tokens begin and end between characters of the source. The offsets at which they do increase:
those of each interpolation lie between the braces around it.
-/

namespace Krl

/-- The offset is that between two characters of the source, or at one of its ends. -/
def IsBoundary (source : String) (offset : Nat) : Prop :=
  ∃ before behind, source.toList = before ++ behind ∧ Text.byteLength before = offset

theorem IsBoundary.le {source : String} {offset : Nat} (boundary : IsBoundary source offset) :
    offset ≤ Text.byteLength source.toList := by
  obtain ⟨before, behind, same, rfl⟩ := boundary
  rw [same, Text.byteLength_append]
  exact Nat.le_add_right _ _

theorem Cursor.In.isBoundary {source : String} {cursor : Cursor} (inside : cursor.In source) :
    IsBoundary source cursor.offset := by
  obtain ⟨count, rfl⟩ := inside
  exact ⟨_, _, (List.take_append_drop count source.toList).symm, (Nat.zero_add _).symm⟩

theorem LexemesOrderly.significant {low high : Nat} {lexemes : List Lexeme}
    (orderly : LexemesOrderly low high lexemes) :
    LexemesOrderly low high (Krl.significant lexemes) := by
  induction lexemes generalizing low with
  | nil => exact orderly
  | cons first others ih =>
      obtain ⟨token, start, stop⟩ := first
      obtain ⟨starts, inside, rest⟩ := orderly
      rw [Krl.significant, List.filter_cons]
      split
      · exact ⟨starts, inside, ih rest⟩
      · have := Token.Orderly.le token inside
        exact (ih rest).weaken (by omega)

theorem LexemesOrderly.of_mem {low high : Nat} {lexemes : List Lexeme}
    (orderly : LexemesOrderly low high lexemes) {lexeme : Lexeme} (member : lexeme ∈ lexemes) :
    lexeme.token.Orderly (lexeme.start + 1) lexeme.stop ∧ lexeme.stop ≤ high := by
  induction lexemes generalizing low with
  | nil => cases member
  | cons first others ih =>
      obtain ⟨token, start, stop⟩ := first
      obtain ⟨_, inside, rest⟩ := orderly
      rcases List.mem_cons.mp member with rfl | member
      · exact ⟨inside, LexemesOrderly.le others rest⟩
      · exact ih rest member

/-- The significant tokens of a source, and those of each interpolation in it. -/
def tokenStreams (lexemes : List Lexeme) : List (List Lexeme) :=
  significant lexemes ::
    (interpolationsIn lexemes).map fun interpolation => significant interpolation.tokens

/-- Tokens stand in order between two offsets, and on boundaries of the source. -/
structure Settled (source : String) (low high : Nat) (lexemes : List Lexeme) : Prop where
  orderly : LexemesOrderly low high lexemes
  boundaries : ∀ lexeme ∈ lexemes,
    IsBoundary source lexeme.start ∧ IsBoundary source lexeme.stop
  closes : IsBoundary source high

theorem Settled.significant {source : String} {low high : Nat} {lexemes : List Lexeme}
    (settled : Settled source low high lexemes) :
    Settled source low high (Krl.significant lexemes) :=
  ⟨settled.orderly.significant,
    fun lexeme member => settled.boundaries lexeme (List.mem_filter.mp member).1, settled.closes⟩

namespace Token

variable {source : String}

theorem ReadsAll.boundaries {cursor final : Cursor} {lexemes : List Lexeme}
    (reads : ReadsAll cursor lexemes final) (inside : cursor.In source) :
    (∀ lexeme ∈ lexemes, IsBoundary source lexeme.start ∧ IsBoundary source lexeme.stop) ∧
      IsBoundary source final.offset := by
  induction reads with
  | nil => exact ⟨List.forall_mem_nil _, inside.isBoundary⟩
  | cons first _ ih =>
      have next := inside.of_advances first.advances
      obtain ⟨starts, stops, _⟩ := first.orderly
      obtain ⟨others, closes⟩ := ih next
      refine ⟨List.forall_mem_cons.mpr ⟨⟨?_, ?_⟩, others⟩, closes⟩
      · exact starts ▸ inside.isBoundary
      · exact stops ▸ next.isBoundary

/-- The tokens of a source stand on boundaries. -/
theorem settled_of_tokenize {lexemes : List Lexeme} (read : tokenize source = .ok lexemes) :
    Settled source 0 (Text.byteLength source.toList) lexemes := by
  obtain ⟨final, reads, ends⟩ := tokenize_eq_ok_iff.mp read
  have inside : Cursor.In source ⟨0, source.toList⟩ := ⟨0, rfl⟩
  obtain ⟨boundaries, closes⟩ := reads.boundaries inside
  have stop := (reads.offset_eq ends).trans (Nat.zero_add _)
  rw [stop] at closes
  exact ⟨stop ▸ reads.orderly, boundaries, closes⟩

end Token

/-- The tokens of an interpolation stand on boundaries of the source that it is in. -/
theorem Interpolation.ReadIn.settled {source : String} {interpolation : Interpolation}
    (readIn : interpolation.ReadIn source) {low : Nat}
    (orderly : LexemesOrderly low interpolation.close interpolation.tokens) :
    Settled source low interpolation.close interpolation.tokens := by
  obtain ⟨cursor, final, inside, reads, _, closes⟩ := readIn
  obtain ⟨boundaries, last⟩ := reads.boundaries inside
  exact ⟨orderly, boundaries, closes ▸ last⟩

section Edges

/-- The offsets at which tokens begin and end, one after another: first a given one, then both
ends of each token, then another one for ever. -/
def edge (high : Nat) : (low : Nat) → List Lexeme → Nat → Nat
  | low, _, 0 => low
  | _, [], _ + 1 => high
  | _, lexeme :: _, 1 => lexeme.start
  | _, lexeme :: others, index + 2 => edge high lexeme.stop others index

variable {low high : Nat} {lexemes : List Lexeme}

theorem edge_zero : edge high low lexemes 0 = low := by
  cases lexemes <;> rfl

theorem edge_of_getElem? {index : Nat} {lexeme : Lexeme} (found : lexemes[index]? = some lexeme) :
    edge high low lexemes (2 * index + 1) = lexeme.start ∧
      edge high low lexemes (2 * index + 2) = lexeme.stop := by
  induction index generalizing low lexemes with
  | zero =>
      cases lexemes with
      | nil => cases found
      | cons first others =>
          cases found
          cases others <;> exact ⟨rfl, rfl⟩
  | succ index ih =>
      cases lexemes with
      | nil => cases found
      | cons first others => exact ih found

theorem edge_of_length_le {index : Nat} (beyond : 2 * lexemes.length < index) :
    edge high low lexemes index = high := by
  induction lexemes generalizing low index with
  | nil =>
      cases index with
      | zero => cases beyond
      | succ index => rfl
  | cons first others ih =>
      rw [List.length_cons] at beyond
      obtain ⟨index, rfl⟩ := Nat.exists_eq_add_of_le' (show 2 ≤ index by omega)
      exact ih (by omega)

/-- The offsets increase if the tokens stand in order. -/
theorem LexemesOrderly.monotone_edge (orderly : LexemesOrderly low high lexemes) :
    Monotone (edge high low lexemes) := by
  refine monotone_nat_of_le_succ fun index => ?_
  induction lexemes generalizing low index with
  | nil =>
      cases index with
      | zero => exact orderly
      | succ index => exact Nat.le_refl _
  | cons first others ih =>
      obtain ⟨token, start, stop⟩ := first
      obtain ⟨starts, inside, rest⟩ := orderly
      match index with
      | 0 => exact starts
      | 1 =>
          have covers : start ≤ stop := Nat.le_of_succ_le (Token.Orderly.le token inside)
          rw [edge, edge, edge]
          exact covers
      | index + 2 => exact ih rest index

/-- A token behind another one begins behind it. -/
theorem LexemesOrderly.start_lt (orderly : LexemesOrderly low high lexemes) {index other : Nat}
    {lexeme lexeme' : Lexeme} (found : lexemes[index]? = some lexeme)
    (found' : lexemes[other]? = some lexeme') (behind : index < other) :
    lexeme.start < lexeme'.start := by
  have inside : lexeme.start + 1 ≤ lexeme.stop :=
    Token.Orderly.le _ (orderly.of_mem (List.mem_of_getElem? found)).1
  have between : edge high low lexemes (2 * index + 2) ≤ edge high low lexemes (2 * other + 1) :=
    orderly.monotone_edge (by omega)
  rw [(edge_of_getElem? found).2, (edge_of_getElem? found').1] at between
  exact Nat.lt_of_lt_of_le inside between

/-- A token is known from where it begins. -/
theorem LexemesOrderly.index_eq (orderly : LexemesOrderly low high lexemes) {index other : Nat}
    {lexeme lexeme' : Lexeme} (found : lexemes[index]? = some lexeme)
    (found' : lexemes[other]? = some lexeme') (same : lexeme.start = lexeme'.start) :
    index = other := by
  rcases Nat.lt_trichotomy index other with behind | same_ | behind
  · exact absurd same (Nat.ne_of_lt (orderly.start_lt found found' behind))
  · exact same_
  · exact absurd same.symm (Nat.ne_of_lt (orderly.start_lt found' found behind))

end Edges

end Krl

import Krl.Proofs.Grammar.Nullable

/-!
# The passes end with what derives nothing

The passes over the table go on until one of them adds nothing. That happens, because each of
the others adds a nonterminal that has a production. What is known then is what derives the
text without tokens once the guards are taken away, and as derivations do not ask where in the
table a production stands, the order of the table decides how many passes there are, but not
what they find.
-/

namespace Krl

variable {N T K : Type}

/-- The production without its guard. -/
def Production.unguarded (production : Production N T K) : Production N T K :=
  { production with guard := none }

namespace Grammar

/-- The grammar without its guards. -/
def unguarded (grammar : Grammar N T K) : Grammar N T K :=
  { grammar with productions := grammar.productions.map Production.unguarded }

/-- What is erased stays so in a grammar with more productions. -/
theorem Erases.mono {grammar larger : Grammar N T K} {symbols : List (Symbol N T)}
    (erased : grammar.Erases symbols)
    (grown : ∀ production ∈ grammar.productions, production ∈ larger.productions) :
    larger.Erases symbols := by
  induction erased with
  | nil => exact .nil
  | cons listed _ _ innerIh restIh => exact .cons (grown _ listed) innerIh restIh

variable [DecidableEq N]

/-- Passes over the table, one after another, up to the first one that adds nothing. -/
inductive Saturates (productions : List (Production N T K)) :
    (passes : Nat) → (known result : List N) → Prop where
  | settled {known : List N} (same : nullablePass productions known = known) :
      Saturates productions 1 known known
  | again {passes : Nat} {known result : List N}
      (grown : nullablePass productions known ≠ known)
      (later : Saturates productions passes (nullablePass productions known) result) :
      Saturates productions (passes + 1) known result

section Passes

variable {productions : List (Production N T K)}

theorem Saturates.unique {passes passes' : Nat} {known result result' : List N}
    (one : Saturates productions passes known result)
    (other : Saturates productions passes' known result') :
    passes' = passes ∧ result' = result := by
  induction one generalizing passes' result' with
  | settled same =>
      cases other with
      | settled _ => exact ⟨rfl, rfl⟩
      | again grown _ => exact absurd same grown
  | again grown _ ih =>
      cases other with
      | settled same => exact absurd same grown
      | again _ later =>
          obtain ⟨rfl, rfl⟩ := ih later
          exact ⟨rfl, rfl⟩

/-- A pass over a closed set adds nothing. -/
theorem IsClosed.nullablePass_eq {known : List N} (closed : IsClosed productions known) :
    nullablePass productions known = known := by
  induction productions with
  | nil => rfl
  | cons production others ih =>
      rw [nullablePass_cons, if_neg]
      · exact ih fun other listed => closed other (List.mem_cons_of_mem _ listed)
      · intro added
        rw [Bool.and_eq_true, Bool.not_eq_true', List.contains_eq_mem,
          decide_eq_false_iff_not] at added
        exact added.1 (closed production List.mem_cons_self added.2)

/-- A selection is saturated by as many passes as there are productions left. The induction
is on these. -/
theorem IsSelection.saturates {fuel : Nat} {known : List N}
    (selection : IsSelection productions known)
    (enough : productions.length ≤ fuel + known.length) :
    ∃ passes ≤ fuel + 1,
      Saturates productions passes known (nullableFrom productions fuel known) := by
  induction fuel generalizing known with
  | zero =>
      have closed := selection.isClosed (by omega)
      exact ⟨1, by omega, .settled closed.nullablePass_eq⟩
  | succ fuel ih =>
      rw [nullableFrom]
      split
      next same =>
          have closed := isClosed_of_nullablePass productions known same
          exact ⟨1, by omega, .settled closed.nullablePass_eq⟩
      next differ =>
          have longer := length_le_nullablePass productions known
          obtain ⟨passes, few, later⟩ := ih selection.pass (by omega)
          have grown := fun same => differ (congrArg List.length same)
          exact ⟨passes + 1, by omega, .again grown later⟩

end Passes

section Exactness

theorem nullablePass_unguarded (productions : List (Production N T K)) (known : List N) :
    nullablePass (productions.map Production.unguarded) known = nullablePass productions known := by
  rw [nullablePass, List.foldl_map]
  rfl

theorem nullableFrom_unguarded (productions : List (Production N T K)) (fuel : Nat)
    (known : List N) :
    nullableFrom (productions.map Production.unguarded) fuel known =
      nullableFrom productions fuel known := by
  induction fuel generalizing known with
  | zero => rfl
  | succ fuel ih => rw [nullableFrom, nullableFrom, nullablePass_unguarded, ih]

/-- The passes do not look at guards. -/
theorem nullable_unguarded (grammar : Grammar N T K) :
    grammar.unguarded.nullable = grammar.nullable := by
  rw [nullable, nullable, unguarded, List.length_map]
  exact nullableFrom_unguarded grammar.productions _ []

theorem erasesFreely_unguarded (grammar : Grammar N T K) : grammar.unguarded.ErasesFreely := by
  intro production listed _
  obtain ⟨_, _, rfl⟩ := List.mem_map.mp listed
  rfl

theorem mem_nullable_iff_erases (grammar : Grammar N T K) {name : N} :
    name ∈ grammar.nullable ↔ grammar.Erases [.nonterminal name] :=
  ⟨erases_of_mem_nullable grammar name, Erases.mem_nullable⟩

/-- What is found is what derives the text without tokens when there are no guards. -/
theorem mem_nullable_iff_isDerivation (grammar : Grammar N T K) {name : N} :
    name ∈ grammar.nullable ↔ ∃ tree, grammar.unguarded.IsDerivation [] name 0 0 tree := by
  rw [← nullable_unguarded, mem_nullable_iff_erases]
  constructor
  · intro erased
    obtain ⟨trees, derived⟩ := erased.derives (erasesFreely_unguarded grammar) [] 0
    obtain ⟨tree, rfl⟩ := List.length_eq_one_iff.mp derived.length_eq
    exact ⟨tree, derived⟩
  · rintro ⟨tree, derivation⟩
    exact derivation.erases (Nat.le_refl 0)

/-- Tables of the same productions find the same nonterminals. -/
theorem mem_nullable_congr {grammar other : Grammar N T K}
    (same : ∀ production, production ∈ other.productions ↔ production ∈ grammar.productions)
    {name : N} : name ∈ other.nullable ↔ name ∈ grammar.nullable := by
  rw [mem_nullable_iff_erases, mem_nullable_iff_erases]
  exact ⟨fun erased => erased.mono fun _ listed => (same _).mp listed,
    fun erased => erased.mono fun _ listed => (same _).mpr listed⟩

/-- The passes over a table come to an end, at most one of them for each production and one
that adds nothing. They find the nonterminals that derive the text without tokens, guards left
aside, and they find the same ones in whatever order the productions stand. -/
theorem saturates_nullable_exactly (grammar : Grammar N T K) :
    (∃ passes ≤ grammar.productions.length + 1, ∀ count known,
      Saturates grammar.productions count [] known ↔
        count = passes ∧ known = grammar.nullable) ∧
    (∀ name, name ∈ grammar.nullable ↔
      ∃ tree, grammar.unguarded.IsDerivation [] name 0 0 tree) ∧
    ∀ table : List (Production N T K), table.Perm grammar.productions →
      ∀ name, name ∈ nullable { grammar with productions := table } ↔ name ∈ grammar.nullable := by
  refine ⟨?_, fun name => mem_nullable_iff_isDerivation grammar, ?_⟩
  · have nothing : IsSelection grammar.productions [] := ⟨List.nodup_nil, List.nil_subset _⟩
    obtain ⟨passes, few, saturates⟩ :=
      nothing.saturates (Nat.le_add_right grammar.productions.length 0)
    refine ⟨passes, few, fun count known => ⟨saturates.unique, ?_⟩⟩
    rintro ⟨rfl, rfl⟩
    exact saturates
  · intro table reordered name
    exact mem_nullable_congr fun _ => reordered.mem_iff

/-- Halves that are empty behind two detours, under a guard that lets no match stand, and a
nonterminal that derives itself or a token. -/
def detours : Grammar (Fin 4) Unit Unit where
  productions := [
    ⟨0, [.nonterminal 1, .nonterminal 1], some fun _ _ _ => false⟩,
    ⟨1, [.nonterminal 2], none⟩,
    ⟨2, [], none⟩,
    ⟨3, [.nonterminal 0, .nonterminal 3], none⟩,
    ⟨3, [.terminal ()], none⟩]
  accepts := fun _ _ => true

theorem saturates_nullable_exactly_detours :
    detours.productions.reverse.Perm detours.productions ∧
      Saturates detours.productions 4 [] detours.nullable ∧
      (∃ tree, detours.unguarded.IsDerivation [] 0 0 0 tree) ∧
      (¬∃ tree, detours.unguarded.IsDerivation [] 3 0 0 tree) ∧
      (0 : Fin 4) ∈ nullable { detours with productions := detours.productions.reverse } := by
  obtain ⟨_, empty, anyOrder⟩ := saturates_nullable_exactly detours
  have reordered := List.reverse_perm detours.productions
  have four : Saturates detours.productions 4 [] detours.nullable :=
    .again (by decide) (.again (by decide) (.again (by decide) (.settled (by decide))))
  refine ⟨reordered, four, (empty 0).mp (by decide), ?_, (anyOrder _ reordered 0).mpr (by decide)⟩
  rw [← empty 3]
  decide

end Exactness

end Grammar

end Krl

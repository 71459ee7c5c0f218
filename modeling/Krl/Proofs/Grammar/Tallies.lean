import Krl.Proofs.Grammar.Closure
import Mathlib.Data.Set.Card
import Mathlib.Order.CompletePartialOrder

/-!
# What is tallied

A tally is right about a set of readings if it has their number, and one of them as its
sample unless there are none. The readings of an item are the derivations of the symbols
before its dot. They fall apart into those of the ways to take the item apart, and no
reading belongs to two of these.
-/

namespace Krl

namespace Tally

/-- The tally has the number of some readings, and one of them unless there are none. -/
structure Counts (tally : Tally) (readings : Set (List Derivation)) : Prop where
  count : readings.encard = tally.count
  sample : tally.count ≠ 0 → tally.sample ∈ readings

theorem counts_none : none.Counts ∅ :=
  ⟨Set.encard_empty, fun some_ => absurd rfl some_⟩

theorem counts_nothing : nothing.Counts {[]} :=
  ⟨Set.encard_singleton _, fun _ => rfl⟩

theorem Counts.count_eq_zero_iff {tally : Tally} {readings : Set (List Derivation)}
    (counts : tally.Counts readings) : tally.count = 0 ↔ readings = ∅ := by
  rw [← Set.encard_eq_zero, counts.count, Nat.cast_eq_zero]

theorem Counts.eq_of_count_eq_one {tally : Tally} {readings : Set (List Derivation)}
    (counts : tally.Counts readings) (one : tally.count = 1) : readings = {tally.sample} := by
  have single : readings.encard = 1 := by
    rw [counts.count, one, Nat.cast_one]
  obtain ⟨reading, rfl⟩ := Set.encard_eq_one.mp single
  have sample := counts.sample (by omega)
  rw [Set.mem_singleton_iff.mp sample]

theorem Counts.either {left right : Tally} {first second : Set (List Derivation)}
    (one : left.Counts first) (other : right.Counts second) (apart : Disjoint first second) :
    (left.either right).Counts (first ∪ second) where
  count := by
    rw [Set.encard_union_eq apart, one.count, other.count, Tally.either, Nat.cast_add]
  sample := by
    intro some_
    simp only [Tally.either] at some_ ⊢
    split
    next empty => exact .inr (other.sample (by omega))
    next nonempty => exact .inl (one.sample nonempty)

/-- Readings of one part followed by those of another. The other part does not matter
if the first one has no reading. -/
theorem Counts.both {left right : Tally} {first second : Set (List Derivation)}
    (one : left.Counts first) (other : first.Nonempty → right.Counts second)
    (even : ∀ trees ∈ first, ∀ trees' ∈ first, trees.length = trees'.length) :
    (left.both right).Counts (Set.image2 (· ++ ·) first second) := by
  rcases first.eq_empty_or_nonempty with rfl | nonempty
  · have zero := one.count_eq_zero_iff.mpr rfl
    rw [Set.image2_empty_left]
    exact ⟨by simp [Tally.both, zero], fun some_ => absurd (by simp [Tally.both, zero]) some_⟩
  · have other := other nonempty
    constructor
    · have separate : Set.InjOn (fun pair : List Derivation × List Derivation => pair.1 ++ pair.2)
          (first ×ˢ second) := by
        rintro ⟨trees, others⟩ ⟨member, _⟩ ⟨trees', others'⟩ ⟨member', _⟩ same
        obtain ⟨rfl, rfl⟩ := List.append_inj same (even trees member trees' member')
        rfl
      rw [← Set.image_prod, separate.encard_image, Set.encard_prod, one.count, other.count,
        Tally.both, Nat.cast_mul]
    · intro some_
      have factors := Nat.mul_ne_zero_iff.mp some_
      exact ⟨_, one.sample factors.1, _, other.sample factors.2, rfl⟩

/-- One tree over each reading. -/
theorem Counts.node {tally : Tally} {readings : Set (List Derivation)}
    (counts : tally.Counts readings) (production start stop : Nat) :
    Counts ⟨tally.count, [.node production start stop tally.sample]⟩
      ((fun trees => [.node production start stop trees]) '' readings) where
  count := by
    have injective : Function.Injective fun trees : List Derivation =>
        [Derivation.node production start stop trees] := by
      intro one other same
      simpa using same
    rw [injective.encard_image, counts.count]
  sample := fun some_ => ⟨_, counts.sample some_, rfl⟩

end Tally

namespace Grammar

variable {N T K : Type}

/-- The derivations of the symbols before the dot of an item. -/
def readings (grammar : Grammar N T K) (tokens : List K) (item : Item) (stop : Nat) :
    Set (List Derivation) :=
  {trees | ∃ production, grammar.productions[item.production]? = some production ∧
    grammar.Derives tokens (production.rhs.take item.dot) item.start stop trees}

/-- The trees over the last symbol of an item that is taken apart. -/
def lastReadings (grammar : Grammar N T K) (tokens : List K) (split : Split) (stop : Nat) :
    Set (List Derivation) :=
  match split.child with
  | none => {[.leaf split.middle]}
  | some child =>
      (fun trees => [.node child.production child.start stop trees]) ''
        grammar.readings tokens child stop

/-- The derivations that a way to take an item apart accounts for. -/
def splitReadings (grammar : Grammar N T K) (tokens : List K) (stop : Nat) (split : Split) :
    Set (List Derivation) :=
  Set.image2 (· ++ ·) (grammar.readings tokens split.before split.middle)
    (grammar.lastReadings tokens split stop)

variable {grammar : Grammar N T K} {tokens : List K}

theorem mem_readings_iff (item : Item) {stop : Nat} {production : Production N T K}
    (listed : grammar.productions[item.production]? = some production)
    {trees : List Derivation} :
    trees ∈ grammar.readings tokens item stop ↔
      grammar.Derives tokens (production.rhs.take item.dot) item.start stop trees := by
  constructor
  · rintro ⟨_, listed', derived⟩
    rw [listed] at listed'
    cases listed'
    exact derived
  · exact fun derived => ⟨production, listed, derived⟩

/-- All readings of an item are of the same length. -/
theorem length_eq_of_mem_readings {item : Item} {stop : Nat} {one other : List Derivation}
    (member : one ∈ grammar.readings tokens item stop)
    (member' : other ∈ grammar.readings tokens item stop) : one.length = other.length := by
  obtain ⟨production, listed, derived⟩ := member
  have derived' := (mem_readings_iff _ listed).mp member'
  rw [derived.length_eq, derived'.length_eq]

theorem readings_of_dot_eq_zero {item : Item} {stop : Nat} {production : Production N T K}
    (listed : grammar.productions[item.production]? = some production) (atStart : item.dot = 0) :
    grammar.readings tokens item stop = if item.start = stop then {[]} else ∅ := by
  ext trees
  rw [mem_readings_iff _ listed, atStart, List.take_zero, derives_nil_iff]
  split <;> simp [*]

/-- A reading of an item is one of the item before its last symbol and one of that
symbol. -/
theorem mem_readings_iff_of_last {item : Item} {stop : Nat} {production : Production N T K}
    {symbol : Symbol N T} (listed : grammar.productions[item.production]? = some production)
    (found : production.rhs[item.dot - 1]? = some symbol) (moved : 0 < item.dot)
    {trees : List Derivation} :
    trees ∈ grammar.readings tokens item stop ↔
      ∃ middle left right,
        left ∈ grammar.readings tokens { item with dot := item.dot - 1 } middle ∧
          grammar.Derives tokens [symbol] middle stop right ∧ left ++ right = trees := by
  have taken : production.rhs.take item.dot =
      production.rhs.take (item.dot - 1) ++ [symbol] := by
    conv_lhs => rw [← Nat.sub_add_cancel moved, List.take_add_one, found, Option.toList_some]
  have before : ∀ middle left,
      left ∈ grammar.readings tokens { item with dot := item.dot - 1 } middle ↔
        grammar.Derives tokens (production.rhs.take (item.dot - 1)) item.start middle left :=
    fun middle left => mem_readings_iff { item with dot := item.dot - 1 } listed
  rw [mem_readings_iff _ listed, taken]
  constructor
  · intro derived
    obtain ⟨middle, left, right, rfl, first, last⟩ := derived.split _
    exact ⟨middle, left, right, (before middle left).mpr first, last, rfl⟩
  · rintro ⟨middle, left, right, first, last, rfl⟩
    exact ((before middle left).mp first).append last

/-- The derivations of a nonterminal, as children of a node above. -/
def wholes (grammar : Grammar N T K) (tokens : List K) (name : N) (here stop : Nat) :
    Set (List Derivation) :=
  (fun tree => [tree]) '' {tree | grammar.IsDerivation tokens name here stop tree}

theorem mem_wholes_iff {name : N} {here stop : Nat} {trees : List Derivation} :
    trees ∈ grammar.wholes tokens name here stop ↔
      grammar.Derives tokens [.nonterminal name] here stop trees := by
  constructor
  · rintro ⟨tree, derivation, rfl⟩
    exact derivation
  · intro derived
    obtain ⟨tree, rfl⟩ := List.length_eq_one_iff.mp derived.length_eq
    exact ⟨tree, derived, rfl⟩

theorem count_le_one {tally : Tally} {name : N} {here stop : Nat}
    (counts : tally.Counts (grammar.wholes tokens name here stop))
    (single : {tree | grammar.IsDerivation tokens name here stop tree}.Subsingleton) :
    tally.count ≤ 1 := by
  have most := Set.encard_le_one_iff_subsingleton.mpr (single.image fun tree => [tree])
  rw [show (fun tree => [tree]) '' _ = grammar.wholes tokens name here stop from rfl,
    counts.count] at most
  exact Nat.cast_le_one.mp most

/-- The derivations of a nonterminal that begin with a completed item. -/
def itemWholes (grammar : Grammar N T K) (tokens : List K) (here stop : Nat) (item : Item) :
    Set (List Derivation) :=
  (fun trees => [.node item.production here stop trees]) '' grammar.readings tokens item stop

/-- The class of tokens before the dot of an item that stands has matched the last token. -/
theorem Stands.last_token {start : N} {production : Production N T K} {item : Item}
    {middle stop : Nat} {expected : T}
    (stands : grammar.Stands tokens start production item stop)
    (found : production.rhs[item.dot - 1]? = some (.terminal expected)) (moved : 0 < item.dot)
    (atStop : middle + 1 = stop) :
    grammar.Derives tokens [.terminal expected] middle stop [.leaf middle] := by
  obtain ⟨trees, derived⟩ := stands.derived
  obtain ⟨middle', _, _, _, final, _⟩ := (mem_readings_iff_of_last stands.listed found moved).mp
    ((mem_readings_iff _ stands.listed).mpr derived)
  obtain ⟨same, _, taken⟩ := derives_terminal_iff.mp final
  obtain rfl : middle = middle' := by omega
  exact derives_terminal_iff.mpr ⟨same, rfl, taken⟩

variable [DecidableEq N]

/-- How an item whose last symbol is a class of tokens is taken apart. -/
theorem splits_of_terminal {chart : Chart N} {item : Item} {stop : Nat}
    {production : Production N T K} {expected : T}
    (listed : grammar.productions[item.production]? = some production)
    (found : production.rhs[item.dot - 1]? = some (.terminal expected)) :
    grammar.splits chart item stop =
      if item.start < stop then [⟨{ item with dot := item.dot - 1 }, stop - 1, none⟩] else [] := by
  simp only [splits, listed, Option.bind_some, found]

/-- How an item whose last symbol is a nonterminal is taken apart. -/
theorem splits_of_nonterminal {chart : Chart N} {set : ItemSet N} {item : Item} {stop : Nat}
    {production : Production N T K} {name : N} (closed : chart[stop]? = some set)
    (listed : grammar.productions[item.production]? = some production)
    (found : production.rhs[item.dot - 1]? = some (.nonterminal name)) :
    grammar.splits chart item stop = (set.completed name).filterMap fun child =>
      if item.start ≤ child.start then
        some ⟨{ item with dot := item.dot - 1 }, child.start, some child⟩
      else
        none := by
  simp only [splits, listed, Option.bind_some, found, closed]

section Exact

variable {start : N} {chart : Chart N}

theorem Exact.nodup_completed {set : ItemSet N} {here : Nat}
    (exact : grammar.Exact tokens start set here) (name : N) : (set.completed name).Nodup := by
  rw [ItemSet.completed, exact.complete]
  apply List.Nodup.filterMap
  · rintro ⟨matched, item⟩ ⟨matched', item'⟩ entry found found'
    simp only [Option.mem_def, Option.ite_none_right_eq_some, Option.some.injEq] at found found'
    obtain ⟨rfl, rfl⟩ := found
    obtain ⟨rfl, rfl⟩ := found'
    rfl
  · apply List.Nodup.filterMap _ exact.distinct
    intro item item' entry found found'
    obtain ⟨_, _, _, rfl⟩ := matching_eq_some_iff.mp found
    obtain ⟨_, _, _, same⟩ := matching_eq_some_iff.mp found'
    exact (Prod.mk.inj same).2

theorem Exact.mem_completed_iff {set : ItemSet N} {here : Nat}
    (exact : grammar.Exact tokens start set here) {name : N} {item : Item} :
    item ∈ set.completed name ↔ ∃ production,
      grammar.Stands tokens start production item here ∧
        item.dot = production.rhs.length ∧ production.lhs = name := by
  rw [Grammar.mem_completed_iff exact.complete, exact.listed, exact.stands_iff]
  constructor
  · rintro ⟨⟨production, stands⟩, _, listed, atEnd, lhs⟩
    rw [stands.listed] at listed
    cases listed
    exact ⟨production, stands,
      Nat.le_antisymm stands.inside (List.getElem?_eq_none_iff.mp atEnd), lhs⟩
  · rintro ⟨production, stands, atEnd, lhs⟩
    exact ⟨⟨production, stands⟩, production, stands.listed,
      List.getElem?_eq_none (Nat.le_of_eq atEnd.symm), lhs⟩

/-- The ways to take apart an item of an exact chart: its last symbol is a class of
tokens and matches the last token, or a nonterminal with a completed item. -/
theorem ExactChart.mem_splits_iff (exact : grammar.ExactChart tokens start chart) {stop : Nat}
    (inside : stop < chart.size) {item : Item} {production : Production N T K}
    (stands : grammar.Stands tokens start production item stop) (moved : 0 < item.dot)
    {split : Split} :
    split ∈ grammar.splits chart item stop ↔
      split.before = { item with dot := item.dot - 1 } ∧ item.start ≤ split.middle ∧
        ((∃ expected, production.rhs[item.dot - 1]? = some (.terminal expected) ∧
            split.middle + 1 = stop ∧ split.child = none) ∨
          ∃ inner child, production.rhs[item.dot - 1]? = some (.nonterminal inner.lhs) ∧
            split.child = some child ∧ split.middle = child.start ∧
              grammar.Stands tokens start inner child stop ∧ child.dot = inner.rhs.length) := by
  have bound : item.dot - 1 < production.rhs.length := by
    have := stands.inside
    omega
  have closed : chart[stop]? = some chart[stop] := Array.getElem?_eq_getElem inside
  cases found : production.rhs[item.dot - 1]? with
  | none => exact absurd (List.getElem?_eq_none_iff.mp found) (by omega)
  | some symbol =>
  cases symbol with
  | terminal expected =>
      rw [splits_of_terminal stands.listed found]
      obtain ⟨before, middle, child⟩ := split
      split
      · simp only [List.mem_singleton, Split.mk.injEq]
        constructor
        · rintro ⟨rfl, rfl, rfl⟩
          exact ⟨rfl, by omega, .inl ⟨expected, rfl, by omega, rfl⟩⟩
        · rintro ⟨rfl, _, ⟨_, _, atStop, rfl⟩ | ⟨_, _, impossible, _⟩⟩
          · exact ⟨rfl, by omega, rfl⟩
          · cases impossible
      · constructor
        · intro absent
          cases absent
        · rintro ⟨_, within, ⟨_, _, atStop, _⟩ | ⟨_, _, impossible, _⟩⟩
          · simp only at within atStop
            omega
          · cases impossible
  | nonterminal name =>
      have set := exact stop _ closed
      rw [splits_of_nonterminal closed stands.listed found, List.mem_filterMap]
      simp only [set.mem_completed_iff, Option.ite_none_right_eq_some, Option.some.injEq]
      constructor
      · rintro ⟨child, ⟨inner, standing, complete, rfl⟩, within, rfl⟩
        exact ⟨rfl, within, .inr ⟨inner, child, rfl, rfl, rfl, standing, complete⟩⟩
      · rintro ⟨before, within, ⟨_, impossible, _⟩ | ⟨inner, child, same, isChild, middle, standing,
          complete⟩⟩
        · cases impossible
        · cases same
          obtain ⟨_, _, _⟩ := split
          cases before
          cases isChild
          cases middle
          exact ⟨child, ⟨inner, standing, complete, rfl⟩, within, rfl⟩

/-- The readings of an item of an exact chart are those of the ways to take it apart. -/
theorem ExactChart.readings_eq (exact : grammar.ExactChart tokens start chart) {stop : Nat}
    (inside : stop < chart.size) {item : Item} {production : Production N T K}
    (stands : grammar.Stands tokens start production item stop) (moved : 0 < item.dot) :
    grammar.readings tokens item stop =
      {trees | ∃ split ∈ grammar.splits chart item stop,
        trees ∈ grammar.splitReadings tokens stop split} := by
  have bound : item.dot - 1 < production.rhs.length := by
    have := stands.inside
    omega
  obtain ⟨symbol, found⟩ : ∃ symbol, production.rhs[item.dot - 1]? = some symbol :=
    ⟨_, List.getElem?_eq_getElem bound⟩
  ext trees
  rw [mem_readings_iff_of_last stands.listed found moved, Set.mem_ofPred_eq]
  constructor
  · rintro ⟨middle, left, right, first, last, rfl⟩
    have derived : grammar.Derives tokens (production.rhs.take (item.dot - 1)) item.start middle
        left :=
      (mem_readings_iff { item with dot := item.dot - 1 } stands.listed).mp first
    cases symbol with
    | terminal expected =>
        obtain ⟨rfl, rfl, _⟩ := derives_terminal_iff.mp last
        refine ⟨⟨_, middle, none⟩, (exact.mem_splits_iff inside stands moved).mpr
          ⟨rfl, derived.le, .inl ⟨expected, found, rfl, rfl⟩⟩, ?_⟩
        exact ⟨left, first, _, rfl, rfl⟩
    | nonterminal name =>
        obtain ⟨index, inner, children, listed, rfl, admitted, rest, rfl⟩ :=
          derives_nonterminal_iff.mp last
        have standing : grammar.Stands tokens start inner ⟨index, inner.rhs.length, middle⟩ stop :=
          ⟨listed, Nat.le_refl _, .next stands.listed found stands.predicted derived,
            ⟨children, by rwa [List.take_length]⟩, fun _ => admitted⟩
        refine ⟨⟨_, middle, some ⟨index, inner.rhs.length, middle⟩⟩,
          (exact.mem_splits_iff inside stands moved).mpr
            ⟨rfl, derived.le, .inr ⟨inner, _, found, rfl, rfl, standing, rfl⟩⟩, ?_⟩
        refine ⟨left, first, _, ⟨children, ?_, rfl⟩, rfl⟩
        rw [mem_readings_iff _ listed, List.take_length]
        exact rest
  · rintro ⟨split, member, left, first, right, last, rfl⟩
    obtain ⟨before, _, ⟨expected, found', atStop, leaf⟩ |
      ⟨inner, child, found', isChild, middle, standing, complete⟩⟩ :=
        (exact.mem_splits_iff inside stands moved).mp member
    · -- The last token is of the class, since some derivation leads to the item.
      rw [found] at found'
      cases found'
      rw [lastReadings, leaf, Set.mem_singleton_iff] at last
      rw [before] at first
      rw [last]
      exact ⟨split.middle, left, _, first, stands.last_token found moved atStop, rfl⟩
    · rw [found] at found'
      cases found'
      simp only [lastReadings, isChild] at last
      obtain ⟨children, derived, rfl⟩ := last
      rw [mem_readings_iff _ standing.listed, complete, List.take_length] at derived
      rw [before] at first
      refine ⟨split.middle, left, _, first, ?_, rfl⟩
      rw [middle]
      exact derives_nonterminal_iff.mpr
        ⟨_, inner, children, standing.listed, rfl, standing.admitted complete, derived, rfl⟩

/-- An item of an exact chart is taken apart in each way once. -/
theorem ExactChart.nodup_splits (exact : grammar.ExactChart tokens start chart) {stop : Nat}
    (inside : stop < chart.size) {item : Item} {production : Production N T K}
    (stands : grammar.Stands tokens start production item stop) (moved : 0 < item.dot) :
    (grammar.splits chart item stop).Nodup := by
  have closed : chart[stop]? = some chart[stop] := Array.getElem?_eq_getElem inside
  cases found : production.rhs[item.dot - 1]? with
  | none =>
      have := stands.inside
      exact absurd (List.getElem?_eq_none_iff.mp found) (by omega)
  | some symbol =>
  cases symbol with
  | terminal expected =>
      rw [splits_of_terminal stands.listed found]
      split <;> simp
  | nonterminal name =>
      rw [splits_of_nonterminal closed stands.listed found]
      apply List.Nodup.filterMap _ ((exact stop _ closed).nodup_completed name)
      intro child child' split one other
      simp only [Option.mem_def, Option.ite_none_right_eq_some, Option.some.injEq] at one other
      have same := one.2.trans other.2.symm
      injection same with _ _ same
      exact Option.some.inj same

/-- No reading belongs to two ways to take an item apart. -/
theorem ExactChart.splits_apart (exact : grammar.ExactChart tokens start chart) {stop : Nat}
    (inside : stop < chart.size) {item : Item} {production : Production N T K}
    (stands : grammar.Stands tokens start production item stop) (moved : 0 < item.dot) :
    (grammar.splits chart item stop).Pairwise fun one other =>
      Disjoint (grammar.splitReadings tokens stop one)
        (grammar.splitReadings tokens stop other) := by
  apply (exact.nodup_splits inside stands moved).pairwise_of_forall_ne
  intro one member other member' differ
  rw [Set.disjoint_left]
  rintro trees ⟨left, _, last, ends, rfl⟩ ⟨left', _, last', ends', same⟩
  -- Both readings end in the same tree, which tells where the last symbol starts and how
  -- it is derived.
  apply differ
  obtain ⟨before, _, ⟨_, found, atStop, leaf⟩ | ⟨inner, child, found, isChild, middle, standing,
    complete⟩⟩ := (exact.mem_splits_iff inside stands moved).mp member
  · obtain ⟨before', _, ⟨_, _, atStop', leaf'⟩ | ⟨_, _, found', _⟩⟩ :=
      (exact.mem_splits_iff inside stands moved).mp member'
    · cases one
      cases other
      simp_all
      omega
    · rw [found] at found'
      cases found'
  · obtain ⟨before', _, ⟨_, found', _⟩ | ⟨inner', child', found', isChild', middle', standing',
      complete'⟩⟩ := (exact.mem_splits_iff inside stands moved).mp member'
    · rw [found] at found'
      cases found'
    · simp only [lastReadings, isChild] at ends
      simp only [lastReadings, isChild'] at ends'
      obtain ⟨children, _, rfl⟩ := ends
      obtain ⟨children', _, rfl⟩ := ends'
      have last := (List.append_inj' same rfl).2
      injection last with last
      injection last with production start _ _
      have listed := standing.listed
      rw [← production, standing'.listed] at listed
      cases listed
      obtain rfl : child = child' := by
        cases child
        cases child'
        simp_all
      cases one
      cases other
      simp_all

end Exact

end Grammar

end Krl

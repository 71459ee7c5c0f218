import Krl.Grammar.Chart
import Krl.Proofs.Grammar.Nullable

/-!
# What the items of a chart stand for

An item belongs into the set of a boundary when a reading from left to right can
have come to it: its production is predicted where the item starts, and the
symbols before its dot derive the tokens from there up to the boundary. Both
notions are stated with derivations only. Whatever extends such an item by one
symbol gives another one, unless the guard of the completed production objects.
-/

namespace Krl

namespace Grammar

variable {N T K : Type}

/-- The symbol behind the dot of an item. -/
def symbolAt (grammar : Grammar N T K) (item : Item) : Option (Symbol N T) :=
  (grammar.productions[item.production]?).bind fun production => production.rhs[item.dot]?

theorem symbolAt_eq_some_iff {grammar : Grammar N T K} {item : Item} {symbol : Symbol N T} :
    grammar.symbolAt item = some symbol ↔
      ∃ production, grammar.productions[item.production]? = some production ∧
        production.rhs[item.dot]? = some symbol := by
  rw [symbolAt, Option.bind_eq_some_iff]

/-- A guard objects to a completed match only. -/
theorem vetoes_eq_false_iff {grammar : Grammar N T K} {tokens : List K} {stop : Nat}
    (item : Item) {production : Production N T K}
    (listed : grammar.productions[item.production]? = some production) :
    grammar.vetoes tokens stop item = false ↔
      (item.dot = production.rhs.length → production.Admits tokens item.start stop) := by
  rw [vetoes, listed]
  simp only [Bool.and_eq_false_iff, beq_eq_false_iff_ne, Production.Admits]
  cases production.guard with
  | none => simp
  | some guard =>
      simp only [Option.any_some, Bool.not_eq_false', Option.mem_def, Option.some.injEq,
        forall_eq']
      exact imp_iff_not_or.symm

/-- A guard that lets an item stand behind some symbols lets it stand before them. -/
theorem vetoes_before {grammar : Grammar N T K} {tokens : List K}
    {symbols others : List (Symbol N T)} {middle stop : Nat} {trees : List Derivation}
    (derived : grammar.Derives tokens symbols middle stop trees) (item : Item)
    {production : Production N T K}
    (listed : grammar.productions[item.production]? = some production)
    (behind : production.rhs.drop item.dot = symbols ++ others)
    (admitted : grammar.vetoes tokens stop { item with dot := item.dot + symbols.length } = false) :
    grammar.vetoes tokens middle item = false := by
  rw [vetoes_eq_false_iff _ listed]
  intro atEnd
  rw [List.drop_of_length_le (Nat.le_of_eq atEnd.symm)] at behind
  obtain ⟨rfl, rfl⟩ := List.append_eq_nil_iff.mp behind.symm
  obtain ⟨rfl, _⟩ := derives_nil_iff.mp derived
  exact (vetoes_eq_false_iff _ listed).mp admitted atEnd

/-- A nonterminal may begin at an index: it is the start symbol at the first token,
or it comes next in a production that may begin earlier. -/
inductive Predicted (grammar : Grammar N T K) (tokens : List K) (start : N) : N → Nat → Prop where
  | first : Predicted grammar tokens start start 0
  | next {index : Nat} {production : Production N T K} {dot origin here : Nat} {name : N}
      {trees : List Derivation}
      (listed : grammar.productions[index]? = some production)
      (awaited : production.rhs[dot]? = some (.nonterminal name))
      (earlier : Predicted grammar tokens start production.lhs origin)
      (derived : grammar.Derives tokens (production.rhs.take dot) origin here trees) :
      Predicted grammar tokens start name here

/-- A reading from left to right can come to the item at a boundary. -/
structure Stands (grammar : Grammar N T K) (tokens : List K) (start : N)
    (production : Production N T K) (item : Item) (stop : Nat) : Prop where
  listed : grammar.productions[item.production]? = some production
  inside : item.dot ≤ production.rhs.length
  predicted : grammar.Predicted tokens start production.lhs item.start
  derived : ∃ trees,
    grammar.Derives tokens (production.rhs.take item.dot) item.start stop trees
  admitted : item.dot = production.rhs.length → production.Admits tokens item.start stop

section Stands

variable {grammar : Grammar N T K} {tokens : List K} {start : N}
  {production : Production N T K} {item : Item}

theorem Stands.start_le {stop : Nat} (stands : grammar.Stands tokens start production item stop) :
    item.start ≤ stop := by
  obtain ⟨trees, derived⟩ := stands.derived
  exact derived.le

theorem Stands.not_vetoed {stop : Nat}
    (stands : grammar.Stands tokens start production item stop) :
    grammar.vetoes tokens stop item = false :=
  (vetoes_eq_false_iff _ stands.listed).mpr stands.admitted

theorem Stands.atDot {stop : Nat} {symbol : Symbol N T}
    (stands : grammar.Stands tokens start production item stop)
    (awaits : grammar.symbolAt item = some symbol) : production.rhs[item.dot]? = some symbol := by
  rw [symbolAt, stands.listed] at awaits
  exact awaits

/-- An item stands as soon as its nonterminal is predicted. -/
theorem Predicted.stands {index here : Nat}
    (predicted : grammar.Predicted tokens start production.lhs here)
    (listed : grammar.productions[index]? = some production)
    (notVetoed : grammar.vetoes tokens here ⟨index, 0, here⟩ = false) :
    grammar.Stands tokens start production ⟨index, 0, here⟩ here where
  listed := listed
  inside := Nat.zero_le _
  predicted := predicted
  derived := ⟨[], .nil⟩
  admitted := (vetoes_eq_false_iff _ listed).mp notVetoed

/-- What an item awaits is predicted where the item stands. -/
theorem Stands.predicts {stop : Nat} {name : N}
    (stands : grammar.Stands tokens start production item stop)
    (awaited : production.rhs[item.dot]? = some (.nonterminal name)) :
    grammar.Predicted tokens start name stop := by
  obtain ⟨trees, derived⟩ := stands.derived
  exact .next stands.listed awaited stands.predicted derived

/-- The dot moves over a symbol that derives the tokens up to a later boundary. -/
theorem Stands.advance {middle stop : Nat} {symbol : Symbol N T} {trees : List Derivation}
    (stands : grammar.Stands tokens start production item middle)
    (awaited : production.rhs[item.dot]? = some symbol)
    (derived : grammar.Derives tokens [symbol] middle stop trees)
    (notVetoed : grammar.vetoes tokens stop item.advance = false) :
    grammar.Stands tokens start production item.advance stop where
  listed := stands.listed
  inside := (List.getElem?_eq_some_iff.mp awaited).1
  predicted := stands.predicted
  derived := derives_take_succ awaited stands.derived derived
  admitted := (vetoes_eq_false_iff item.advance stands.listed).mp notVetoed

/-- A completed item derives its nonterminal. -/
theorem Stands.derives_lhs {stop : Nat}
    (stands : grammar.Stands tokens start production item stop)
    (complete : production.rhs[item.dot]? = none) :
    ∃ trees, grammar.Derives tokens [.nonterminal production.lhs] item.start stop trees := by
  obtain ⟨children, derived⟩ := stands.derived
  have atEnd : item.dot = production.rhs.length :=
    Nat.le_antisymm stands.inside (List.getElem?_eq_none_iff.mp complete)
  rw [atEnd, List.take_length] at derived
  exact ⟨_, .node stands.listed (stands.admitted atEnd) derived .nil⟩

end Stands

/-- The items that productions of a table admit, given the index of the first. -/
def places (index : Nat) : List (Production N T K) → List (Nat × Nat)
  | [] => []
  | production :: others =>
      (List.range (production.rhs.length + 1)).map (fun dot => (index, dot)) ++
        places (index + 1) others

theorem length_places (index : Nat) (productions : List (Production N T K)) :
    (places index productions).length =
      productions.foldr (fun production total => production.rhs.length + 1 + total) 0 := by
  induction productions generalizing index with
  | nil => rfl
  | cons production others ih =>
      rw [places, List.length_append, List.length_map, List.length_range, ih, List.foldr_cons]

theorem mem_places (base : Nat) {index dot : Nat} {productions : List (Production N T K)}
    {production : Production N T K} (listed : productions[index]? = some production)
    (inside : dot ≤ production.rhs.length) : (base + index, dot) ∈ places base productions := by
  induction productions generalizing index base with
  | nil => cases listed
  | cons first others ih =>
      rw [places, List.mem_append]
      cases index with
      | zero =>
          cases listed
          left
          exact List.mem_map.mpr ⟨dot, List.mem_range.mpr (Nat.lt_succ_of_le inside), rfl⟩
      | succ index =>
          right
          have shifted : base + (index + 1) = base + 1 + index := by omega
          rw [shifted]
          exact ih _ listed

/-- All items that can stand at a boundary. -/
def candidates (grammar : Grammar N T K) (boundary : Nat) : List Item :=
  (List.range (boundary + 1)).flatMap fun start =>
    (places 0 grammar.productions).map fun place => ⟨place.1, place.2, start⟩

theorem length_candidates (grammar : Grammar N T K) (boundary : Nat) :
    (grammar.candidates boundary).length = grammar.capacity boundary := by
  rw [candidates, List.length_flatMap]
  simp only [List.length_map, length_places, List.map_const', List.sum_replicate_nat,
    List.length_range, capacity, positions]
  exact Nat.mul_comm _ _

theorem mem_candidates_of_listed {grammar : Grammar N T K} {production : Production N T K}
    {item : Item} {boundary : Nat}
    (listed : grammar.productions[item.production]? = some production)
    (inside : item.dot ≤ production.rhs.length) (started : item.start ≤ boundary) :
    item ∈ grammar.candidates boundary := by
  rw [candidates, List.mem_flatMap]
  refine ⟨item.start, List.mem_range.mpr (Nat.lt_succ_of_le started), ?_⟩
  have place := mem_places 0 listed inside
  rw [Nat.zero_add] at place
  exact List.mem_map.mpr ⟨_, place, rfl⟩

variable [DecidableEq N]

theorem mem_expansions_indices {name : N} {index base : Nat}
    {productions : List (Production N T K)} :
    index ∈ expansions.indices name base productions ↔
      ∃ offset production, index = base + offset ∧ productions[offset]? = some production ∧
        production.lhs = name := by
  induction productions generalizing base with
  | nil => simp [expansions.indices]
  | cons first others ih =>
      -- The index is that of the first production or an index into the others.
      have shifted : index ∈ expansions.indices name (base + 1) others ↔
          ∃ offset production, index = base + (offset + 1) ∧
            (first :: others)[offset + 1]? = some production ∧ production.lhs = name := by
        rw [ih]
        simp only [List.getElem?_cons_succ]
        constructor
        · rintro ⟨offset, production, rfl, rest⟩
          exact ⟨offset, production, by omega, rest⟩
        · rintro ⟨offset, production, rfl, rest⟩
          exact ⟨offset, production, by omega, rest⟩
      rw [expansions.indices]
      split
      next same =>
          rw [List.mem_cons, shifted]
          constructor
          · rintro (rfl | ⟨offset, production, found⟩)
            · exact ⟨0, first, rfl, rfl, same⟩
            · exact ⟨offset + 1, production, found⟩
          · rintro ⟨offset, production, rfl, found, matching⟩
            cases offset with
            | zero => exact .inl rfl
            | succ offset => exact .inr ⟨offset, production, rfl, found, matching⟩
      next different =>
          rw [shifted]
          constructor
          · rintro ⟨offset, production, found⟩
            exact ⟨offset + 1, production, found⟩
          · rintro ⟨offset, production, rfl, found, matching⟩
            cases offset with
            | zero =>
                rw [List.getElem?_cons_zero, Option.some.injEq] at found
                subst found
                exact absurd matching different
            | succ offset => exact ⟨offset, production, rfl, found, matching⟩

theorem mem_expansions_iff {grammar : Grammar N T K} {name : N} {index : Nat} :
    index ∈ grammar.expansions name ↔
      ∃ production, grammar.productions[index]? = some production ∧ production.lhs = name := by
  rw [expansions, mem_expansions_indices]
  simp

theorem mem_predictions_iff {grammar : Grammar N T K} {name : N} {here : Nat} {item : Item} :
    item ∈ grammar.predictions name here ↔
      ∃ index production, grammar.productions[index]? = some production ∧
        production.lhs = name ∧ item = ⟨index, 0, here⟩ := by
  rw [predictions, List.mem_map]
  constructor
  · rintro ⟨index, expands, rfl⟩
    obtain ⟨production, listed, lhs⟩ := mem_expansions_iff.mp expands
    exact ⟨index, production, listed, lhs, rfl⟩
  · rintro ⟨index, production, listed, lhs, rfl⟩
    exact ⟨index, mem_expansions_iff.mpr ⟨production, listed, lhs⟩, rfl⟩

end Grammar

end Krl

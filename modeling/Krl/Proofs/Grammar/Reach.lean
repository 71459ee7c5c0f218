import Krl.Proofs.Grammar.Agenda

/-!
# What the steps of a chart reach

The items of a chart are those that its steps reach from the productions of the start symbol,
whatever guards the grammar has. A nonterminal that can match nothing is moved over without
asking the guards. If these cannot object to the match of nothing, what is reached is just
what stands.
-/

namespace Krl

namespace Grammar

variable {N T K : Type} [DecidableEq N]

/-- The steps of a chart reach an item at a boundary. Only phrases that cover tokens are
completed here: one that covers none has been moved over before. -/
inductive Reaches (grammar : Grammar N T K) (tokens : List K) (start : N) : Item → Nat → Prop where
  | first {item : Item} (begins : item ∈ grammar.predictions start 0)
      (admitted : grammar.vetoes tokens 0 item = false) : Reaches grammar tokens start item 0
  | predict {item other : Item} {name : N} {here : Nat}
      (outer : Reaches grammar tokens start item here)
      (awaits : grammar.symbolAt item = some (.nonterminal name))
      (begins : other ∈ grammar.predictions name here)
      (admitted : grammar.vetoes tokens here other = false) :
      Reaches grammar tokens start other here
  | skip {item : Item} {name : N} {here : Nat} (outer : Reaches grammar tokens start item here)
      (awaits : grammar.symbolAt item = some (.nonterminal name))
      (nullable : name ∈ grammar.nullable)
      (admitted : grammar.vetoes tokens here item.advance = false) :
      Reaches grammar tokens start item.advance here
  | shift {item : Item} {expected : T} {token : K} {here : Nat}
      (outer : Reaches grammar tokens start item here)
      (awaits : grammar.symbolAt item = some (.terminal expected))
      (found : tokens[here]? = some token) (accepted : grammar.accepts expected token = true)
      (admitted : grammar.vetoes tokens (here + 1) item.advance = false) :
      Reaches grammar tokens start item.advance (here + 1)
  | complete {item parent : Item} {production : Production N T K} {here : Nat}
      (inner : Reaches grammar tokens start item here)
      (listed : grammar.productions[item.production]? = some production)
      (atEnd : production.rhs[item.dot]? = none) (proper : item.start < here)
      (outer : Reaches grammar tokens start parent item.start)
      (awaits : grammar.symbolAt parent = some (.nonterminal production.lhs))
      (admitted : grammar.vetoes tokens here parent.advance = false) :
      Reaches grammar tokens start parent.advance here

/-- Some item that is reached moves over the token at an index. -/
def Passes (grammar : Grammar N T K) (tokens : List K) (start : N) (here : Nat) : Prop :=
  ∃ item expected token, grammar.Reaches tokens start item here ∧
    grammar.symbolAt item = some (.terminal expected) ∧ tokens[here]? = some token ∧
      grammar.accepts expected token = true ∧ grammar.vetoes tokens (here + 1) item.advance = false

section Reaches

variable {grammar : Grammar N T K} {tokens : List K} {start : N} {item : Item} {here : Nat}

theorem Reaches.start_le (reached : grammar.Reaches tokens start item here) :
    item.start ≤ here := by
  induction reached with
  | first begins _ | predict _ _ begins _ =>
      obtain ⟨_, _, _, _, rfl⟩ := mem_predictions_iff.mp begins
      exact Nat.le_refl _
  | skip _ _ _ _ ih => exact ih
  | shift _ _ _ _ _ ih => exact Nat.le_succ_of_le ih
  | complete _ _ _ proper _ _ _ _ ih => exact Nat.le_trans ih (Nat.le_of_lt proper)

/-- What is reached is a place in a production. -/
theorem Reaches.listed (reached : grammar.Reaches tokens start item here) :
    ∃ production, grammar.productions[item.production]? = some production ∧
      item.dot ≤ production.rhs.length := by
  have advance {item : Item} {symbol : Symbol N T} (awaits : grammar.symbolAt item = some symbol) :
      ∃ production, grammar.productions[item.advance.production]? = some production ∧
        item.advance.dot ≤ production.rhs.length := by
    obtain ⟨production, listed, atDot⟩ := symbolAt_eq_some_iff.mp awaits
    exact ⟨production, listed, (List.getElem?_eq_some_iff.mp atDot).1⟩
  cases reached with
  | first begins _ | predict _ _ begins _ =>
      obtain ⟨_, production, listed, _, rfl⟩ := mem_predictions_iff.mp begins
      exact ⟨production, listed, Nat.zero_le _⟩
  | skip _ awaits _ _ => exact advance awaits
  | shift _ awaits _ _ _ => exact advance awaits
  | complete _ _ _ _ _ awaits _ => exact advance awaits

theorem Reaches.mem_candidates (reached : grammar.Reaches tokens start item here) :
    item ∈ grammar.candidates here := by
  obtain ⟨production, listed, inside⟩ := reached.listed
  exact mem_candidates_of_listed listed inside reached.start_le

/-- What has been moved over without a token can match nothing. -/
theorem Reaches.erases (reached : grammar.Reaches tokens start item here)
    (empty : here ≤ item.start) {production : Production N T K}
    (listed : grammar.productions[item.production]? = some production) :
    grammar.Erases (production.rhs.take item.dot) := by
  induction reached with
  | first begins _ | predict _ _ begins _ =>
      obtain ⟨_, _, _, _, rfl⟩ := mem_predictions_iff.mp begins
      exact .nil
  | @skip item name here _ awaits nullable _ ih =>
      obtain ⟨_, same, atDot⟩ := symbolAt_eq_some_iff.mp awaits
      have listed : grammar.productions[item.production]? = some production := listed
      rw [listed] at same
      cases same
      rw [Item.advance, List.take_add_one, atDot]
      exact (ih empty listed).append (erases_of_mem_nullable grammar name nullable)
  | shift outer _ _ _ _ _ =>
      have earlier := outer.start_le
      exact absurd (Nat.lt_succ_of_le earlier) (Nat.not_lt.mpr empty)
  | complete _ _ _ proper outer _ _ _ _ =>
      have earlier := outer.start_le
      exact absurd (Nat.lt_of_le_of_lt earlier proper) (Nat.not_lt.mpr empty)

/-- A dot moves over a phrase without tokens that has been reached. -/
theorem Reaches.complete_empty {parent : Item} {production : Production N T K}
    (inner : grammar.Reaches tokens start item here)
    (listed : grammar.productions[item.production]? = some production)
    (atEnd : production.rhs[item.dot]? = none) (empty : here ≤ item.start)
    (outer : grammar.Reaches tokens start parent here)
    (awaits : grammar.symbolAt parent = some (.nonterminal production.lhs))
    (admitted : grammar.vetoes tokens here parent.advance = false) :
    grammar.Reaches tokens start parent.advance here := by
  have erased := inner.erases empty listed
  rw [List.take_of_length_le (List.getElem?_eq_none_iff.mp atEnd)] at erased
  exact outer.skip awaits (Erases.cons (List.mem_of_getElem? listed) erased .nil).mem_nullable
    admitted

end Reaches

section Derivations

variable {grammar : Grammar N T K} {tokens : List K} {start : N}

/-- A dot that is reached moves over symbols that derive the tokens from there on. The
induction is on their derivations. -/
theorem Derives.reaches {symbols : List (Symbol N T)} {first stop : Nat} {trees : List Derivation}
    (derived : grammar.Derives tokens symbols first stop trees) (item : Item)
    {production : Production N T K} {others : List (Symbol N T)}
    (listed : grammar.productions[item.production]? = some production)
    (behind : production.rhs.drop item.dot = symbols ++ others)
    (reached : grammar.Reaches tokens start item first)
    (admitted : grammar.vetoes tokens stop { item with dot := item.dot + symbols.length } = false) :
    grammar.Reaches tokens start { item with dot := item.dot + symbols.length } stop := by
  induction derived generalizing item production others with
  | nil => exact reached
  | @leaf expected symbols here stop siblings token found accepted rest ih =>
      obtain ⟨atDot, remaining⟩ := of_drop_eq_cons behind
      rw [List.length_cons, Nat.add_comm _ 1, ← Nat.add_assoc] at admitted ⊢
      refine ih item.advance listed remaining.symm ?_ admitted
      exact reached.shift (symbolAt_eq_some_iff.mpr ⟨production, listed, atDot⟩) found accepted
        (vetoes_before rest item.advance listed remaining.symm admitted)
  | @node index inner symbols first middle stop children siblings listed' admitted' derived rest
      innerIh restIh =>
      obtain ⟨atDot, remaining⟩ := of_drop_eq_cons behind
      have awaits := symbolAt_eq_some_iff.mpr ⟨production, listed, atDot⟩
      rw [List.length_cons, Nat.add_comm _ 1, ← Nat.add_assoc] at admitted ⊢
      refine restIh item.advance listed remaining.symm ?_ admitted
      have notVetoed : grammar.vetoes tokens middle item.advance = false :=
        vetoes_before rest item.advance listed remaining.symm admitted
      rcases Nat.lt_or_eq_of_le derived.le with proper | rfl
      · -- The phrase covers tokens, so that its production is predicted and completed.
        have begins : (⟨index, 0, first⟩ : Item) ∈ grammar.predictions inner.lhs first :=
          mem_predictions_iff.mpr ⟨index, inner, listed', rfl, rfl⟩
        have opened : grammar.vetoes tokens first ⟨index, 0, first⟩ = false := by
          rw [vetoes_eq_false_iff _ listed']
          intro noSymbols
          rw [List.eq_nil_of_length_eq_zero noSymbols.symm, derives_nil_iff] at derived
          omega
        have closed : grammar.vetoes tokens middle ⟨index, 0 + inner.rhs.length, first⟩ = false :=
          (vetoes_eq_false_iff _ listed').mpr fun _ => admitted'
        have reachedEnd := innerIh ⟨index, 0, first⟩ listed'
          (List.append_nil _).symm (reached.predict awaits begins opened) closed
        have atEnd : inner.rhs[0 + inner.rhs.length]? = none :=
          List.getElem?_eq_none (Nat.le_of_eq (Nat.zero_add _).symm)
        exact reachedEnd.complete listed' atEnd proper reached awaits notVetoed
      · have nullable := (Erases.cons (List.mem_of_getElem? listed')
          (derived.erases (Nat.le_refl _)) .nil).mem_nullable
        exact reached.skip awaits nullable notVetoed

/-- A dot moves over the beginning of a production that is reached where it begins. -/
theorem Derives.reaches_of_begins {production : Production N T K} {index dot origin stop : Nat}
    {trees : List Derivation}
    (derived : grammar.Derives tokens (production.rhs.take dot) origin stop trees)
    (listed : grammar.productions[index]? = some production)
    (inside : dot ≤ production.rhs.length)
    (begins : grammar.vetoes tokens origin ⟨index, 0, origin⟩ = false →
      grammar.Reaches tokens start ⟨index, 0, origin⟩ origin)
    (admitted : grammar.vetoes tokens stop ⟨index, dot, origin⟩ = false) :
    grammar.Reaches tokens start ⟨index, dot, origin⟩ stop := by
  have length : 0 + (production.rhs.take dot).length = dot := by
    rw [List.length_take, Nat.min_eq_left inside, Nat.zero_add]
  have behind : production.rhs.drop 0 = production.rhs.take dot ++ production.rhs.drop dot :=
    (List.take_append_drop dot production.rhs).symm
  have closed : grammar.vetoes tokens stop
      ⟨index, 0 + (production.rhs.take dot).length, origin⟩ = false := by
    rw [length]
    exact admitted
  have opened := vetoes_before derived ⟨index, 0, origin⟩ listed behind closed
  have reached := derived.reaches ⟨index, 0, origin⟩ listed behind (begins opened) closed
  rw [length] at reached
  exact reached

/-- A production is reached wherever its nonterminal is predicted. -/
theorem Predicted.reaches {name : N} {here : Nat}
    (predicted : grammar.Predicted tokens start name here) {item : Item}
    (begins : item ∈ grammar.predictions name here)
    (admitted : grammar.vetoes tokens here item = false) :
    grammar.Reaches tokens start item here := by
  induction predicted generalizing item with
  | first => exact .first begins admitted
  | @next index production dot origin here name trees listed awaited _ derived ih =>
      have inside := (List.getElem?_eq_some_iff.mp awaited).1
      have outer := derived.reaches_of_begins listed (Nat.le_of_lt inside)
        (fun opened => ih (mem_predictions_iff.mpr ⟨index, production, listed, rfl, rfl⟩) opened)
        ((vetoes_eq_false_iff _ listed).mpr fun atEnd => absurd atEnd (Nat.ne_of_lt inside))
      exact outer.predict (symbolAt_eq_some_iff.mpr ⟨production, listed, awaited⟩) begins admitted

/-- What stands at a boundary is reached there. -/
theorem Stands.reaches {production : Production N T K} {item : Item} {stop : Nat}
    (stands : grammar.Stands tokens start production item stop) :
    grammar.Reaches tokens start item stop := by
  obtain ⟨trees, derived⟩ := stands.derived
  refine derived.reaches_of_begins stands.listed stands.inside (fun opened => ?_)
    stands.not_vetoed
  exact stands.predicted.reaches
    (mem_predictions_iff.mpr ⟨_, production, stands.listed, rfl, rfl⟩) opened

/-- Unless guards can object to the match of nothing, what is reached stands. -/
theorem Reaches.stands (free : grammar.ErasesFreely) {item : Item} {here : Nat}
    (reached : grammar.Reaches tokens start item here) :
    ∃ production, grammar.Stands tokens start production item here := by
  induction reached with
  | first begins admitted =>
      obtain ⟨index, production, listed, rfl, rfl⟩ := mem_predictions_iff.mp begins
      exact ⟨production, Predicted.first.stands listed admitted⟩
  | predict _ awaits begins admitted ih =>
      obtain ⟨outer, stands⟩ := ih
      obtain ⟨index, production, listed, rfl, rfl⟩ := mem_predictions_iff.mp begins
      exact ⟨production, (stands.predicts (stands.atDot awaits)).stands listed admitted⟩
  | skip _ awaits nullable admitted ih =>
      obtain ⟨production, stands⟩ := ih
      obtain ⟨trees, derived⟩ :=
        (erases_of_mem_nullable grammar _ nullable).derives free tokens _
      exact ⟨production, stands.advance (stands.atDot awaits) derived admitted⟩
  | shift _ awaits found accepted admitted ih =>
      obtain ⟨production, stands⟩ := ih
      exact ⟨production,
        stands.advance (stands.atDot awaits) (.leaf found accepted .nil) admitted⟩
  | complete _ listed atEnd _ _ awaits admitted innerIh outerIh =>
      obtain ⟨inner, stands⟩ := innerIh
      rw [stands.listed] at listed
      cases listed
      obtain ⟨trees, derived⟩ := stands.derives_lhs atEnd
      obtain ⟨production, parentStands⟩ := outerIh
      exact ⟨production,
        parentStands.advance (parentStands.atDot awaits) derived admitted⟩

theorem reaches_iff_stands (free : grammar.ErasesFreely) {item : Item} {here : Nat} :
    grammar.Reaches tokens start item here ↔
      ∃ production, grammar.Stands tokens start production item here :=
  ⟨Reaches.stands free, fun ⟨_, stands⟩ => stands.reaches⟩

end Derivations

end Grammar

end Krl

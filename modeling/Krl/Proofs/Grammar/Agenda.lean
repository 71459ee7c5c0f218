import Krl.Proofs.Grammar.Items

/-!
# The agenda of a boundary

Handling an item comes down to two things: it is entered into the books of the set
in the making, and the items it calls for are added to the set. The books, which
list the items that wait, the ones that have matched and the ones that move on, are
those of the handled items, each entered once. An item of the set is either handled
or on the agenda.
-/

namespace Krl

namespace Grammar

variable {N T K : Type}

/-- The entry of an item among those that wait, under the nonterminal it waits for. -/
def awaiting (grammar : Grammar N T K) (item : Item) : Option (N × Item) :=
  match grammar.symbolAt item with
  | some (.nonterminal name) => some (name, item)
  | _ => none

/-- The entry of an item among those that have matched, under its nonterminal. -/
def matching (grammar : Grammar N T K) (item : Item) : Option (N × Item) :=
  match grammar.productions[item.production]? with
  | some production =>
      match production.rhs[item.dot]? with
      | none => some (production.lhs, item)
      | some _ => none
  | none => none

/-- The item that moves over the next token, if the item calls for it. -/
def moving (grammar : Grammar N T K) (next : Option K) (item : Item) : Option Item :=
  match grammar.symbolAt item with
  | some (.terminal expected) =>
      if next.any (grammar.accepts expected) then some item.advance else none
  | _ => none

theorem awaiting_eq_some_iff {grammar : Grammar N T K} {item : Item} {entry : N × Item} :
    grammar.awaiting item = some entry ↔
      grammar.symbolAt item = some (.nonterminal entry.1) ∧ entry.2 = item := by
  rw [awaiting]
  split
  next name found =>
      rw [found]
      constructor
      · intro same
        cases same
        exact ⟨rfl, rfl⟩
      · rintro ⟨same, rfl⟩
        cases same
        rfl
  next other =>
      constructor
      · intro impossible
        cases impossible
      · rintro ⟨found, _⟩
        exact absurd found (other entry.1)

theorem matching_eq_some_iff {grammar : Grammar N T K} {item : Item} {entry : N × Item} :
    grammar.matching item = some entry ↔
      ∃ production, grammar.productions[item.production]? = some production ∧
        production.rhs[item.dot]? = none ∧ entry = (production.lhs, item) := by
  rw [matching]
  split
  next production listed =>
      split
      next atEnd =>
          constructor
          · intro same
            cases same
            exact ⟨production, listed, atEnd, rfl⟩
          · rintro ⟨other, alsoListed, _, rfl⟩
            rw [listed] at alsoListed
            cases alsoListed
            rfl
      next symbol atDot =>
          constructor
          · intro impossible
            cases impossible
          · rintro ⟨other, alsoListed, atEnd, _⟩
            rw [listed] at alsoListed
            cases alsoListed
            rw [atDot] at atEnd
            cases atEnd
  next unlisted =>
      constructor
      · intro impossible
        cases impossible
      · rintro ⟨other, listed, _⟩
        rw [unlisted] at listed
        cases listed

theorem moving_eq_some_iff {grammar : Grammar N T K} {next : Option K} {item moved : Item} :
    grammar.moving next item = some moved ↔
      ∃ expected token, grammar.symbolAt item = some (.terminal expected) ∧
        next = some token ∧ grammar.accepts expected token = true ∧ moved = item.advance := by
  rw [moving]
  split
  next expected found =>
      rw [Option.ite_none_right_eq_some, Option.any_eq_true, found]
      constructor
      · rintro ⟨⟨token, present, accepted⟩, same⟩
        cases same
        exact ⟨expected, token, rfl, present, accepted, rfl⟩
      · rintro ⟨_, token, same, present, accepted, rfl⟩
        cases same
        exact ⟨⟨token, present, accepted⟩, rfl⟩
  next other =>
      constructor
      · intro impossible
        cases impossible
      · rintro ⟨expected, _, found, _⟩
        exact absurd found (other expected)

section Adding

variable {grammar : Grammar N T K} {tokens : List K} {here : Nat}

theorem mem_add_iff {stage : Stage N} {item other : Item} :
    other ∈ (grammar.add tokens here stage item).set.members ↔
      other ∈ stage.set.members ∨ other = item ∧ grammar.vetoes tokens here item = false := by
  rw [add]
  split
  next skipped =>
      rw [Bool.or_eq_true] at skipped
      constructor
      · exact .inl
      · rintro (old | ⟨rfl, admitted⟩)
        · exact old
        · rcases skipped with known | vetoed
          · exact known
          · rw [admitted] at vetoed
            cases vetoed
  next fresh =>
      rw [Bool.or_eq_true, not_or, Bool.not_eq_true, Bool.not_eq_true] at fresh
      rw [Std.TreeSet.mem_insert, Std.LawfulEqCmp.compare_eq_iff_eq]
      constructor
      · rintro (rfl | old)
        · exact .inr ⟨rfl, fresh.2⟩
        · exact .inl old
      · rintro (old | ⟨rfl, _⟩)
        · exact .inr old
        · exact .inl rfl

theorem mem_addAll_iff {stage : Stage N} {items : List Item} {other : Item} :
    other ∈ (grammar.addAll tokens here stage items).set.members ↔
      other ∈ stage.set.members ∨
        other ∈ items ∧ grammar.vetoes tokens here other = false := by
  induction items generalizing stage with
  | nil => simp [addAll]
  | cons item items ih =>
      show other ∈ (grammar.addAll tokens here (grammar.add tokens here stage item)
        items).set.members ↔ _
      rw [ih, mem_add_iff, List.mem_cons]
      constructor
      · rintro ((old | ⟨rfl, admitted⟩) | ⟨later, admitted⟩)
        · exact .inl old
        · exact .inr ⟨.inl rfl, admitted⟩
        · exact .inr ⟨.inr later, admitted⟩
      · rintro (old | ⟨rfl | later, admitted⟩)
        · exact .inl (.inl old)
        · exact .inl (.inr ⟨rfl, admitted⟩)
        · exact .inr ⟨later, admitted⟩

theorem addAll_append {grammar : Grammar N T K} {tokens : List K} {here : Nat}
    {stage : Stage N} {first second : List Item} :
    grammar.addAll tokens here stage (first ++ second) =
      grammar.addAll tokens here (grammar.addAll tokens here stage first) second :=
  List.foldl_append

/-- What adding an item keeps. -/
theorem add_induction {motive : Stage N → Prop} {stage : Stage N} {item : Item}
    (old : motive stage)
    (new : item ∉ stage.set.members →
      motive { stage with
        set := { stage.set with members := stage.set.members.insert item }
        agenda := item :: stage.agenda }) :
    motive (grammar.add tokens here stage item) := by
  rw [add]
  split
  next => exact old
  next fresh =>
      rw [Bool.or_eq_true, not_or] at fresh
      exact new fresh.1

theorem addAll_induction {motive : Stage N → Prop} {stage : Stage N} {items : List Item}
    (holds : motive stage)
    (step : ∀ (stage : Stage N) (item : Item), motive stage →
      motive (grammar.add tokens here stage item)) :
    motive (grammar.addAll tokens here stage items) := by
  induction items generalizing stage with
  | nil => exact holds
  | cons item items ih => exact ih (step stage item holds)

end Adding

/-- Every item of the set is either handled or still on the agenda, and only once. -/
structure Orderly (stage : Stage N) : Prop where
  distinct : (stage.agenda ++ stage.set.handled).Nodup
  listed : ∀ item, item ∈ stage.agenda ++ stage.set.handled ↔ item ∈ stage.set.members

theorem Orderly.add {grammar : Grammar N T K} {tokens : List K} {here : Nat} {stage : Stage N}
    (orderly : Orderly stage) (item : Item) : Orderly (grammar.add tokens here stage item) := by
  apply add_induction orderly
  intro fresh
  constructor
  · exact List.nodup_cons.mpr ⟨fun old => fresh ((orderly.listed item).mp old), orderly.distinct⟩
  · intro other
    rw [Std.TreeSet.mem_insert, Std.LawfulEqCmp.compare_eq_iff_eq, List.cons_append,
      List.mem_cons, orderly.listed, eq_comm]

theorem Orderly.addAll {grammar : Grammar N T K} {tokens : List K} {here : Nat}
    {stage : Stage N} (orderly : Orderly stage) (items : List Item) :
    Orderly (grammar.addAll tokens here stage items) :=
  addAll_induction orderly fun _ item holds => holds.add item

/-- It does not matter which item of the agenda is taken. -/
theorem Orderly.take {stage : Stage N} (orderly : Orderly stage) {item : Item}
    {others : List Item} (agenda : stage.agenda.Perm (item :: others)) :
    Orderly (stage.take item others) := by
  have same : (stage.agenda ++ stage.set.handled).Perm
      (others ++ item :: stage.set.handled) :=
    (agenda.append_right stage.set.handled).trans List.perm_middle.symm
  constructor
  · exact same.nodup_iff.mp orderly.distinct
  · intro other
    exact same.mem_iff.symm.trans (orderly.listed other)

/-- The books of a stage are those of a list of handled items. -/
structure Books (grammar : Grammar N T K) (next : Option K) (stage : Stage N)
    (handled : List Item) : Prop where
  waiting : stage.set.waiting = handled.filterMap grammar.awaiting
  complete : stage.set.complete = handled.filterMap grammar.matching
  moved : stage.moved = handled.filterMap (grammar.moving next)

theorem Books.add {grammar : Grammar N T K} {tokens : List K} {here : Nat} {next : Option K}
    {stage : Stage N} {handled : List Item} (books : grammar.Books next stage handled)
    (item : Item) : grammar.Books next (grammar.add tokens here stage item) handled := by
  apply add_induction (motive := fun after => grammar.Books next after handled) books
  intro _
  exact ⟨books.waiting, books.complete, books.moved⟩

theorem Books.addAll {grammar : Grammar N T K} {tokens : List K} {here : Nat} {next : Option K}
    {stage : Stage N} {handled : List Item} (books : grammar.Books next stage handled)
    (items : List Item) : grammar.Books next (grammar.addAll tokens here stage items) handled :=
  addAll_induction (motive := fun after => grammar.Books next after handled) books
    fun _ item holds => holds.add item

/-- The set holds what stands at its boundary, all of it handled and in the books. -/
structure Exact (grammar : Grammar N T K) (tokens : List K) (start : N) (set : ItemSet N)
    (here : Nat) : Prop where
  stands_iff : ∀ item, item ∈ set.members ↔
    ∃ production, grammar.Stands tokens start production item here
  distinct : set.handled.Nodup
  listed : ∀ item, item ∈ set.handled ↔ item ∈ set.members
  waiting : set.waiting = set.handled.filterMap grammar.awaiting
  complete : set.complete = set.handled.filterMap grammar.matching

section Lookup

variable [DecidableEq N] {grammar : Grammar N T K} {set : ItemSet N} {handled : List Item}

theorem mem_waitingFor_iff (waiting : set.waiting = handled.filterMap grammar.awaiting)
    {name : N} {item : Item} :
    item ∈ set.waitingFor name ↔
      item ∈ handled ∧ grammar.symbolAt item = some (.nonterminal name) := by
  simp only [ItemSet.waitingFor, waiting, List.mem_filterMap, awaiting_eq_some_iff,
    Option.ite_none_right_eq_some]
  constructor
  · rintro ⟨⟨awaited, _⟩, ⟨_, member, found, rfl⟩, rfl, same⟩
    cases same
    exact ⟨member, found⟩
  · rintro ⟨member, found⟩
    exact ⟨(name, item), ⟨item, member, found, rfl⟩, rfl, rfl⟩

theorem isAwaited_iff (waiting : set.waiting = handled.filterMap grammar.awaiting) {name : N} :
    set.isAwaited name = true ↔
      ∃ item ∈ handled, grammar.symbolAt item = some (.nonterminal name) := by
  simp only [ItemSet.isAwaited, waiting, List.any_eq_true, List.mem_filterMap,
    awaiting_eq_some_iff, decide_eq_true_eq]
  constructor
  · rintro ⟨⟨_, waiter⟩, ⟨_, member, found, rfl⟩, rfl⟩
    exact ⟨waiter, member, found⟩
  · rintro ⟨item, member, found⟩
    exact ⟨(name, item), ⟨item, member, found, rfl⟩, rfl⟩

theorem mem_completed_iff (complete : set.complete = handled.filterMap grammar.matching)
    {name : N} {item : Item} :
    item ∈ set.completed name ↔
      item ∈ handled ∧ ∃ production, grammar.productions[item.production]? = some production ∧
        production.rhs[item.dot]? = none ∧ production.lhs = name := by
  simp only [ItemSet.completed, complete, List.mem_filterMap, matching_eq_some_iff,
    Option.ite_none_right_eq_some]
  constructor
  · rintro ⟨_, ⟨_, member, production, listed, atEnd, entered⟩, lhs, same⟩
    cases entered
    cases same
    exact ⟨member, production, listed, atEnd, lhs⟩
  · rintro ⟨member, production, listed, atEnd, lhs⟩
    exact ⟨(production.lhs, item), ⟨item, member, production, listed, atEnd, rfl⟩, lhs, rfl⟩

end Lookup

/-- Enter an item into the books. -/
def note (grammar : Grammar N T K) (next : Option K) (stage : Stage N) (item : Item) :
    Stage N where
  set := { stage.set with
    waiting := (grammar.awaiting item).toList ++ stage.set.waiting
    complete := (grammar.matching item).toList ++ stage.set.complete }
  agenda := stage.agenda
  moved := (grammar.moving next item).toList ++ stage.moved

theorem handled_addAll {grammar : Grammar N T K} {tokens : List K} {here : Nat}
    {stage : Stage N} {items : List Item} :
    (grammar.addAll tokens here stage items).set.handled = stage.set.handled :=
  addAll_induction (motive := fun after => after.set.handled = stage.set.handled) rfl
    fun _ _ same => add_induction (motive := fun after => after.set.handled = stage.set.handled)
      same fun _ => same

theorem filterMap_eq_toList_append {α β : Type} (entry : α → Option β) (first : α)
    (others : List α) :
    (entry first).toList ++ others.filterMap entry = (first :: others).filterMap entry := by
  rw [List.filterMap_cons]
  cases entry first <;> rfl

theorem Books.note {grammar : Grammar N T K} {next : Option K} {stage : Stage N}
    (books : grammar.Books next stage stage.set.handled) (item : Item) (others : List Item) :
    grammar.Books next (grammar.note next (stage.take item others) item)
      (item :: stage.set.handled) where
  waiting := by
    rw [← filterMap_eq_toList_append, ← books.waiting]
    rfl
  complete := by
    rw [← filterMap_eq_toList_append, ← books.complete]
    rfl
  moved := by
    rw [← filterMap_eq_toList_append, ← books.moved]
    rfl

section Handling

variable [DecidableEq N]

/-- The items that an item brings into the set of its boundary. -/
def consequences (grammar : Grammar N T K) (nullable : List N) (chart : Chart N)
    (stage : Stage N) (item : Item) : List Item :=
  match grammar.productions[item.production]? with
  | none => []
  | some production =>
      match production.rhs[item.dot]? with
      | none => ((stage.origin chart item).waitingFor production.lhs).map Item.advance
      | some (.nonterminal name) =>
          (if stage.set.isAwaited name then [] else grammar.predictions name chart.size) ++
            (if nullable.contains name then [item.advance] else [])
      | some (.terminal _) => []

/-- To handle an item is to enter it into the books and to add its consequences. -/
theorem handle_eq (grammar : Grammar N T K) (nullable : List N) (tokens : List K)
    (chart : Chart N) (next : Option K) (stage : Stage N) (item : Item) :
    grammar.handle nullable tokens chart next stage item =
      grammar.addAll tokens chart.size (grammar.note next stage item)
        (grammar.consequences nullable chart stage item) := by
  rw [handle, consequences, note, awaiting, matching, moving, symbolAt]
  cases grammar.productions[item.production]? with
  | none => rfl
  | some production =>
      simp only [Option.bind_some]
      cases production.rhs[item.dot]? with
      | none => rfl
      | some symbol =>
          cases symbol with
          | nonterminal name =>
              simp only [addAll_append]
              cases stage.set.isAwaited name <;> cases nullable.contains name <;> rfl
          | terminal expected =>
              simp only
              cases next.any (grammar.accepts expected) <;> rfl

end Handling

end Grammar

end Krl

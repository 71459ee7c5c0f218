import Krl.Grammar.Semantics
import Krl.Proofs.Grammar.Ranking
import Krl.Proofs.Grammar.Recognition
import Krl.Proofs.Grammar.Tallies

/-!
# Counting is exact

Over an exact chart of a ranked grammar, every answer is right whatever was asked
before. The questions in progress are those that led to the present one, so they are on
no lower level. A question that comes up again while it is being answered is therefore
asked for a way to take an item apart that has no readings anyway, and answering it with
none does no harm.
-/

namespace Krl

/-- All questions about the items of a chart. -/
def Chart.queries {N : Type} (chart : Chart N) : List Query :=
  chart.toList.zipIdx.flatMap fun entry =>
    entry.1.members.toList.map fun item => ⟨item, entry.2⟩

/-- A question is about an item of the chart. -/
def Chart.Holds {N : Type} (chart : Chart N) (query : Query) : Prop :=
  ∃ set, chart[query.stop]? = some set ∧ query.item ∈ set.members

section Queries

variable {N : Type} {chart : Chart N}

theorem Chart.length_queries (chart : Chart N) : chart.queries.length = chart.itemCount := by
  have counted : ∀ (sets : List (ItemSet N)) (first : Nat),
      ((sets.zipIdx first).flatMap fun entry =>
          entry.1.members.toList.map fun item => (⟨item, entry.2⟩ : Query)).length =
        sets.foldr (fun set total => set.members.size + total) 0 := by
    intro sets
    induction sets with
    | nil => exact fun _ => rfl
    | cons set others ih =>
        intro first
        rw [List.zipIdx_cons, List.flatMap_cons, List.length_append, ih, List.length_map,
          Std.TreeSet.length_toList, List.foldr_cons]
  exact counted chart.toList 0

theorem Chart.Holds.mem_queries {query : Query} (holds : chart.Holds query) :
    query ∈ chart.queries := by
  obtain ⟨set, found, member⟩ := holds
  refine List.mem_flatMap.mpr ⟨(set, query.stop), ?_, List.mem_map.mpr ⟨query.item, ?_, rfl⟩⟩
  · rw [List.mk_mem_zipIdx_iff_getElem?, Array.getElem?_toList]
    exact found
  · exact Std.TreeSet.mem_toList.mpr member

theorem Chart.holds_iff {query : Query} :
    chart.Holds query ↔ chart[query.stop]?.any (·.members.contains query.item) = true := by
  simp only [Chart.Holds, Option.any_eq_true, Std.TreeSet.mem_iff_contains]

end Queries

namespace Grammar

variable {N T K : Type}

/-- The answers so far are right, and the questions of a stack are in progress. -/
structure Faithful (grammar : Grammar N T K) (tokens : List K) (answers : Answers)
    (stack : List Query) : Prop where
  known : ∀ (query : Query) (tally : Tally), answers.table[query]? = some (some tally) →
    tally.Counts (grammar.readings tokens query.item query.stop)
  opened : ∀ query : Query, answers.table[query]? = some none ↔ query ∈ stack

variable {grammar : Grammar N T K} {tokens : List K}

theorem faithful_empty : grammar.Faithful tokens .empty [] where
  known := by
    intro query tally found
    simp [Answers.empty] at found
  opened := by
    intro query
    simp [Answers.empty]

/-- A question is put on the stack. -/
theorem Faithful.push {answers : Answers} {stack : List Query}
    (sound : grammar.Faithful tokens answers stack) (query : Query) (opened : List Query) :
    grammar.Faithful tokens ⟨answers.table.insert query none, opened⟩ (query :: stack) where
  known := by
    intro other tally found
    rw [Std.TreeMap.getElem?_insert] at found
    split at found
    · cases found
    · exact sound.known other tally found
  opened := by
    intro other
    simp only [Std.TreeMap.getElem?_insert, Std.LawfulEqCmp.compare_eq_iff_eq, List.mem_cons]
    split
    next same => simp [same]
    next differ =>
        rw [sound.opened other]
        exact ⟨.inr, fun member => member.resolve_left fun same => differ same.symm⟩

/-- The question on top of the stack gets its answer. -/
theorem Faithful.pop {answers : Answers} {stack : List Query} {query : Query}
    (sound : grammar.Faithful tokens answers (query :: stack)) (fresh : query ∉ stack)
    {tally : Tally} (counts : tally.Counts (grammar.readings tokens query.item query.stop))
    (opened : List Query) :
    grammar.Faithful tokens ⟨answers.table.insert query (some tally), opened⟩ stack where
  known := by
    intro other found' found
    simp only [Std.TreeMap.getElem?_insert, Std.LawfulEqCmp.compare_eq_iff_eq] at found
    split at found
    next same =>
        cases found
        cases same
        exact counts
    next => exact sound.known other found' found
  opened := by
    intro other
    simp only [Std.TreeMap.getElem?_insert, Std.LawfulEqCmp.compare_eq_iff_eq]
    split
    next same => simp [← same, fresh]
    next differ =>
        rw [sound.opened other, List.mem_cons]
        exact ⟨fun member => member.resolve_left fun same => differ same.symm, .inr⟩

/-- A reply leaves the answers right, and is right itself under a condition. -/
structure Replies (grammar : Grammar N T K) (tokens : List K) (stack : List Query)
    (condition : Prop) (query : Query) (reply : Tally × Answers) : Prop where
  sound : grammar.Faithful tokens reply.2 stack
  counts : condition → reply.1.Counts (grammar.readings tokens query.item query.stop)

/-- One step in adding up the ways to take an item apart, which asks for the two parts. -/
def weigh (ask : Item → Nat → Answers → Tally × Answers) (stop : Nat)
    (state : Tally × Answers) (split : Split) : Tally × Answers :=
  match state with
  | (total, answers) =>
      let (left, answers) := ask split.before split.middle answers
      match split.child with
      | none => (total.either (left.both ⟨1, [.leaf split.middle]⟩), answers)
      | some child =>
          let (right, answers) := ask child stop answers
          let node := .node child.production child.start stop right.sample
          (total.either (left.both ⟨right.count, [node]⟩), answers)

/-- Both parts of a way to take an item apart get right replies, the second one at least
if the first one has readings. -/
structure Weighable (grammar : Grammar N T K) (tokens : List K)
    (ask : Item → Nat → Answers → Tally × Answers) (stack : List Query) (stop : Nat)
    (split : Split) : Prop where
  before : ∀ answers, grammar.Faithful tokens answers stack →
    grammar.Replies tokens stack True ⟨split.before, split.middle⟩
      (ask split.before split.middle answers)
  child : ∀ child ∈ split.child, ∀ answers, grammar.Faithful tokens answers stack →
    grammar.Replies tokens stack (grammar.readings tokens split.before split.middle).Nonempty
      ⟨child, stop⟩ (ask child stop answers)

theorem Weighable.weigh {ask : Item → Nat → Answers → Tally × Answers} {stack : List Query}
    {stop : Nat} {split : Split} (weighable : grammar.Weighable tokens ask stack stop split)
    {total : Tally} {done : Set (List Derivation)} (counts : total.Counts done)
    (apart : Disjoint done (grammar.splitReadings tokens stop split))
    {answers : Answers} (sound : grammar.Faithful tokens answers stack) :
    (Grammar.weigh ask stop (total, answers) split).1.Counts
        (done ∪ grammar.splitReadings tokens stop split) ∧
      grammar.Faithful tokens (Grammar.weigh ask stop (total, answers) split).2 stack := by
  have left := weighable.before answers sound
  have even : ∀ trees ∈ grammar.readings tokens split.before split.middle,
      ∀ trees' ∈ grammar.readings tokens split.before split.middle,
        trees.length = trees'.length :=
    fun _ member _ member' => length_eq_of_mem_readings member member'
  rw [Grammar.weigh]
  cases leaf : split.child with
  | none =>
      refine ⟨counts.either ?_ apart, left.sound⟩
      apply (left.counts trivial).both _ even
      intro _
      rw [lastReadings, leaf]
      exact ⟨Set.encard_singleton _, fun _ => rfl⟩
  | some child =>
      have right := weighable.child child leaf _ left.sound
      refine ⟨counts.either ?_ apart, right.sound⟩
      apply (left.counts trivial).both _ even
      intro nonempty
      rw [lastReadings, leaf]
      exact (right.counts nonempty).node child.production child.start stop

/-- All ways to take an item apart, added up. -/
theorem counts_foldl_weigh {ask : Item → Nat → Answers → Tally × Answers} {stack : List Query}
    {stop : Nat} {splits : List Split}
    (weighable : ∀ split ∈ splits, grammar.Weighable tokens ask stack stop split)
    (apart : splits.Pairwise fun one other => Disjoint (grammar.splitReadings tokens stop one)
      (grammar.splitReadings tokens stop other))
    {total : Tally} {done : Set (List Derivation)} (counts : total.Counts done)
    (away : ∀ split ∈ splits, Disjoint done (grammar.splitReadings tokens stop split))
    {answers : Answers} (sound : grammar.Faithful tokens answers stack) :
    (splits.foldl (weigh ask stop) (total, answers)).1.Counts
        (done ∪ {trees | ∃ split ∈ splits, trees ∈ grammar.splitReadings tokens stop split}) ∧
      grammar.Faithful tokens (splits.foldl (weigh ask stop) (total, answers)).2 stack := by
  induction splits generalizing total done answers with
  | nil =>
      simp only [List.foldl_nil, List.not_mem_nil, false_and, exists_false]
      rw [show {trees : List Derivation | False} = ∅ from rfl, Set.union_empty]
      exact ⟨counts, sound⟩
  | cons split others ih =>
      rw [List.pairwise_cons] at apart
      rw [List.forall_mem_cons] at weighable away
      obtain ⟨counts', sound'⟩ := weighable.1.weigh counts away.1 sound
      have result := ih weighable.2 apart.2 counts'
        (fun other member => Set.disjoint_union_left.mpr
          ⟨away.2 other member, apart.1 other member⟩) sound'
      rw [List.foldl_cons]
      refine ⟨?_, result.2⟩
      convert result.1 using 1
      ext trees
      simp [or_assoc]

section Exact

variable {start : N} {chart : Chart N}

theorem ExactChart.holds_iff (exact : grammar.ExactChart tokens start chart) {query : Query} :
    chart.Holds query ↔ query.stop < chart.size ∧
      ∃ production, grammar.Stands tokens start production query.item query.stop := by
  constructor
  · rintro ⟨set, found, member⟩
    exact ⟨(Array.getElem?_eq_some_iff.mp found).1,
      ((exact _ _ found).stands_iff _).mp member⟩
  · rintro ⟨inside, stands⟩
    have found := Array.getElem?_eq_getElem inside
    exact ⟨_, found, ((exact _ _ found).stands_iff _).mpr stands⟩

/-- The item before the last symbol of one that stands has no readings unless it stands
as well. -/
theorem ExactChart.readings_before (exact : grammar.ExactChart tokens start chart) {item : Item}
    {middle stop : Nat} {production : Production N T K}
    (stands : grammar.Stands tokens start production item stop) (moved : 0 < item.dot)
    (inside : middle < chart.size)
    (absent : ¬chart.Holds ⟨{ item with dot := item.dot - 1 }, middle⟩) :
    grammar.readings tokens { item with dot := item.dot - 1 } middle = ∅ := by
  rw [Set.eq_empty_iff_forall_notMem]
  intro trees member
  apply absent
  have inner := stands.inside
  rw [exact.holds_iff]
  refine ⟨inside, production, stands.listed, ?_, stands.predicted, ⟨trees, ?_⟩, ?_⟩
  · exact Nat.le_trans (Nat.sub_le _ _) inner
  · exact (mem_readings_iff { item with dot := item.dot - 1 } stands.listed).mp member
  · intro atEnd
    simp only at atEnd
    omega

variable [DecidableEq N]

/-- The questions that led to the present one: they are about items of the chart, all
different, and on no lower level. -/
structure LeadsTo (grammar : Grammar N T K) (rank : N → Nat) (chart : Chart N)
    (stack : List Query) (query : Query) : Prop where
  distinct : stack.Nodup
  held : ∀ other ∈ stack, chart.Holds other
  above : ∀ other ∈ stack, Query.level grammar rank query ≤ Query.level grammar rank other

theorem LeadsTo.push {rank : N → Nat} {stack : List Query} {query next : Query}
    (leads : grammar.LeadsTo rank chart stack query) (fresh : query ∉ stack)
    (holds : chart.Holds query)
    (below : Query.level grammar rank next ≤ Query.level grammar rank query) :
    grammar.LeadsTo rank chart (query :: stack) next where
  distinct := List.nodup_cons.mpr ⟨fresh, leads.distinct⟩
  held := List.forall_mem_cons.mpr ⟨holds, leads.held⟩
  above := List.forall_mem_cons.mpr
    ⟨below, fun other member => below.trans (leads.above other member)⟩

/-- A question on a lower level is not in progress. -/
theorem LeadsTo.not_mem_of_lt {rank : N → Nat} {stack : List Query} {query next : Query}
    (leads : grammar.LeadsTo rank chart stack query)
    (below : Query.level grammar rank next < Query.level grammar rank query) :
    next ∉ query :: stack := by
  rw [List.mem_cons]
  rintro (rfl | member)
  · exact lt_irrefl _ below
  · exact not_lt_of_ge (leads.above next member) below

theorem LeadsTo.length_lt {rank : N → Nat} {stack : List Query} {query : Query}
    (leads : grammar.LeadsTo rank chart stack query) (fresh : query ∉ stack)
    (holds : chart.Holds query) : stack.length < chart.itemCount := by
  have distinct : (query :: stack).Nodup := List.nodup_cons.mpr ⟨fresh, leads.distinct⟩
  have listed : query :: stack ⊆ chart.queries := by
    intro other member
    rcases List.mem_cons.mp member with rfl | member
    · exact holds.mem_queries
    · exact (leads.held other member).mem_queries
  have bound := (distinct.subperm listed).length_le
  rw [List.length_cons, chart.length_queries] at bound
  exact bound

theorem tally_of_not_holds {fuel : Nat} {item : Item} {stop : Nat} {answers : Answers}
    (absent : ¬chart.Holds ⟨item, stop⟩) :
    grammar.tally chart fuel item stop answers = (.none, answers) := by
  rw [Chart.holds_iff, Bool.not_eq_true] at absent
  cases fuel with
  | zero => rw [tally]
  | succ fuel => rw [tally, absent, Bool.not_false, if_pos rfl]

/-- An item of the chart with its dot moved is looked up, or taken apart. -/
theorem tally_of_holds {fuel : Nat} {item : Item} {stop : Nat} {answers : Answers}
    (holds : chart.Holds ⟨item, stop⟩) :
    grammar.tally chart (fuel + 1) item stop answers =
      if item.dot = 0 then
        (if item.start = stop then .nothing else .none, answers)
      else
        match answers.table[(⟨item, stop⟩ : Query)]? with
        | some known => (known.getD .none, answers)
        | none =>
            let query : Query := ⟨item, stop⟩
            let opened : Answers := ⟨answers.table.insert query none, query :: answers.opened⟩
            let (total, answers) := (grammar.splits chart item stop).foldl
              (weigh (grammar.tally chart fuel) stop) (.none, opened)
            (total, ⟨answers.table.insert query (some total), answers.opened⟩) := by
  rw [Chart.holds_iff] at holds
  rw [tally, holds, Bool.not_true, if_neg Bool.false_ne_true]
  rfl

/-- What is behind the middle of a way to take an item apart derives from its last symbol. -/
theorem ExactChart.last_derived (exact : grammar.ExactChart tokens start chart) {item : Item}
    {stop : Nat} (inside : stop < chart.size) {production : Production N T K}
    (stands : grammar.Stands tokens start production item stop) (moved : 0 < item.dot)
    {split : Split} (member : split ∈ grammar.splits chart item stop) :
    ∃ symbol right, production.rhs[item.dot - 1]? = some symbol ∧
      grammar.Derives tokens [symbol] split.middle stop right := by
  obtain ⟨_, _, ⟨expected, found, atStop, _⟩ | ⟨inner, child, found, _, middle, standing,
    complete⟩⟩ := (exact.mem_splits_iff inside stands moved).mp member
  · exact ⟨_, _, found, stands.last_token found moved atStop⟩
  · obtain ⟨trees, derived⟩ := standing.derives_lhs (List.getElem?_eq_none (Nat.le_of_eq
      complete.symm))
    rw [middle]
    exact ⟨_, trees, found, derived⟩

/-- Both parts of a way to take an item apart are asked for on levels where the replies
are right as far as they matter. -/
theorem weighable_split (exact : grammar.ExactChart tokens start chart) {rank : N → Nat}
    (ranked : grammar.IsRanked rank) {item : Item} {stop : Nat} (inside : stop < chart.size)
    {production : Production N T K}
    (stands : grammar.Stands tokens start production item stop) (moved : 0 < item.dot)
    {stack : List Query} (leads : grammar.LeadsTo rank chart stack ⟨item, stop⟩)
    (fresh : ⟨item, stop⟩ ∉ stack) (holds : chart.Holds ⟨item, stop⟩)
    {ask : Item → Nat → Answers → Tally × Answers}
    (absent : ∀ query answers, ¬chart.Holds query →
      ask query.item query.stop answers = (.none, answers))
    (replies : ∀ query answers, grammar.LeadsTo rank chart (⟨item, stop⟩ :: stack) query →
      chart.Holds query → grammar.Faithful tokens answers (⟨item, stop⟩ :: stack) →
        grammar.Replies tokens (⟨item, stop⟩ :: stack) (query ∉ Query.mk item stop :: stack) query
          (ask query.item query.stop answers))
    {split : Split} (member : split ∈ grammar.splits chart item stop) :
    grammar.Weighable tokens ask (⟨item, stop⟩ :: stack) stop split := by
  obtain ⟨before, within, part⟩ := (exact.mem_splits_iff inside stands moved).mp member
  obtain ⟨symbol, right, found, last⟩ := exact.last_derived inside stands moved member
  have middleInside : split.middle < chart.size := Nat.lt_of_le_of_lt last.le inside
  constructor
  · intro answers sound
    by_cases held : chart.Holds ⟨split.before, split.middle⟩
    · have below : Query.level grammar rank ⟨split.before, split.middle⟩ <
          Query.level grammar rank ⟨item, stop⟩ := by
        obtain ⟨_, _, standing⟩ := exact.holds_iff.mp held
        rw [before] at standing ⊢
        obtain ⟨left, derived⟩ := standing.derived
        have listed := standing.listed
        rw [show (Item.mk item.production (item.dot - 1) item.start).production =
          item.production from rfl, stands.listed] at listed
        cases listed
        exact level_before_lt stands.listed found moved derived last
      have reply := replies _ answers (leads.push fresh holds below.le) held sound
      exact ⟨reply.sound, fun _ => reply.counts (leads.not_mem_of_lt below)⟩
    · rw [absent ⟨split.before, split.middle⟩ answers held]
      refine ⟨sound, fun _ => ?_⟩
      rw [before] at held ⊢
      rw [exact.readings_before stands moved middleInside held]
      exact Tally.counts_none
  · intro child isChild answers sound
    obtain ⟨_, _, _, none_⟩ | ⟨inner, child', found', isChild', middle, standing, complete⟩ := part
    · rw [none_] at isChild
      cases isChild
    · rw [isChild'] at isChild
      cases isChild
      rw [middle] at within
      obtain ⟨below, lower⟩ := level_child ranked stands.listed found' moved standing.listed
        complete within standing.start_le
      have held : chart.Holds ⟨child, stop⟩ := exact.holds_iff.mpr ⟨inside, inner, standing⟩
      have reply := replies _ answers (leads.push fresh holds below) held sound
      refine ⟨reply.sound, ?_⟩
      rw [before, middle]
      rintro ⟨left, derived⟩
      exact reply.counts (leads.not_mem_of_lt (lower ⟨left,
        (mem_readings_iff { item with dot := item.dot - 1 } stands.listed).mp derived⟩))

/-- Every reply is right, unless the question is in progress already. The induction is
on the fuel; there is as much of it left as there are items without a question in
progress. -/
theorem replies_tally (exact : grammar.ExactChart tokens start chart) {rank : N → Nat}
    (ranked : grammar.IsRanked rank) {fuel : Nat} {stack : List Query} {query : Query}
    (enough : chart.itemCount < fuel + stack.length)
    (leads : grammar.LeadsTo rank chart stack query) (holds : chart.Holds query)
    {answers : Answers} (sound : grammar.Faithful tokens answers stack) :
    grammar.Replies tokens stack (query ∉ stack) query
      (grammar.tally chart fuel query.item query.stop answers) := by
  induction fuel generalizing stack query answers with
  | zero =>
      refine ⟨by unfold tally; exact sound, fun fresh => ?_⟩
      have bound := leads.length_lt fresh holds
      omega
  | succ fuel ih =>
      obtain ⟨item, stop⟩ := query
      obtain ⟨inside, production, stands⟩ := exact.holds_iff.mp holds
      simp only at inside stands
      rw [tally_of_holds holds]
      split
      next atStart =>
          refine ⟨sound, fun _ => ?_⟩
          rw [readings_of_dot_eq_zero stands.listed atStart]
          split
          · exact Tally.counts_nothing
          · exact Tally.counts_none
      next moved =>
          have moved := Nat.pos_of_ne_zero moved
          split
          next known found =>
              refine ⟨sound, fun fresh => ?_⟩
              cases known with
              | none => exact absurd ((sound.opened _).mp found) fresh
              | some tally => exact sound.known _ tally found
          next unknown =>
              have fresh : (⟨item, stop⟩ : Query) ∉ stack := by
                intro member
                rw [(sound.opened _).mpr member] at unknown
                cases unknown
              have bound := leads.length_lt fresh holds
              have weighable : ∀ split ∈ grammar.splits chart item stop,
                  grammar.Weighable tokens (grammar.tally chart fuel) (⟨item, stop⟩ :: stack) stop
                    split :=
                fun split member =>
                  weighable_split exact ranked inside stands moved leads fresh holds
                    (fun _ _ => tally_of_not_holds)
                    (fun _ _ leads holds sound =>
                      ih (by rw [List.length_cons]; omega) leads holds sound) member
              obtain ⟨counts, sound⟩ := counts_foldl_weigh weighable
                (exact.splits_apart inside stands moved) Tally.counts_none
                (fun _ _ => Set.empty_disjoint _)
                (sound.push ⟨item, stop⟩ (⟨item, stop⟩ :: answers.opened))
              rw [Set.empty_union, ← exact.readings_eq inside stands moved] at counts
              exact ⟨sound.pop fresh counts _, fun _ => counts⟩

theorem ExactChart.wholes_eq (exact : grammar.ExactChart tokens start chart) {name : N}
    {here stop : Nat} (inside : stop < chart.size)
    (predicted : grammar.Predicted tokens start name here) :
    grammar.wholes tokens name here stop = {trees | ∃ item ∈ chart.spanning name here stop,
      trees ∈ grammar.itemWholes tokens here stop item} := by
  ext trees
  rw [mem_wholes_iff, derives_nonterminal_iff, Set.mem_ofPred_eq]
  constructor
  · rintro ⟨index, production, children, listed, rfl, admitted, derived, rfl⟩
    have taken : grammar.Derives tokens (production.rhs.take production.rhs.length) here stop
        children := by
      rwa [List.take_length]
    refine ⟨⟨index, production.rhs.length, here⟩, (exact.mem_spanning_iff inside).mpr
      ⟨rfl, production, ⟨listed, Nat.le_refl _, predicted, ⟨children, taken⟩, fun _ => admitted⟩,
        List.getElem?_eq_none (Nat.le_refl _), rfl⟩, ?_⟩
    exact ⟨children, ⟨production, listed, taken⟩, rfl⟩
  · rintro ⟨item, member, children, reading, rfl⟩
    obtain ⟨rfl, production, stands, atEnd, rfl⟩ := (exact.mem_spanning_iff inside).mp member
    have complete := Nat.le_antisymm stands.inside (List.getElem?_eq_none_iff.mp atEnd)
    have derived := (mem_readings_iff _ stands.listed).mp reading
    rw [complete, List.take_length] at derived
    exact ⟨item.production, production, children, stands.listed, rfl, stands.admitted complete,
      derived, rfl⟩

theorem ExactChart.spanning_apart (exact : grammar.ExactChart tokens start chart) {name : N}
    {here stop : Nat} (inside : stop < chart.size) :
    (chart.spanning name here stop).Pairwise fun one other =>
      Disjoint (grammar.itemWholes tokens here stop one)
        (grammar.itemWholes tokens here stop other) := by
  have distinct : (chart.spanning name here stop).Nodup := by
    have closed : chart[stop]? = some chart[stop] := Array.getElem?_eq_getElem inside
    rw [Chart.spanning, closed]
    exact ((exact stop _ closed).nodup_completed name).filter _
  apply distinct.pairwise_of_forall_ne
  intro one member other member' differ
  rw [Set.disjoint_left]
  rintro _ ⟨children, _, rfl⟩ ⟨children', _, same⟩
  -- The root tells the production, and with it the whole item.
  apply differ
  obtain ⟨rfl, production, stands, atEnd, _⟩ := (exact.mem_spanning_iff inside).mp member
  obtain ⟨starts, production', stands', atEnd', _⟩ := (exact.mem_spanning_iff inside).mp member'
  have complete := Nat.le_antisymm stands.inside (List.getElem?_eq_none_iff.mp atEnd)
  have complete' := Nat.le_antisymm stands'.inside (List.getElem?_eq_none_iff.mp atEnd')
  injection same with same
  injection same with root _ _ _
  have listed := stands.listed
  rw [← root, stands'.listed] at listed
  cases listed
  cases one
  cases other
  simp_all

/-- The completed items of a nonterminal, added up. -/
theorem counts_foldl_tally (exact : grammar.ExactChart tokens start chart) {rank : N → Nat}
    (ranked : grammar.IsRanked rank) {here stop : Nat} {items : List Item}
    (holds : ∀ item ∈ items, chart.Holds ⟨item, stop⟩)
    (apart : items.Pairwise fun one other => Disjoint (grammar.itemWholes tokens here stop one)
      (grammar.itemWholes tokens here stop other))
    {total : Tally} {done : Set (List Derivation)} (counts : total.Counts done)
    (away : ∀ item ∈ items, Disjoint done (grammar.itemWholes tokens here stop item))
    {answers : Answers} (sound : grammar.Faithful tokens answers []) :
    let result := items.foldl
      (fun (total, answers) item =>
        let (ways, answers) := grammar.tally chart (chart.itemCount + 1) item stop answers
        (total.either ⟨ways.count, [.node item.production here stop ways.sample]⟩, answers))
      (total, answers)
    result.1.Counts (done ∪ {trees | ∃ item ∈ items,
        trees ∈ grammar.itemWholes tokens here stop item}) ∧
      grammar.Faithful tokens result.2 [] := by
  induction items generalizing total done answers with
  | nil =>
      simp only [List.foldl_nil, List.not_mem_nil, false_and, exists_false]
      rw [show {trees : List Derivation | False} = ∅ from rfl, Set.union_empty]
      exact ⟨counts, sound⟩
  | cons item others ih =>
      rw [List.pairwise_cons] at apart
      rw [List.forall_mem_cons] at holds away
      have leads : grammar.LeadsTo rank chart [] ⟨item, stop⟩ :=
        ⟨List.nodup_nil, fun _ member => absurd member List.not_mem_nil,
          fun _ member => absurd member List.not_mem_nil⟩
      have enough : chart.itemCount < chart.itemCount + 1 + ([] : List Query).length :=
        Nat.lt_succ_self _
      have reply := replies_tally exact ranked enough leads holds.1 sound
      have ways := (reply.counts List.not_mem_nil).node item.production here stop
      have result := ih holds.2 apart.2 (counts.either ways away.1)
        (fun other member => Set.disjoint_union_left.mpr
          ⟨away.2 other member, apart.1 other member⟩) reply.sound
      rw [List.foldl_cons]
      refine ⟨?_, result.2⟩
      convert result.1 using 1
      ext trees
      simp [or_assoc, itemWholes]

/-- Where a nonterminal is predicted, its derivations are counted exactly, whatever has
been asked before. -/
theorem counts_derivations (exact : grammar.ExactChart tokens start chart) {rank : N → Nat}
    (ranked : grammar.IsRanked rank) {name : N} {here stop : Nat} (inside : stop < chart.size)
    (predicted : grammar.Predicted tokens start name here) {answers : Answers}
    (sound : grammar.Faithful tokens answers []) :
    (grammar.derivations chart name here stop answers).1.Counts
        (grammar.wholes tokens name here stop) ∧
      grammar.Faithful tokens (grammar.derivations chart name here stop answers).2 [] := by
  have holds : ∀ item ∈ chart.spanning name here stop, chart.Holds ⟨item, stop⟩ := by
    intro item member
    obtain ⟨_, production, stands, _⟩ := (exact.mem_spanning_iff inside).mp member
    exact exact.holds_iff.mpr ⟨inside, production, stands⟩
  obtain ⟨counts, sound⟩ := counts_foldl_tally exact ranked holds (exact.spanning_apart inside)
    Tally.counts_none (fun _ _ => Set.empty_disjoint _) sound
  rw [Set.empty_union, ← exact.wholes_eq inside predicted] at counts
  exact ⟨counts, sound⟩

/-- The tally of an accepted text counts the derivations of the start symbol. -/
theorem counts_survey (free : grammar.ErasesFreely) {rank : N → Nat}
    (ranked : grammar.IsRanked rank) {tally : Tally}
    (accepted : grammar.survey start tokens = .ok tally) :
    tally.count ≠ 0 ∧ tally.Counts (grammar.wholes tokens start 0 tokens.length) := by
  have outcome := recognized_recognize free start tokens
  rw [survey] at accepted
  split at accepted
  · cases accepted
  next chart recognized =>
      cases accepted
      rw [recognized] at outcome
      obtain ⟨exact, size, tree, derivation⟩ := outcome
      have inside : tokens.length < chart.size := by omega
      obtain ⟨counts, _⟩ := counts_derivations exact ranked inside .first faithful_empty
      refine ⟨fun zero => ?_, counts⟩
      have empty := counts.count_eq_zero_iff.mp zero
      exact Set.notMem_empty _ (empty ▸ mem_wholes_iff.mpr derivation)

end Exact

section Unranked

/-- Letters, pairs of halves, and halves, which are letters or pairs in their turn. -/
def pairs : Grammar (Fin 3) Unit Unit where
  productions := [
    ⟨0, [.nonterminal 1], none⟩,
    ⟨1, [.nonterminal 2, .nonterminal 2], none⟩,
    ⟨1, [.terminal ()], none⟩,
    ⟨2, [.nonterminal 1], none⟩]
  accepts := fun _ _ => true

theorem derives_pairs {tokens : List Unit} {index : Nat}
    {production : Production (Fin 3) Unit Unit} {start stop : Nat} {children : List Derivation}
    (listed : pairs.productions[index]? = some production)
    (derived : pairs.Derives tokens production.rhs start stop children) :
    pairs.IsDerivation tokens production.lhs start stop (.node index start stop children) := by
  have unguarded : ∀ production ∈ pairs.productions, production.guard = none := by decide
  exact .node listed (Production.admits_of_unguarded
    (unguarded production (List.mem_of_getElem? listed)) _ _ _) derived .nil

/-- Ranks are needed for an exact count, even if no nonterminal derives just itself: three
letters are a pair in two ways, of which one is counted. -/
theorem survey_pairs_miscounts :
    ∃ tally, pairs.survey 0 [(), (), ()] = .ok tally ∧ tally.count = 1 ∧
      ¬tally.Counts (pairs.wholes [(), (), ()] 0 0 3) := by
  have counted : (pairs.survey 0 [(), (), ()]).toOption.map Tally.count = some 1 := by
    decide +kernel
  have letter : ∀ here < 3, pairs.Derives [(), (), ()] [.nonterminal 1] here (here + 1)
      [.node 2 here (here + 1) [.leaf here]] := fun here below =>
    have found : [(), (), ()][here]? = some () := List.getElem?_eq_getElem below
    derives_pairs (show pairs.productions[2]? = some _ from rfl) (.leaf found rfl .nil)
  have half : ∀ {here stop : Nat} {tree : Derivation},
      pairs.Derives [(), (), ()] [.nonterminal 1] here stop [tree] →
        pairs.Derives [(), (), ()] [.nonterminal 2] here stop [.node 3 here stop [tree]] :=
    fun derived => derives_pairs (show pairs.productions[3]? = some _ from rfl) derived
  have pair : ∀ {here middle stop : Nat} {left right : Derivation},
      pairs.Derives [(), (), ()] [.nonterminal 2] here middle [left] →
        pairs.Derives [(), (), ()] [.nonterminal 2] middle stop [right] →
          pairs.Derives [(), (), ()] [.nonterminal 1] here stop [.node 1 here stop [left, right]] :=
    fun first second =>
      derives_pairs (show pairs.productions[1]? = some _ from rfl) (first.append second)
  have a := half (letter 0 (by decide))
  have b := half (letter 1 (by decide))
  have c := half (letter 2 (by decide))
  have root : pairs.productions[0]? = some _ := rfl
  have one := derives_pairs root (pair (half (pair a b)) c)
  have other := derives_pairs root (pair a (half (pair b c)))
  cases surveyed : pairs.survey 0 [(), (), ()] with
  | error reason =>
      rw [surveyed] at counted
      cases counted
  | ok tally =>
      rw [surveyed] at counted
      have counted : tally.count = 1 := Option.some.inj counted
      refine ⟨tally, rfl, counted, fun counts => ?_⟩
      have single := counts.eq_of_count_eq_one counted
      have same : [_] = tally.sample := single ▸ mem_wholes_iff.mpr one
      have same' : [_] = tally.sample := single ▸ mem_wholes_iff.mpr other
      cases same.trans same'.symm

end Unranked

end Grammar

end Krl

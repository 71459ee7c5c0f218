import Krl.Proofs.Grammar.Counting
import Mathlib.Algebra.Order.BigOperators.Group.List

/-!
# Counting task by task

Instead of by recursion, a query can be answered by working off a list of tasks. To visit a
query is to expand it: it is noted as being answered, its parts are put in front of the tasks,
and behind these the task to settle it, which adds up what is known of the parts by then. The
same query may be on the list many times before it is expanded, and its parts may lead back to
it, but it is expanded only once, so that the tasks run out. This holds in whatever order the
parts are put on the list. In the order of the splits, the tasks do what the recursion does.
-/

namespace Krl

/-- Something to do about a query: to visit it, or to settle it once its parts have been
visited. -/
inductive Task where
  | visit (query : Query)
  | settle (query : Query)

/-- The query that a task settles, if it does. -/
def Task.settled? : Task → Option Query
  | .visit _ => none
  | .settle query => some query

/-- The tasks that are left, the next one first, and the answers so far. -/
structure Walk where
  tasks : List Task
  answers : Answers

/-- The queries about the parts of a split. -/
def Split.parts (split : Split) (stop : Nat) : List Query :=
  ⟨split.before, split.middle⟩ :: (split.child.map fun child => ⟨child, stop⟩).toList

/-- Only an item of the chart with its dot behind some symbol is taken apart. -/
def Chart.Expands {N : Type} (chart : Chart N) (query : Query) : Prop :=
  chart.Holds query ∧ query.item.dot ≠ 0

namespace Answers

variable {N : Type} {chart : Chart N}

/-- A query is noted as being answered. -/
def expand (answers : Answers) (query : Query) : Answers :=
  ⟨answers.table.insert query none, query :: answers.opened⟩

/-- A query gets its answer. -/
def settle (answers : Answers) (query : Query) (tally : Tally) : Answers :=
  ⟨answers.table.insert query (some tally), answers.opened⟩

theorem mem_expand {answers : Answers} {query other : Query} :
    other ∈ (answers.expand query).table ↔ query = other ∨ other ∈ answers.table := by
  rw [expand, Std.TreeMap.mem_insert, Std.LawfulEqCmp.compare_eq_iff_eq]

theorem mem_settle {answers : Answers} {query other : Query} {tally : Tally} :
    other ∈ (answers.settle query tally).table ↔ query = other ∨ other ∈ answers.table := by
  rw [settle, Std.TreeMap.mem_insert, Std.LawfulEqCmp.compare_eq_iff_eq]

theorem getElem?_expand {answers : Answers} {query other : Query} :
    (answers.expand query).table[other]? =
      if query = other then some none else answers.table[other]? := by
  simp only [expand, Std.TreeMap.getElem?_insert, Std.LawfulEqCmp.compare_eq_iff_eq]

theorem getElem?_settle {answers : Answers} {query other : Query} {tally : Tally} :
    (answers.settle query tally).table[other]? =
      if query = other then some (some tally) else answers.table[other]? := by
  simp only [settle, Std.TreeMap.getElem?_insert, Std.LawfulEqCmp.compare_eq_iff_eq]

theorem exists_known {answers : Answers} {query : Query} (met : query ∈ answers.table) :
    ∃ known, answers.table[query]? = some known := by
  rw [Std.TreeMap.mem_iff_isSome_getElem?] at met
  exact Option.isSome_iff_exists.mp met

/-- What is known about a query without taking an item apart. Nothing is known about one that
is being answered. -/
def known? (answers : Answers) (chart : Chart N) (query : Query) : Option Tally :=
  if !chart[query.stop]?.any (·.members.contains query.item) then
    some .none
  else if query.item.dot = 0 then
    some (if query.item.start = query.stop then .nothing else .none)
  else
    answers.table[query]?.join

/-- Nothing is known about a query, and it is not being answered. -/
def isPending (answers : Answers) (chart : Chart N) (query : Query) : Bool :=
  !answers.table.contains query && (answers.known? chart query).isNone

theorem known?_of_not_holds {query : Query} (absent : ¬chart.Holds query) (answers : Answers) :
    answers.known? chart query = some .none := by
  rw [Chart.holds_iff, Bool.not_eq_true] at absent
  rw [known?, absent, Bool.not_false, if_pos rfl]

theorem known?_of_dot_eq_zero {query : Query} (holds : chart.Holds query)
    (atStart : query.item.dot = 0) (answers : Answers) :
    answers.known? chart query =
      some (if query.item.start = query.stop then .nothing else .none) := by
  rw [known?, Chart.holds_iff.mp holds, Bool.not_true, if_neg Bool.false_ne_true,
    if_pos atStart]

theorem known?_of_expands {query : Query} (expands : chart.Expands query) (answers : Answers) :
    answers.known? chart query = answers.table[query]?.join := by
  rw [known?, Chart.holds_iff.mp expands.1, Bool.not_true, if_neg Bool.false_ne_true,
    if_neg expands.2]

theorem expands_of_known?_eq_none {answers : Answers} {query : Query}
    (unknown : answers.known? chart query = none) : chart.Expands query := by
  by_cases holds : chart.Holds query
  · refine ⟨holds, fun atStart => ?_⟩
    rw [known?_of_dot_eq_zero holds atStart] at unknown
    cases unknown
  · rw [known?_of_not_holds holds] at unknown
    cases unknown

theorem isPending_iff {answers : Answers} {query : Query} :
    answers.isPending chart query = true ↔ chart.Expands query ∧ query ∉ answers.table := by
  rw [isPending, Bool.and_eq_true, Bool.not_eq_true', Option.isNone_iff_eq_none,
    ← Bool.not_eq_true, Std.TreeMap.contains_iff_mem]
  constructor
  · rintro ⟨absent, unknown⟩
    exact ⟨expands_of_known?_eq_none unknown, absent⟩
  · rintro ⟨expands, absent⟩
    refine ⟨absent, ?_⟩
    rw [known?_of_expands expands, Std.TreeMap.getElem?_eq_none absent]
    rfl

/-- The larger answers have all that the smaller ones have, and leave it as it is. -/
def Within (smaller larger : Answers) : Prop :=
  ∀ (query : Query) (known : Option Tally),
    smaller.table[query]? = some known → larger.table[query]? = some known

theorem Within.refl (answers : Answers) : answers.Within answers :=
  fun _ _ found => found

theorem Within.trans {small middle large : Answers} (first : small.Within middle)
    (second : middle.Within large) : small.Within large :=
  fun query known found => second query known (first query known found)

theorem Within.mem {smaller larger : Answers} (within : smaller.Within larger) {query : Query}
    (met : query ∈ smaller.table) : query ∈ larger.table := by
  obtain ⟨known, found⟩ := exists_known met
  rw [Std.TreeMap.mem_iff_isSome_getElem?, within query known found]
  rfl

theorem within_expand {answers : Answers} {query : Query} (fresh : query ∉ answers.table) :
    answers.Within (answers.expand query) := by
  intro other known found
  rw [getElem?_expand, if_neg]
  · exact found
  · rintro rfl
    rw [Std.TreeMap.getElem?_eq_none fresh] at found
    cases found

/-- What was known of a query that has been met stays known. -/
theorem Within.known?_eq {smaller larger : Answers} (within : smaller.Within larger)
    {query : Query} (met : chart.Expands query → query ∈ smaller.table) :
    larger.known? chart query = smaller.known? chart query := by
  by_cases holds : chart.Holds query
  · by_cases atStart : query.item.dot = 0
    · rw [known?_of_dot_eq_zero holds atStart, known?_of_dot_eq_zero holds atStart]
    · have expands : chart.Expands query := ⟨holds, atStart⟩
      obtain ⟨known, found⟩ := exists_known (met expands)
      rw [known?_of_expands expands, known?_of_expands expands, found, within query known found]
  · rw [known?_of_not_holds holds, known?_of_not_holds holds]

/-- What the queries that have not been met yet weigh together. -/
def remaining (answers : Answers) (chart : Chart N) (weight : Query → Nat) : Nat :=
  (chart.queries.map fun query => if query ∈ answers.table then 0 else weight query).sum

theorem remaining_le (answers : Answers) (chart : Chart N) (weight : Query → Nat) :
    answers.remaining chart weight ≤ (chart.queries.map weight).sum := by
  apply List.sum_le_sum
  intro query _
  split
  · exact Nat.zero_le _
  · exact Nat.le_refl _

/-- There are no more queries left than items in the chart. -/
theorem remaining_le_itemCount (answers : Answers) (chart : Chart N) :
    answers.remaining chart (fun _ => 1) ≤ chart.itemCount := by
  have most := answers.remaining_le chart fun _ => 1
  rw [List.map_const', List.sum_replicate_nat, Nat.mul_one, chart.length_queries] at most
  exact most

theorem remaining_mono {smaller larger : Answers} (chart : Chart N) (weight : Query → Nat)
    (grown : ∀ query ∈ smaller.table, query ∈ larger.table) :
    larger.remaining chart weight ≤ smaller.remaining chart weight := by
  apply List.sum_le_sum
  intro query _
  split
  · exact Nat.zero_le _
  next absent => rw [if_neg fun met => absent (grown query met)]

/-- To expand a query takes its weight away. -/
theorem remaining_expand {answers : Answers} (weight : Query → Nat) {query : Query}
    (expands : chart.Expands query) (fresh : query ∉ answers.table) :
    (answers.expand query).remaining chart weight + weight query ≤
      answers.remaining chart weight := by
  have single : weight query ≤
      (chart.queries.map fun other => if other = query then weight query else 0).sum := by
    apply List.le_sum_of_mem
    exact List.mem_map.mpr ⟨query, expands.1.mem_queries, if_pos rfl⟩
  refine Nat.le_trans (Nat.add_le_add_left single _) ?_
  rw [remaining, ← List.sum_map_add]
  apply List.sum_le_sum
  intro other _
  by_cases same : query = other
  · subst same
    simp [mem_expand, fresh]
  · simp [mem_expand, same, Ne.symm same]

/-- The walk that answers a query begins with a visit, unless the answer is known. -/
def walk (answers : Answers) (chart : Chart N) (query : Query) : Walk :=
  ⟨if (answers.known? chart query).isSome then [] else [.visit query], answers⟩

end Answers

namespace Walk

variable {N : Type} {chart : Chart N} {walk : Walk}

/-- The queries that have been met are those that were expanded, each of them once. The ones
without an answer are those that a task will settle. -/
structure Consistent (walk : Walk) (chart : Chart N) : Prop where
  distinct : walk.answers.opened.Nodup
  listed : ∀ query, query ∈ walk.answers.opened ↔ query ∈ walk.answers.table
  settling : (walk.tasks.filterMap Task.settled?).Nodup
  unsettled : ∀ query : Query, walk.answers.table[query]? = some none ↔
    query ∈ walk.tasks.filterMap Task.settled?
  expands : ∀ query, Task.visit query ∈ walk.tasks → chart.Expands query

/-- A query has been met or is to be visited. -/
def Touches (walk : Walk) (query : Query) : Prop :=
  query ∈ walk.answers.table ∨ Task.visit query ∈ walk.tasks

theorem consistent_empty (chart : Chart N) : (Walk.mk [] .empty).Consistent chart where
  distinct := List.nodup_nil
  listed := fun _ => iff_of_false List.not_mem_nil Std.TreeMap.not_mem_emptyc
  settling := List.nodup_nil
  unsettled := by
    intro query
    simp [Answers.empty]
  expands := fun _ visited => absurd visited List.not_mem_nil

/-- When no task is left, every query that was touched has its answer. -/
theorem Consistent.evaluated (consistent : walk.Consistent chart) (finished : walk.tasks = [])
    {query : Query} (touched : walk.Touches query) :
    ∃ tally, walk.answers.table[query]? = some (some tally) := by
  rw [Touches, finished] at touched
  have met := touched.resolve_right List.not_mem_nil
  obtain ⟨known, found⟩ := Answers.exists_known met
  cases known with
  | some tally => exact ⟨tally, found⟩
  | none =>
      have open_ := (consistent.unsettled query).mp found
      rw [finished] at open_
      cases open_

/-- When no task is left, something is known about every query that was met. -/
theorem Consistent.known?_isSome (consistent : walk.Consistent chart) (finished : walk.tasks = [])
    {query : Query} (met : chart.Expands query → query ∈ walk.answers.table) :
    (walk.answers.known? chart query).isSome := by
  rw [← Option.ne_none_iff_isSome]
  intro unknown
  have expands := Answers.expands_of_known?_eq_none unknown
  obtain ⟨tally, found⟩ := consistent.evaluated finished (.inl (met expands))
  rw [Answers.known?_of_expands expands, found] at unknown
  cases unknown

/-- A visit that does nothing. -/
theorem Consistent.skip {query : Query} {rest : List Task} {answers : Answers}
    (consistent : (Walk.mk (.visit query :: rest) answers).Consistent chart) :
    (Walk.mk rest answers).Consistent chart where
  distinct := consistent.distinct
  listed := consistent.listed
  settling := consistent.settling
  unsettled := consistent.unsettled
  expands := fun other visited => consistent.expands other (List.mem_cons_of_mem _ visited)

theorem filterMap_visit_append (queries : List Query) (tasks : List Task) :
    (queries.map Task.visit ++ tasks).filterMap Task.settled? =
      tasks.filterMap Task.settled? := by
  rw [List.filterMap_append, List.filterMap_map]
  simp [Function.comp_def, Task.settled?]

/-- A query without an answer comes with the task to settle it. -/
theorem Consistent.expand {query : Query} {rest : List Task} {answers : Answers}
    {pending : List Query}
    (consistent : (Walk.mk (.visit query :: rest) answers).Consistent chart)
    (fresh : query ∉ answers.table) (expands : ∀ other ∈ pending, chart.Expands other) :
    (Walk.mk (pending.map .visit ++ .settle query :: rest) (answers.expand query)).Consistent
      chart := by
  obtain ⟨distinct, listed, settling, unsettled, before⟩ := consistent
  constructor
  · exact List.nodup_cons.mpr ⟨fun old => fresh ((listed query).mp old), distinct⟩
  · intro other
    rw [Answers.mem_expand, Answers.expand, List.mem_cons, listed other, eq_comm]
  · rw [filterMap_visit_append]
    refine List.nodup_cons.mpr ⟨fun left => ?_, settling⟩
    have open_ : answers.table[query]? = some none := (unsettled query).mpr left
    rw [Std.TreeMap.getElem?_eq_none fresh] at open_
    cases open_
  · intro other
    have old : _ ↔ other ∈ rest.filterMap Task.settled? := unsettled other
    rw [filterMap_visit_append, List.filterMap_cons, Task.settled?, List.mem_cons,
      Answers.getElem?_expand]
    split
    next same => simp [same]
    next differ =>
        rw [old]
        exact ⟨.inr, fun member => member.resolve_left fun same => differ same.symm⟩
  · intro other member
    rcases List.mem_append.mp member with part | old
    · obtain ⟨_, visited, same⟩ := List.mem_map.mp part
      cases same
      exact expands other visited
    · rcases List.mem_cons.mp old with same | old
      · cases same
      · exact before other (List.mem_cons_of_mem _ old)

/-- A query that is settled has been met. -/
theorem Consistent.settle {query : Query} {rest : List Task} {answers : Answers}
    (consistent : (Walk.mk (.settle query :: rest) answers).Consistent chart) (tally : Tally) :
    (Walk.mk rest (answers.settle query tally)).Consistent chart := by
  obtain ⟨distinct, listed, settling, unsettled, expands⟩ := consistent
  obtain ⟨once, settling⟩ := List.nodup_cons.mp settling
  constructor
  · exact distinct
  · intro other
    rw [Answers.mem_settle]
    refine (listed other).trans ⟨.inr, ?_⟩
    rintro (rfl | old)
    · rw [Std.TreeMap.mem_iff_isSome_getElem?, (unsettled query).mpr List.mem_cons_self]
      rfl
    · exact old
  · exact settling
  · intro other
    have old : _ ↔ other ∈ query :: rest.filterMap Task.settled? := unsettled other
    rw [Answers.getElem?_settle]
    split
    next same => simp [← same, once]
    next differ =>
        rw [old, List.mem_cons]
        exact ⟨fun member => member.resolve_left fun same => differ same.symm, .inr⟩
  · exact fun other visited => expands other (List.mem_cons_of_mem _ visited)

/-- Where nothing is left to do, a walk for another query can begin. -/
theorem Consistent.begin {answers : Answers} (consistent : (Walk.mk [] answers).Consistent chart)
    (query : Query) : (answers.walk chart query).Consistent chart := by
  rw [Answers.walk]
  split
  next => exact consistent
  next unknown =>
      rw [Option.not_isSome_iff_eq_none] at unknown
      refine ⟨consistent.distinct, consistent.listed, consistent.settling, consistent.unsettled, ?_⟩
      intro other visited
      cases List.mem_singleton.mp visited
      exact Answers.expands_of_known?_eq_none unknown

end Walk

namespace Grammar

variable {N T K : Type} [DecidableEq N]

/-- The queries about the parts of all splits of an item. -/
def parts (grammar : Grammar N T K) (chart : Chart N) (query : Query) : List Query :=
  (grammar.splits chart query.item query.stop).flatMap fun split => split.parts query.stop

/-- Look up what is known about an item, without asking. -/
def look (chart : Chart N) (item : Item) (stop : Nat) (answers : Answers) : Tally × Answers :=
  ((answers.known? chart ⟨item, stop⟩).getD .none, answers)

/-- The ways to take an item apart, added up from what is known of the parts. -/
def total (grammar : Grammar N T K) (chart : Chart N) (answers : Answers) (query : Query) :
    Tally :=
  ((grammar.splits chart query.item query.stop).foldl (weigh (look chart) query.stop)
    (.none, answers)).1

/-- One task is done. -/
inductive Advances (grammar : Grammar N T K) (chart : Chart N) : Walk → Walk → Prop where
  /-- A query that has been expanded is not expanded again. -/
  | skip {query : Query} {rest : List Task} {answers : Answers} (met : query ∈ answers.table) :
      Advances grammar chart ⟨.visit query :: rest, answers⟩ ⟨rest, answers⟩
  /-- The parts that nothing is known about are put on the list, in any order. -/
  | expand {query : Query} {rest : List Task} {answers : Answers} {pending : List Query}
      (fresh : query ∉ answers.table)
      (arranged : pending.Perm
        ((grammar.parts chart query).filter ((answers.expand query).isPending chart))) :
      Advances grammar chart ⟨.visit query :: rest, answers⟩
        ⟨pending.map .visit ++ .settle query :: rest, answers.expand query⟩
  | settle {query : Query} {rest : List Task} {answers : Answers} :
      Advances grammar chart ⟨.settle query :: rest, answers⟩
        ⟨rest, answers.settle query (grammar.total chart answers query)⟩

/-- A number of tasks are done, one after another. -/
inductive Walks (grammar : Grammar N T K) (chart : Chart N) : Nat → Walk → Walk → Prop where
  | none {walk : Walk} : Walks grammar chart 0 walk walk
  | step {count : Nat} {walk middle last : Walk} (first : grammar.Advances chart walk middle)
      (others : Walks grammar chart count middle last) : Walks grammar chart (count + 1) walk last

theorem Walks.append {grammar : Grammar N T K} {chart : Chart N} {count count' : Nat}
    {walk middle last : Walk} (first : grammar.Walks chart count walk middle)
    (second : grammar.Walks chart count' middle last) :
    grammar.Walks chart (count + count') walk last := by
  induction first with
  | none =>
      rw [Nat.zero_add]
      exact second
  | step advances _ ih =>
      rw [Nat.succ_add]
      exact .step advances (ih second)

section Invariant

variable {grammar : Grammar N T K} {chart : Chart N} {walk later : Walk}

theorem Advances.consistent (advances : grammar.Advances chart walk later)
    (consistent : walk.Consistent chart) : later.Consistent chart := by
  cases advances with
  | skip _ => exact consistent.skip
  | expand fresh arranged =>
      refine consistent.expand fresh fun other visited => ?_
      exact (Answers.isPending_iff.mp (List.mem_filter.mp (arranged.mem_iff.mp visited)).2).1
  | settle => exact consistent.settle _

theorem Walks.consistent {count : Nat} (walks : grammar.Walks chart count walk later)
    (consistent : walk.Consistent chart) : later.Consistent chart := by
  induction walks with
  | none => exact consistent
  | step advances _ ih => exact ih (advances.consistent consistent)

/-- The most tasks that can come from expanding a query: a visit of each part, and the task to
settle it. -/
def burden (grammar : Grammar N T K) (chart : Chart N) (query : Query) : Nat :=
  (grammar.parts chart query).length + 1

/-- The most tasks that can be done before none is left. -/
def effort (grammar : Grammar N T K) (chart : Chart N) (walk : Walk) : Nat :=
  walk.tasks.length + walk.answers.remaining chart (grammar.burden chart)

theorem Advances.effort_lt (advances : grammar.Advances chart walk later)
    (consistent : walk.Consistent chart) :
    grammar.effort chart later < grammar.effort chart walk := by
  cases advances with
  | skip _ =>
      simp only [effort, List.length_cons]
      omega
  | @expand query rest answers pending fresh arranged =>
      have lighter := Answers.remaining_expand (grammar.burden chart)
        (consistent.expands query List.mem_cons_self) fresh
      have few : pending.length ≤ (grammar.parts chart query).length := by
        rw [arranged.length_eq]
        exact List.length_filter_le _ _
      simp only [burden] at lighter
      simp only [effort, List.length_append, List.length_map, List.length_cons]
      omega
  | @settle query rest answers =>
      have same : (answers.settle query (grammar.total chart answers query)).remaining chart
          (grammar.burden chart) ≤ answers.remaining chart (grammar.burden chart) :=
        Answers.remaining_mono _ _ fun other met => Answers.mem_settle.mpr (.inr met)
      simp only [effort, List.length_cons]
      omega

theorem Walks.count_le {count : Nat} (walks : grammar.Walks chart count walk later)
    (consistent : walk.Consistent chart) : count ≤ grammar.effort chart walk := by
  induction walks with
  | none => exact Nat.zero_le _
  | step advances _ ih =>
      have few := ih (advances.consistent consistent)
      have less := advances.effort_lt consistent
      omega

/-- As long as a task is left, one can be done. -/
theorem exists_advances (grammar : Grammar N T K) (chart : Chart N) {walk : Walk}
    (left : walk.tasks ≠ []) : ∃ later, grammar.Advances chart walk later := by
  obtain ⟨tasks, answers⟩ := walk
  cases tasks with
  | nil => exact absurd rfl left
  | cons task rest =>
      cases task with
      | visit query =>
          by_cases met : query ∈ answers.table
          · exact ⟨_, .skip met⟩
          · exact ⟨_, .expand met (.refl _)⟩
      | settle query => exact ⟨_, .settle⟩

theorem Advances.touches (advances : grammar.Advances chart walk later) {query : Query}
    (touched : walk.Touches query) : later.Touches query := by
  cases advances with
  | skip met =>
      rcases touched with old | visited
      · exact .inl old
      · rcases List.mem_cons.mp visited with same | visited
        · cases same
          exact .inl met
        · exact .inr visited
  | expand _ _ =>
      rcases touched with old | visited
      · exact .inl (Answers.mem_expand.mpr (.inr old))
      · rcases List.mem_cons.mp visited with same | visited
        · cases same
          exact .inl (Answers.mem_expand.mpr (.inl rfl))
        · exact .inr (List.mem_append_right _ (List.mem_cons_of_mem _ visited))
  | settle =>
      rcases touched with old | visited
      · exact .inl (Answers.mem_settle.mpr (.inr old))
      · rcases List.mem_cons.mp visited with same | visited
        · cases same
        · exact .inr visited

theorem Walks.touches {count : Nat} (walks : grammar.Walks chart count walk later) {query : Query}
    (touched : walk.Touches query) : later.Touches query := by
  induction walks with
  | none => exact touched
  | step advances _ ih => exact ih (advances.touches touched)

end Invariant

end Grammar

end Krl

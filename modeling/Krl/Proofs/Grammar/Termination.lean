import Krl.Proofs.Grammar.Turns
import Krl.Proofs.Grammar.Walks

/-!
# Recognizing and counting come to an end

The recursion that answers a query is a walk that visits the parts of an item in the order of
its splits: each call does the tasks that a visit of its query leads to, and its fuel lasts, because
there is more of it than there are queries not met yet. A walk expands no query twice, and when
it ends, every query it touched has an answer, whatever cycles or ambiguities the grammar has.
Together with what is known about the agenda of a boundary, this bounds all that is done to
recognize some tokens and to count their derivations.
-/

namespace Krl

namespace Grammar

variable {N T K : Type} [DecidableEq N]

/-- What asking for a query does: it keeps the answers there are, tells what is known of the
query afterwards, and does the tasks that a visit of the query leads to. -/
structure Visited (grammar : Grammar N T K) (chart : Chart N) (query : Query) (answers : Answers)
    (reply : Tally × Answers) : Prop where
  within : answers.Within reply.2
  met : chart.Expands query → query ∈ reply.2.table
  value : reply.1 = (reply.2.known? chart query).getD .none
  quiet : answers.isPending chart query = false → reply.2 = answers
  walks : chart.Expands query → ∀ rest, ∃ count,
    grammar.Walks chart count ⟨.visit query :: rest, answers⟩ ⟨rest, reply.2⟩

/-- Ask for some queries, one after another. -/
def askAll (ask : Item → Nat → Answers → Tally × Answers) (answers : Answers)
    (queries : List Query) : Answers :=
  queries.foldl (fun answers query => (ask query.item query.stop answers).2) answers

/-- To weigh a split is to ask for its parts. -/
theorem weigh_snd (ask : Item → Nat → Answers → Tally × Answers) (stop : Nat)
    (state : Tally × Answers) (split : Split) :
    (weigh ask stop state split).2 = askAll ask state.2 (split.parts stop) := by
  rw [weigh, Split.parts]
  cases split.child <;> rfl

theorem foldl_weigh_snd (ask : Item → Nat → Answers → Tally × Answers) (stop : Nat)
    (state : Tally × Answers) (splits : List Split) :
    (splits.foldl (weigh ask stop) state).2 =
      askAll ask state.2 (splits.flatMap fun split => split.parts stop) := by
  induction splits generalizing state with
  | nil => rfl
  | cons split others ih =>
      rw [List.foldl_cons, ih, weigh_snd, List.flatMap_cons]
      exact List.foldl_append.symm

section Asking

variable {grammar : Grammar N T K} {chart : Chart N} {first answers last : Answers}
  {ask : Item → Nat → Answers → Tally × Answers}

theorem within_askAll
    (visited : ∀ query answers, first.Within answers →
      grammar.Visited chart query answers (ask query.item query.stop answers))
    (reached : first.Within answers) (queries : List Query) :
    answers.Within (askAll ask answers queries) := by
  induction queries generalizing answers with
  | nil => exact .refl answers
  | cons query others ih =>
      have within := (visited query answers reached).within
      exact within.trans (ih (reached.trans within))

/-- To ask for some queries is to visit those of them that are pending at first. The others are
known, or are being answered, and stay so. -/
theorem walks_askAll
    (visited : ∀ query answers, first.Within answers →
      grammar.Visited chart query answers (ask query.item query.stop answers))
    (reached : first.Within answers) (queries : List Query) (rest : List Task) :
    ∃ count, grammar.Walks chart count
      ⟨(queries.filter (first.isPending chart)).map .visit ++ rest, answers⟩
      ⟨rest, askAll ask answers queries⟩ := by
  induction queries generalizing answers with
  | nil => exact ⟨0, .none⟩
  | cons query others ih =>
      have here := visited query answers reached
      obtain ⟨count', later⟩ := ih (reached.trans here.within)
      cases pending : first.isPending chart query with
      | true =>
          obtain ⟨count, walks⟩ := here.walks (Answers.isPending_iff.mp pending).1
            ((others.filter (first.isPending chart)).map .visit ++ rest)
          rw [List.filter_cons_of_pos pending]
          exact ⟨count + count', walks.append later⟩
      | false =>
          have quiet : answers.isPending chart query = false := by
            rw [← Bool.not_eq_true, Answers.isPending_iff] at pending ⊢
            exact fun ⟨expands, absent⟩ => pending ⟨expands, fun met => absent (reached.mem met)⟩
          rw [List.filter_cons_of_neg (Bool.eq_false_iff.mp pending)]
          rw [here.quiet quiet] at later
          exact ⟨count', (congrArg (askAll ask · others) (here.quiet quiet)) ▸ later⟩

/-- A split weighs the same when its parts are looked up later on. -/
theorem weigh_eq_look
    (visited : ∀ query answers, first.Within answers →
      grammar.Visited chart query answers (ask query.item query.stop answers))
    (reached : first.Within answers) (stop : Nat) (total : Tally) (split : Split)
    (later : (weigh ask stop (total, answers) split).2.Within last) :
    weigh (look chart) stop (total, last) split =
      ((weigh ask stop (total, answers) split).1, last) := by
  have left := visited ⟨split.before, split.middle⟩ answers reached
  rw [weigh_snd, Split.parts] at later
  rw [weigh, weigh]
  cases leaf : split.child with
  | none =>
      rw [leaf] at later
      have later : (ask split.before split.middle answers).2.Within last := later
      simp only [look, left.value, later.known?_eq left.met]
  | some child =>
      have right := visited ⟨child, stop⟩ _ (reached.trans left.within)
      rw [leaf] at later
      have later : (ask child stop (ask split.before split.middle answers).2).2.Within last := later
      have known := (right.within.trans later).known?_eq left.met
      simp only [look, left.value, right.value, known, later.known?_eq right.met]

/-- The splits add up to the same when their parts are looked up later on. -/
theorem foldl_weigh_eq_look
    (visited : ∀ query answers, first.Within answers →
      grammar.Visited chart query answers (ask query.item query.stop answers))
    (reached : first.Within answers) (stop : Nat) (total : Tally) (splits : List Split)
    (later : (splits.foldl (weigh ask stop) (total, answers)).2.Within last) :
    (splits.foldl (weigh (look chart) stop) (total, last)).1 =
      (splits.foldl (weigh ask stop) (total, answers)).1 := by
  induction splits generalizing total answers with
  | nil => rfl
  | cons split others ih =>
      have within : answers.Within (weigh ask stop (total, answers) split).2 := by
        rw [weigh_snd]
        exact within_askAll visited reached _
      have onward : (weigh ask stop (total, answers) split).2.Within
          ((split :: others).foldl (weigh ask stop) (total, answers)).2 := by
        rw [List.foldl_cons, foldl_weigh_snd]
        exact within_askAll visited (reached.trans within) _
      rw [List.foldl_cons, List.foldl_cons,
        weigh_eq_look visited reached stop total split (onward.trans later)]
      exact ih (reached.trans within) _ later

/-- There is nothing to do for a query that has been met or is not taken apart. -/
theorem visited_of_met (grammar : Grammar N T K) (answers : Answers) {query : Query}
    (met : chart.Expands query → query ∈ answers.table) :
    grammar.Visited chart query answers ((answers.known? chart query).getD .none, answers) where
  within := .refl answers
  met := met
  value := rfl
  quiet := fun _ => rfl
  walks := fun expands _ => ⟨1, .step (.skip (met expands)) .none⟩

/-- To answer a query, its parts are asked for and added up. -/
theorem visited_of_parts {query : Query} (expands : chart.Expands query)
    (fresh : query ∉ answers.table)
    (visited : ∀ other later, (answers.expand query).Within later →
      grammar.Visited chart other later (ask other.item other.stop later))
    {sum : Tally × Answers}
    (added : (grammar.splits chart query.item query.stop).foldl (weigh ask query.stop)
      (.none, answers.expand query) = sum) :
    grammar.Visited chart query answers (sum.1, sum.2.settle query sum.1) := by
  have asked : askAll ask (answers.expand query) (grammar.parts chart query) = sum.2 := by
    rw [← added, foldl_weigh_snd]
    rfl
  have within : (answers.expand query).Within sum.2 := by
    rw [← asked]
    exact within_askAll visited (.refl _) _
  have settled : grammar.total chart sum.2 query = sum.1 := by
    rw [← added]
    exact foldl_weigh_eq_look visited (.refl _) query.stop .none _ (.refl _)
  constructor
  · intro other known found
    rw [Answers.getElem?_settle, if_neg]
    · exact within other known (Answers.within_expand fresh other known found)
    · rintro rfl
      rw [Std.TreeMap.getElem?_eq_none fresh] at found
      cases found
  · exact fun _ => Answers.mem_settle.mpr (.inl rfl)
  · rw [Answers.known?_of_expands expands, Answers.getElem?_settle, if_pos rfl]
    rfl
  · intro quiet
    rw [Answers.isPending_iff.mpr ⟨expands, fresh⟩] at quiet
    cases quiet
  · intro _ rest
    obtain ⟨count, walks⟩ := walks_askAll visited (.refl _) (grammar.parts chart query)
      (.settle query :: rest)
    rw [asked] at walks
    have settles : grammar.Walks chart 1 ⟨.settle query :: rest, sum.2⟩
        ⟨rest, sum.2.settle query sum.1⟩ := by
      rw [← settled]
      exact .step .settle .none
    exact ⟨_, .step (.expand fresh (.refl _)) (walks.append settles)⟩

end Asking

/-- The recursion does the tasks that a visit of its query leads to. The induction is on the
fuel, of which there is more than queries that have not been met. -/
theorem visited_tally (grammar : Grammar N T K) {chart : Chart N} {fuel : Nat} (query : Query)
    {answers : Answers} (enough : answers.remaining chart (fun _ => 1) < fuel) :
    grammar.Visited chart query answers
      (grammar.tally chart fuel query.item query.stop answers) := by
  induction fuel generalizing query answers with
  | zero => exact absurd enough (Nat.not_lt_zero _)
  | succ fuel ih =>
      obtain ⟨item, stop⟩ := query
      by_cases holds : chart.Holds ⟨item, stop⟩
      · rw [tally_of_holds holds]
        split
        next atStart =>
            have known := Answers.known?_of_dot_eq_zero holds atStart answers
            have visited := visited_of_met grammar answers
              fun expands : chart.Expands ⟨item, stop⟩ => absurd atStart expands.2
            rw [known] at visited
            exact visited
        next moved =>
            have expands : chart.Expands ⟨item, stop⟩ := ⟨holds, moved⟩
            split
            next known found =>
                have met : (⟨item, stop⟩ : Query) ∈ answers.table := by
                  rw [Std.TreeMap.mem_iff_isSome_getElem?, found]
                  rfl
                have visited := visited_of_met grammar answers fun _ : chart.Expands _ => met
                rw [Answers.known?_of_expands expands, found] at visited
                exact visited
            next unknown =>
                have fresh : (⟨item, stop⟩ : Query) ∉ answers.table := by
                  rw [Std.TreeMap.mem_iff_isSome_getElem?, unknown]
                  exact Bool.false_ne_true
                have lighter := Answers.remaining_expand (fun _ => 1) expands fresh
                refine visited_of_parts expands fresh (fun other later within => ?_) rfl
                have fewer := Answers.remaining_mono chart (fun _ => 1)
                  fun _ met => within.mem met
                exact ih other (by omega)
      · rw [tally_of_not_holds holds]
        have visited := visited_of_met grammar answers
          fun expands : chart.Expands ⟨item, stop⟩ => absurd expands.1 holds
        rw [Answers.known?_of_not_holds holds] at visited
        exact visited

section Runs

variable {grammar : Grammar N T K} {chart : Chart N}

/-- Asking for a query is a walk from the beginning to the end. -/
theorem Visited.walk {query : Query} {answers : Answers} {reply : Tally × Answers}
    (visited : grammar.Visited chart query answers reply) :
    ∃ count, grammar.Walks chart count (answers.walk chart query) ⟨[], reply.2⟩ := by
  rw [Answers.walk]
  split
  next known =>
      have settled : answers.isPending chart query = false := by
        rw [Answers.isPending, ← Option.not_isSome, known, Bool.not_true, Bool.and_false]
      rw [visited.quiet settled]
      exact ⟨0, .none⟩
  next unknown =>
      rw [Option.not_isSome_iff_eq_none] at unknown
      exact visited.walks (Answers.expands_of_known?_eq_none unknown) []

/-- The answers after some queries have been asked, one after another. -/
def asked (grammar : Grammar N T K) (chart : Chart N) (queries : List Query) : Answers :=
  askAll (grammar.tally chart (chart.itemCount + 1)) .empty queries

/-- To count derivations is to ask for the items that span them. -/
theorem derivations_snd (grammar : Grammar N T K) (chart : Chart N) (name : N)
    (start stop : Nat) (answers : Answers) :
    (grammar.derivations chart name start stop answers).2 =
      askAll (grammar.tally chart (chart.itemCount + 1)) answers
        ((chart.spanning name start stop).map fun item => ⟨item, stop⟩) := by
  rw [derivations, askAll, List.foldl_map]
  generalize Tally.none = total
  induction chart.spanning name start stop generalizing total answers with
  | nil => rfl
  | cons item others ih =>
      rw [List.foldl_cons, List.foldl_cons]
      exact ih _ _

theorem consistent_askAll {answers : Answers} (consistent : (Walk.mk [] answers).Consistent chart)
    (queries : List Query) :
    (Walk.mk [] (askAll (grammar.tally chart (chart.itemCount + 1)) answers queries)).Consistent
      chart := by
  induction queries generalizing answers with
  | nil => exact consistent
  | cons query others ih =>
      have enough := Nat.lt_succ_of_le (answers.remaining_le_itemCount chart)
      obtain ⟨count, walks⟩ := (visited_tally grammar query enough).walk
      exact ih (walks.consistent (consistent.begin query))

theorem consistent_asked (grammar : Grammar N T K) (chart : Chart N) (queries : List Query) :
    (Walk.mk [] (grammar.asked chart queries)).Consistent chart :=
  consistent_askAll (Walk.consistent_empty chart) queries

/-- How a query is answered task by task, in whatever order the parts of an item are visited. -/
structure AnsweredOnce (grammar : Grammar N T K) (chart : Chart N) (before : Answers)
    (query : Query) : Prop where
  /-- No query is expanded twice, counting those expanded before. -/
  once : ∀ count walk, grammar.Walks chart count (before.walk chart query) walk →
    walk.answers.opened.Nodup
  /-- There is a bound to the number of tasks, and as long as some task is left, one is done. -/
  bounded : ∀ count walk, grammar.Walks chart count (before.walk chart query) walk →
    count ≤ (chart.queries.map fun other => (grammar.parts chart other).length + 1).sum + 1 ∧
      (walk.tasks ≠ [] → ∃ later, grammar.Advances chart walk later)
  /-- When no task is left, every query touched on the way has been evaluated. -/
  evaluated : ∀ count walk count' last,
    grammar.Walks chart count (before.walk chart query) walk →
      grammar.Walks chart count' walk last → last.tasks = [] →
        ∀ other, walk.Touches other → ∃ tally, last.answers.table[other]? = some (some tally)
  /-- The recursion takes such a walk up to its end, and replies with what is known then. -/
  recursion :
    let reply := grammar.tally chart (chart.itemCount + 1) query.item query.stop before
    (∃ count, grammar.Walks chart count (before.walk chart query) ⟨[], reply.2⟩) ∧
      some reply.1 = reply.2.known? chart query

theorem answeredOnce {before : Answers} (consistent : (Walk.mk [] before).Consistent chart)
    (query : Query) : grammar.AnsweredOnce chart before query := by
  have begins := consistent.begin query
  constructor
  · exact fun _ _ walks => (walks.consistent begins).distinct
  · intro count walk walks
    refine ⟨?_, exists_advances grammar chart⟩
    have one : (before.walk chart query).tasks.length ≤ 1 := by
      rw [Answers.walk]
      split <;> simp
    have most := before.remaining_le chart (grammar.burden chart)
    calc count
        ≤ grammar.effort chart (before.walk chart query) := walks.count_le begins
      _ ≤ 1 + (chart.queries.map (grammar.burden chart)).sum := Nat.add_le_add one most
      _ = _ := Nat.add_comm _ _
  · intro _ _ _ _ walks others finished other touched
    have consistent := others.consistent (walks.consistent begins)
    exact consistent.evaluated finished (others.touches touched)
  · have enough := Nat.lt_succ_of_le (before.remaining_le_itemCount chart)
    have visited := visited_tally grammar query enough
    obtain ⟨count, walks⟩ := visited.walk
    refine ⟨⟨count, walks⟩, ?_⟩
    have known := (walks.consistent begins).known?_isSome rfl visited.met
    obtain ⟨tally, found⟩ := Option.isSome_iff_exists.mp known
    rw [visited.value, found, Option.getD_some]

end Runs

/-- Whatever the grammar, the set of every boundary is closed by handling each item that comes
into it once, and recognition closes one such set after another. A query is expanded at most once,
in whatever order queries are asked and their parts are visited, and every query touched on the
way is evaluated in the end. -/
theorem workedOff_and_answeredOnce (grammar : Grammar N T K) (start : N) (tokens : List K) :
    (∀ here ≤ tokens.length,
      (grammar.opening start tokens here).1.size = here ∧
        grammar.WorkedOff tokens (grammar.opening start tokens here).1 tokens[here]?
          (grammar.opening start tokens here).2) ∧
    grammar.Follows start tokens (grammar.recognize start tokens) ∧
    (∀ chart queries query, grammar.AnsweredOnce chart (grammar.asked chart queries) query) ∧
    ∀ chart queries name first stop,
      (grammar.derivations chart name first stop (grammar.asked chart queries)).2 =
        grammar.asked chart
          (queries ++ (chart.spanning name first stop).map fun item => ⟨item, stop⟩) := by
  refine ⟨?_, follows_recognize grammar start tokens, ?_, ?_⟩
  · intro here within
    obtain ⟨earlier, fresh⟩ := fresh_opening grammar start within
    exact ⟨size_opening here, fresh.workedOff earlier tokens[here]?⟩
  · intro chart queries query
    exact answeredOnce (consistent_asked grammar chart queries) query
  · intro chart queries name first stop
    rw [derivations_snd, asked, asked, askAll, askAll, askAll, List.foldl_append]

/-- A nonterminal that derives itself, twice itself, nothing and any token that is true. -/
def loops : Grammar (Fin 1) Unit Bool where
  productions := [
    ⟨0, [.nonterminal 0], none⟩,
    ⟨0, [.nonterminal 0, .nonterminal 0], none⟩,
    ⟨0, [], none⟩,
    ⟨0, [.terminal ()], none⟩]
  accepts := fun _ token => token

theorem workedOff_and_answeredOnce_loops :
    (∃ chart, loops.recognize 0 [true, true] = .ok chart ∧
      chart = (loops.opening 0 [true, true] 3).1 ∧
      loops.WorkedOff [true, true] (loops.opening 0 [true, true] 1).1 (some true)
        (loops.opening 0 [true, true] 1).2 ∧
      loops.AnsweredOnce chart (loops.asked chart [⟨⟨0, 1, 0⟩, 1⟩]) ⟨⟨1, 2, 0⟩, 2⟩) ∧
    loops.recognize 0 [true, false] = .error (.stuck 1) ∧
      (loops.opening 0 [true, false] 2).2.agenda = [] := by
  constructor
  · obtain ⟨worked, follows, answered, _⟩ := workedOff_and_answeredOnce loops 0 [true, true]
    have recognizes : (loops.recognize 0 [true, true]).isOk = true := by decide +kernel
    cases recognized : loops.recognize 0 [true, true] with
    | error rejection =>
        rw [recognized] at recognizes
        cases recognizes
    | ok chart =>
        rw [recognized] at follows
        exact ⟨chart, rfl, follows, (worked 1 (by decide)).2, answered chart _ _⟩
  · have rejects : (match loops.recognize 0 [true, false] with
        | .ok _ => none
        | .error rejection => some rejection) = some (.stuck 1) := by decide +kernel
    cases recognized : loops.recognize 0 [true, false] with
    | ok chart =>
        rw [recognized] at rejects
        cases rejects
    | error rejection =>
        rw [recognized] at rejects
        cases rejects
        obtain ⟨_, follows, _⟩ := workedOff_and_answeredOnce loops 0 [true, false]
        rw [recognized] at follows
        exact ⟨rfl, follows⟩

end Grammar

end Krl

import Krl.Proofs.Grammar.Reach

/-!
# Closing the set of a boundary

While a set is in the making, all its items are reached at the boundary and the ones
that were handled have got what they call for. When no item is left to be handled,
the set holds every item that is reached there, provided the earlier sets do. An
item that completes a phrase without tokens may miss dots that start to wait for it
later; those dots were moved when they began to wait, as such a phrase is nullable.
-/

namespace Krl

namespace Grammar

variable {N T K : Type} [DecidableEq N]

/-- A set has got what one of its items calls for. -/
structure Settled (grammar : Grammar N T K) (tokens : List K) (chart : Chart N)
    (set : ItemSet N) (item : Item) : Prop where
  predicts : ∀ name, grammar.symbolAt item = some (.nonterminal name) →
    ∀ other ∈ grammar.predictions name chart.size,
      grammar.vetoes tokens chart.size other = false → other ∈ set.members
  skips : ∀ name, grammar.symbolAt item = some (.nonterminal name) → name ∈ grammar.nullable →
    grammar.vetoes tokens chart.size item.advance = false → item.advance ∈ set.members
  completes : ∀ production, grammar.productions[item.production]? = some production →
    production.rhs[item.dot]? = none → ∀ origin, chart[item.start]? = some origin →
      ∀ parent ∈ origin.waitingFor production.lhs,
        grammar.vetoes tokens chart.size parent.advance = false →
          parent.advance ∈ set.members

theorem Settled.mono {grammar : Grammar N T K} {tokens : List K} {chart : Chart N}
    {smaller larger : ItemSet N} {item : Item}
    (settled : grammar.Settled tokens chart smaller item)
    (grown : ∀ other ∈ smaller.members, other ∈ larger.members) :
    grammar.Settled tokens chart larger item where
  predicts := fun name found other predicted admitted =>
    grown other (settled.predicts name found other predicted admitted)
  skips := fun name found nullable admitted =>
    grown item.advance (settled.skips name found nullable admitted)
  completes := fun production listed atEnd origin earlier parent waits admitted =>
    grown parent.advance (settled.completes production listed atEnd origin earlier parent waits
      admitted)

/-- The set holds what is reached at its boundary, all of it handled and in the books. -/
structure Gathered (grammar : Grammar N T K) (tokens : List K) (start : N) (set : ItemSet N)
    (here : Nat) : Prop where
  reaches_iff : ∀ item, item ∈ set.members ↔ grammar.Reaches tokens start item here
  distinct : set.handled.Nodup
  listed : ∀ item, item ∈ set.handled ↔ item ∈ set.members
  waiting : set.waiting = set.handled.filterMap grammar.awaiting
  complete : set.complete = set.handled.filterMap grammar.matching

/-- All sets of a chart hold what is reached at their boundaries. -/
def GatheredChart (grammar : Grammar N T K) (tokens : List K) (start : N) (chart : Chart N) :
    Prop :=
  ∀ (here : Nat) (set : ItemSet N), chart[here]? = some set →
    grammar.Gathered tokens start set here

/-- What holds of a set in the making after each step. -/
structure Progress (grammar : Grammar N T K) (tokens : List K) (start : N) (chart : Chart N)
    (next : Option K) (stage : Stage N) : Prop where
  orderly : Orderly stage
  books : grammar.Books next stage stage.set.handled
  reached : ∀ item ∈ stage.set.members, grammar.Reaches tokens start item chart.size
  settled : ∀ item ∈ stage.set.handled, grammar.Settled tokens chart stage.set item

section Step

variable {grammar : Grammar N T K} {tokens : List K} {start : N} {chart : Chart N}
  {next : Option K} {stage : Stage N} {item : Item} {others : List Item}

theorem Progress.handled_mem (progress : grammar.Progress tokens start chart next stage)
    {other : Item} (handled : other ∈ stage.set.handled) : other ∈ stage.set.members :=
  (progress.orderly.listed other).mp (List.mem_append_right _ handled)

theorem Progress.agenda_mem (progress : grammar.Progress tokens start chart next stage)
    {other : Item} (waits : other ∈ stage.agenda) : other ∈ stage.set.members :=
  (progress.orderly.listed other).mp (List.mem_append_left _ waits)

/-- Whatever waits in the origin of an item is reached where the item starts. -/
theorem Progress.origin_reached (progress : grammar.Progress tokens start chart next stage)
    (earlier : grammar.GatheredChart tokens start chart) (started : item.start ≤ chart.size)
    {name : N} {parent : Item}
    (waits : parent ∈ ((stage.take item others).origin chart item).waitingFor name) :
    grammar.Reaches tokens start parent item.start ∧
      grammar.symbolAt parent = some (.nonterminal name) := by
  rw [Stage.origin] at waits
  cases found : chart[item.start]? with
  | some set =>
      rw [found, Option.getD_some] at waits
      have holds := earlier item.start set found
      have entry := (mem_waitingFor_iff holds.waiting).mp waits
      exact ⟨(holds.reaches_iff parent).mp ((holds.listed parent).mp entry.1), entry.2⟩
  | none =>
      rw [found, Option.getD_none] at waits
      have waiting : (stage.take item others).set.waiting = _ := progress.books.waiting
      have entry := (mem_waitingFor_iff waiting).mp waits
      have here : item.start = chart.size :=
        Nat.le_antisymm started (Array.getElem?_eq_none_iff.mp found)
      rw [here]
      exact ⟨progress.reached parent (progress.handled_mem entry.1), entry.2⟩

/-- What an item calls for is reached at the boundary, unless it is vetoed. -/
theorem Progress.consequences_reached (progress : grammar.Progress tokens start chart next stage)
    (earlier : grammar.GatheredChart tokens start chart)
    (member : item ∈ stage.set.members) {other : Item}
    (called : other ∈ grammar.consequences grammar.nullable chart (stage.take item others) item)
    (admitted : grammar.vetoes tokens chart.size other = false) :
    grammar.Reaches tokens start other chart.size := by
  have reached := progress.reached item member
  obtain ⟨production, listed, _⟩ := reached.listed
  rw [consequences, listed] at called
  simp only at called
  split at called
  next atEnd =>
      -- The item has matched: the dots that waited where it starts move over its phrase.
      obtain ⟨parent, waits, rfl⟩ := List.mem_map.mp called
      obtain ⟨outer, awaits⟩ := progress.origin_reached earlier reached.start_le waits
      rcases Nat.lt_or_eq_of_le reached.start_le with proper | empty
      · exact reached.complete listed atEnd proper outer awaits admitted
      · rw [empty] at outer
        exact reached.complete_empty listed atEnd (Nat.le_of_eq empty.symm) outer awaits admitted
  next name atDot =>
      have awaits := symbolAt_eq_some_iff.mpr ⟨production, listed, atDot⟩
      rcases List.mem_append.mp called with predicted | skipped
      · have begins : other ∈ grammar.predictions name chart.size := by
          split at predicted
          · cases predicted
          · exact predicted
        exact reached.predict awaits begins admitted
      · split at skipped
        next nullable =>
            cases List.mem_singleton.mp skipped
            exact reached.skip awaits (List.contains_iff_mem.mp nullable) admitted
        next => cases skipped
  next => cases called

/-- A set with the consequences of an item has got what the item calls for. -/
theorem Progress.settles (progress : grammar.Progress tokens start chart next stage)
    {set : ItemSet N} (grown : ∀ other ∈ stage.set.members, other ∈ set.members)
    (added : ∀ other ∈ grammar.consequences grammar.nullable chart (stage.take item others) item,
      grammar.vetoes tokens chart.size other = false → other ∈ set.members) :
    grammar.Settled tokens chart set item where
  predicts := by
    intro name found other predicted admitted
    obtain ⟨production, listed, atDot⟩ := symbolAt_eq_some_iff.mp found
    cases awaited : stage.set.isAwaited name with
    | true =>
        -- Some handled item awaits the same nonterminal, which is predicted already.
        obtain ⟨waiter, handled, alsoFound⟩ := (isAwaited_iff progress.books.waiting).mp awaited
        exact grown other ((progress.settled waiter handled).predicts name alsoFound other
          predicted admitted)
    | false =>
        apply added other _ admitted
        have fresh : (stage.take item others).set.isAwaited name = false := awaited
        rw [consequences, listed]
        simp only [atDot, fresh]
        exact List.mem_append_left _ predicted
  skips := by
    intro name found nullable admitted
    obtain ⟨production, listed, atDot⟩ := symbolAt_eq_some_iff.mp found
    apply added item.advance _ admitted
    rw [consequences, listed]
    simp only [atDot, List.contains_iff_mem.mpr nullable]
    exact List.mem_append_right _ List.mem_cons_self
  completes := by
    intro production listed atEnd origin found parent waits admitted
    apply added parent.advance _ admitted
    rw [consequences, listed]
    simp only [atEnd, Stage.origin, found, Option.getD_some]
    exact List.mem_map_of_mem waits

theorem Progress.handle (progress : grammar.Progress tokens start chart next stage)
    (earlier : grammar.GatheredChart tokens start chart)
    (agenda : stage.agenda.Perm (item :: others)) :
    grammar.Progress tokens start chart next
      (grammar.handle grammar.nullable tokens chart next (stage.take item others) item) := by
  have member : item ∈ stage.set.members :=
    progress.agenda_mem (agenda.mem_iff.mpr List.mem_cons_self)
  rw [handle_eq]
  have grown : ∀ other ∈ stage.set.members, other ∈
      (grammar.addAll tokens chart.size (grammar.note next (stage.take item others) item)
        (grammar.consequences grammar.nullable chart (stage.take item others)
          item)).set.members :=
    fun other old => mem_addAll_iff.mpr (.inl old)
  have noted : grammar.Books next (grammar.note next (stage.take item others) item)
      (item :: stage.set.handled) :=
    progress.books.note item others
  constructor
  · have taken := progress.orderly.take agenda
    have orderly : Orderly (grammar.note next (stage.take item others) item) :=
      ⟨taken.distinct, taken.listed⟩
    exact orderly.addAll _
  · rw [handled_addAll]
    exact noted.addAll _
  · intro other found
    rcases mem_addAll_iff.mp found with old | ⟨called, admitted⟩
    · exact progress.reached other old
    · exact progress.consequences_reached earlier member called admitted
  · intro other found
    rw [handled_addAll] at found
    rcases List.mem_cons.mp found with rfl | old
    · exact progress.settles grown fun other called admitted =>
        mem_addAll_iff.mpr (.inr ⟨called, admitted⟩)
    · exact (progress.settled other old).mono grown

end Step

section Drain

variable {grammar : Grammar N T K} {tokens : List K} {start : N} {chart : Chart N}
  {next : Option K} {stage : Stage N}

theorem Progress.length_le (progress : grammar.Progress tokens start chart next stage) :
    stage.agenda.length + stage.set.handled.length ≤ grammar.capacity chart.size := by
  rw [← List.length_append, ← length_candidates]
  apply List.Subperm.length_le
  apply List.Nodup.subperm progress.orderly.distinct
  intro item found
  exact (progress.reached item ((progress.orderly.listed item).mp found)).mem_candidates

/-- With fuel for every item that can stand at the boundary, all items get handled. -/
theorem Progress.drain (earlier : grammar.GatheredChart tokens start chart) {fuel : Nat}
    (progress : grammar.Progress tokens start chart next stage)
    (enough : grammar.capacity chart.size ≤ fuel + stage.set.handled.length) :
    let drained := grammar.drain grammar.nullable tokens chart next fuel stage
    grammar.Progress tokens start chart next drained ∧ drained.agenda = [] ∧
      ∀ item ∈ stage.set.members, item ∈ drained.set.members := by
  induction fuel generalizing stage with
  | zero =>
      have bound := progress.length_le
      refine ⟨progress, ?_, fun _ member => member⟩
      show stage.agenda = []
      exact List.eq_nil_of_length_eq_zero (by omega)
  | succ fuel ih =>
      rw [Grammar.drain]
      split
      next agenda => exact ⟨progress, agenda, fun _ member => member⟩
      next item others agenda =>
          have stepped := progress.handle earlier (.of_eq agenda)
          have oneMore : (grammar.handle grammar.nullable tokens chart next
              (stage.take item others) item).set.handled.length =
                stage.set.handled.length + 1 := by
            rw [handle_eq, handled_addAll]
            rfl
          obtain ⟨finished, empty, kept⟩ := ih stepped (by omega)
          refine ⟨finished, empty, fun other member => kept other ?_⟩
          rw [handle_eq]
          exact mem_addAll_iff.mpr (.inl member)

end Drain

/-- What is added before any item is handled: at the first boundary the productions
of the start symbol, and at later ones the items that move over the token before. -/
structure Seeded (grammar : Grammar N T K) (tokens : List K) (start : N) (here : Nat)
    (set : ItemSet N) : Prop where
  first : here = 0 → ∀ item ∈ grammar.predictions start 0,
    grammar.vetoes tokens 0 item = false → item ∈ set.members
  later : ∀ before item expected token, here = before + 1 →
    grammar.Reaches tokens start item before →
      grammar.symbolAt item = some (.terminal expected) →
        tokens[before]? = some token → grammar.accepts expected token = true →
          grammar.vetoes tokens here item.advance = false → item.advance ∈ set.members

section Completeness

variable {grammar : Grammar N T K} {tokens : List K} {start : N} {chart : Chart N}
  {next : Option K} {stage : Stage N}

theorem Progress.settled_of_mem (progress : grammar.Progress tokens start chart next stage)
    (finished : stage.agenda = []) {item : Item} (member : item ∈ stage.set.members) :
    grammar.Settled tokens chart stage.set item := by
  have listed := (progress.orderly.listed item).mpr member
  rw [finished, List.nil_append] at listed
  exact progress.settled item listed

/-- What is reached at the boundary is in the closed set. The induction is on the steps that
reach it. -/
theorem Progress.reached_mem (progress : grammar.Progress tokens start chart next stage)
    (finished : stage.agenda = []) (seeded : grammar.Seeded tokens start chart.size stage.set)
    (earlier : grammar.GatheredChart tokens start chart) {item : Item} {here : Nat}
    (reached : grammar.Reaches tokens start item here) (same : here = chart.size) :
    item ∈ stage.set.members := by
  induction reached with
  | first begins admitted => exact seeded.first same.symm _ begins admitted
  | predict _ awaits begins admitted ih =>
      subst same
      exact (progress.settled_of_mem finished (ih rfl)).predicts _ awaits _ begins admitted
  | skip _ awaits nullable admitted ih =>
      subst same
      exact (progress.settled_of_mem finished (ih rfl)).skips _ awaits nullable admitted
  | shift outer awaits found accepted admitted _ =>
      rw [same] at admitted
      exact seeded.later _ _ _ _ same.symm outer awaits found accepted admitted
  | @complete item _ _ _ _ listed atEnd proper outer awaits admitted innerIh _ =>
      subst same
      -- The phrase has tokens, so that its parent waits in an earlier set.
      have found : chart[item.start]? = some chart[item.start] :=
        Array.getElem?_eq_getElem proper
      have set := earlier _ _ found
      have waits := (mem_waitingFor_iff set.waiting).mpr
        ⟨(set.listed _).mpr ((set.reaches_iff _).mpr outer), awaits⟩
      exact (progress.settled_of_mem finished (innerIh rfl)).completes _ listed atEnd _ found _
        waits admitted

/-- A closed set holds what is reached at its boundary. -/
theorem Progress.gathered (progress : grammar.Progress tokens start chart next stage)
    (finished : stage.agenda = []) (seeded : grammar.Seeded tokens start chart.size stage.set)
    (earlier : grammar.GatheredChart tokens start chart) :
    grammar.Gathered tokens start stage.set chart.size where
  reaches_iff := fun item =>
    ⟨progress.reached item,
      fun reached => progress.reached_mem finished seeded earlier reached rfl⟩
  distinct := by
    have distinct := progress.orderly.distinct
    rw [finished, List.nil_append] at distinct
    exact distinct
  listed := by
    intro item
    have listed := progress.orderly.listed item
    rw [finished, List.nil_append] at listed
    exact listed
  waiting := progress.books.waiting
  complete := progress.books.complete

end Completeness

section Exactness

variable {grammar : Grammar N T K} {tokens : List K} {start : N}

/-- All sets of a chart hold what stands at their boundaries. -/
def ExactChart (grammar : Grammar N T K) (tokens : List K) (start : N) (chart : Chart N) : Prop :=
  ∀ (here : Nat) (set : ItemSet N), chart[here]? = some set →
    grammar.Exact tokens start set here

/-- Unless guards can object to the match of nothing, what is reached is what stands. -/
theorem Gathered.exact (free : grammar.ErasesFreely) {set : ItemSet N} {here : Nat}
    (gathered : grammar.Gathered tokens start set here) :
    grammar.Exact tokens start set here where
  stands_iff := fun item => (gathered.reaches_iff item).trans (reaches_iff_stands free)
  distinct := gathered.distinct
  listed := gathered.listed
  waiting := gathered.waiting
  complete := gathered.complete

theorem GatheredChart.exact (free : grammar.ErasesFreely) {chart : Chart N}
    (gathered : grammar.GatheredChart tokens start chart) :
    grammar.ExactChart tokens start chart :=
  fun here set found => (gathered here set found).exact free

end Exactness

end Grammar

end Krl

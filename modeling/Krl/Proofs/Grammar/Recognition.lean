import Krl.Proofs.Grammar.Closure

/-!
# Recognition

The set of every boundary holds the items that are reached there, so the chart of
some tokens is exact unless guards can object to the match of nothing. A chart is
refused only when no derivation of the start symbol covers the tokens, because every
derivation takes each of its tokens through an item that stands before the token.
-/

namespace Krl

namespace Grammar

variable {N T K : Type}

/-- Some item can move over the token at an index. -/
def Takes (grammar : Grammar N T K) (tokens : List K) (start : N) (here : Nat) : Prop :=
  ∃ production item expected token,
    grammar.Stands tokens start production item here ∧
      production.rhs[item.dot]? = some (.terminal expected) ∧ tokens[here]? = some token ∧
        grammar.accepts expected token = true ∧
          grammar.vetoes tokens (here + 1) item.advance = false

/-- Every token under a part of a production is taken by some item. The induction
is on the derivation of the symbols behind the dot. -/
theorem Derives.takes {grammar : Grammar N T K} {tokens : List K} {start : N}
    {symbols : List (Symbol N T)} {first stop : Nat} {trees : List Derivation}
    (derived : grammar.Derives tokens symbols first stop trees)
    {index dot origin : Nat} {production : Production N T K}
    (listed : grammar.productions[index]? = some production)
    (behind : production.rhs.drop dot = symbols)
    (predicted : grammar.Predicted tokens start production.lhs origin)
    (earlier : ∃ before,
      grammar.Derives tokens (production.rhs.take dot) origin first before)
    (admitted : production.Admits tokens origin stop)
    {here : Nat} (above : first ≤ here) (below : here < stop) :
    grammar.Takes tokens start here := by
  induction derived generalizing index dot origin production with
  | nil => omega
  | @leaf expected others first stop siblings token found accepted rest ih =>
      obtain ⟨atDot, rfl⟩ := of_drop_eq_cons behind
      have inside := (List.getElem?_eq_some_iff.mp atDot).1
      rcases Nat.eq_or_lt_of_le above with rfl | later
      · refine ⟨production, ⟨index, dot, origin⟩, expected, token, ?_, atDot, found, accepted, ?_⟩
        · exact ⟨listed, Nat.le_of_lt inside, predicted, earlier,
            fun atEnd => absurd atEnd (Nat.ne_of_lt inside)⟩
        · -- A production that ends with this token ends where the derivation does.
          apply (vetoes_eq_false_iff ⟨index, dot + 1, origin⟩ listed).mpr
          intro atEnd
          have last : dot + 1 = production.rhs.length := atEnd
          rw [List.drop_of_length_le (Nat.le_of_eq last.symm), derives_nil_iff] at rest
          rw [rest.1]
          exact admitted
      · exact ih listed rfl predicted (derives_take_succ atDot earlier (.leaf found accepted .nil))
          admitted later below
  | node found allowed inner _ innerIh restIh =>
      obtain ⟨atDot, rfl⟩ := of_drop_eq_cons behind
      rcases Nat.lt_or_ge here _ with under | later
      · obtain ⟨before, derived⟩ := earlier
        exact innerIh found List.drop_zero (.next listed atDot predicted derived) ⟨[], .nil⟩
          allowed above under
      · exact restIh listed rfl predicted
          (derives_take_succ atDot earlier (.node found allowed inner .nil)) admitted later below

/-- Every token of a text with a derivation is taken by some item. -/
theorem IsDerivation.takes {grammar : Grammar N T K} {tokens : List K} {start : N}
    {stop : Nat} {tree : Derivation}
    (derivation : grammar.IsDerivation tokens start 0 stop tree) {here : Nat}
    (below : here < stop) : grammar.Takes tokens start here := by
  obtain ⟨index, production, children, listed, lhs, admitted, derived, _⟩ :=
    derives_nonterminal_iff.mp derivation
  have predicted : grammar.Predicted tokens start production.lhs 0 := by
    rw [lhs]
    exact .first
  exact derived.takes listed List.drop_zero predicted ⟨[], .nil⟩ admitted (Nat.zero_le _) below

variable {grammar : Grammar N T K} {tokens : List K} {start : N}

/-- Where a token is taken, some item that is reached moves over it. -/
theorem Takes.passes [DecidableEq N] {here : Nat} (takes : grammar.Takes tokens start here) :
    grammar.Passes tokens start here := by
  obtain ⟨production, item, expected, token, stands, atDot, found, accepted, admitted⟩ := takes
  exact ⟨item, expected, token, stands.reaches,
    symbolAt_eq_some_iff.mpr ⟨production, stands.listed, atDot⟩, found, accepted, admitted⟩

section Fill

variable [DecidableEq N]

/-- A finished set in the making, and the items that move on from it. -/
structure Closed (grammar : Grammar N T K) (tokens : List K) (start : N) (here : Nat)
    (next : Option K) (stage : Stage N) : Prop where
  gathered : grammar.Gathered tokens start stage.set here
  moved : stage.moved = stage.set.handled.filterMap (grammar.moving next)

/-- The items that move on are those whose dot stands before a class of the token. -/
theorem Closed.mem_moved_iff {here : Nat} {next : Option K} {stage : Stage N}
    (closed : grammar.Closed tokens start here next stage) {moved : Item} :
    moved ∈ stage.moved ↔
      ∃ item expected token, grammar.Reaches tokens start item here ∧
        grammar.symbolAt item = some (.terminal expected) ∧ next = some token ∧
          grammar.accepts expected token = true ∧ moved = item.advance := by
  rw [closed.moved, List.mem_filterMap]
  simp only [closed.gathered.listed, closed.gathered.reaches_iff, moving_eq_some_iff,
    exists_and_left]

theorem GatheredChart.push {chart : Chart N} {set : ItemSet N}
    (earlier : grammar.GatheredChart tokens start chart)
    (last : grammar.Gathered tokens start set chart.size) :
    grammar.GatheredChart tokens start (chart.push set) := by
  intro here other found
  rw [Array.getElem?_push] at found
  split at found
  next atEnd =>
      cases found
      rw [atEnd]
      exact last
  next => exact earlier here other found

/-- A stage that nothing has been done to but adding items that are reached. -/
structure Fresh (grammar : Grammar N T K) (tokens : List K) (start : N) (here : Nat)
    (stage : Stage N) : Prop where
  orderly : Orderly stage
  unhandled : stage.set.handled = []
  unused : stage.set.waiting = [] ∧ stage.set.complete = [] ∧ stage.moved = []
  reached : ∀ item ∈ stage.set.members, grammar.Reaches tokens start item here
  seeded : grammar.Seeded tokens start here stage.set

theorem Fresh.progress {chart : Chart N} {stage : Stage N}
    (fresh : grammar.Fresh tokens start chart.size stage) (next : Option K) :
    grammar.Progress tokens start chart next stage where
  orderly := fresh.orderly
  books := by
    obtain ⟨waiting, complete, moved⟩ := fresh.unused
    rw [fresh.unhandled]
    exact ⟨waiting, complete, moved⟩
  reached := fresh.reached
  settled := by
    intro item handled
    rw [fresh.unhandled] at handled
    cases handled

theorem Seeded.mono {here : Nat} {smaller larger : ItemSet N}
    (seeded : grammar.Seeded tokens start here smaller)
    (grown : ∀ item ∈ smaller.members, item ∈ larger.members) :
    grammar.Seeded tokens start here larger where
  first := fun atStart item predicted admitted =>
    grown item (seeded.first atStart item predicted admitted)
  later := fun before item expected token behind reached awaits found accepted admitted =>
    grown item.advance
      (seeded.later before item expected token behind reached awaits found accepted admitted)

/-- Seeds that are reached make a fresh stage when they are all there are. -/
theorem fresh_seed {here : Nat} {items : List Item}
    (reached : ∀ item ∈ items, grammar.vetoes tokens here item = false →
      grammar.Reaches tokens start item here)
    (seeded : grammar.Seeded tokens start here (grammar.seed tokens here items).set) :
    grammar.Fresh tokens start here (grammar.seed tokens here items) where
  orderly := by
    have orderly : Orderly (⟨.empty, [], []⟩ : Stage N) :=
      ⟨List.nodup_nil, fun item => iff_of_false List.not_mem_nil Std.TreeSet.not_mem_emptyc⟩
    exact orderly.addAll items
  unhandled := handled_addAll
  unused := by
    have books : grammar.Books none (⟨.empty, [], []⟩ : Stage N) [] := ⟨rfl, rfl, rfl⟩
    have same : grammar.Books none (grammar.addAll tokens here ⟨.empty, [], []⟩ items) [] :=
      books.addAll items
    exact ⟨same.waiting, same.complete, same.moved⟩
  reached := by
    intro item member
    rcases mem_addAll_iff.mp member with absent | ⟨listed, admitted⟩
    · exact absurd absent Std.TreeSet.not_mem_emptyc
    · exact reached item listed admitted
  seeded := seeded

theorem fresh_first : grammar.Fresh tokens start 0
    (grammar.seed tokens 0 (grammar.predictions start 0)) := by
  apply fresh_seed
  · intro item begins admitted
    exact .first begins admitted
  · constructor
    · intro _ item begins admitted
      exact mem_addAll_iff.mpr (.inr ⟨begins, admitted⟩)
    · intro before _ _ _ impossible
      omega

theorem Fresh.close {chart : Chart N} (earlier : grammar.GatheredChart tokens start chart)
    {stage : Stage N} (fresh : grammar.Fresh tokens start chart.size stage) (next : Option K) :
    grammar.Closed tokens start chart.size next
      (grammar.close grammar.nullable tokens chart next stage) := by
  obtain ⟨progress, finished, kept⟩ :=
    (fresh.progress next).drain earlier (Nat.le_add_right (grammar.capacity chart.size) _)
  exact ⟨progress.gathered finished (fresh.seeded.mono kept) earlier, progress.books.moved⟩

theorem Closed.fresh {here : Nat} {token : K} {stage : Stage N}
    (closed : grammar.Closed tokens start here (some token) stage)
    (found : tokens[here]? = some token) :
    grammar.Fresh tokens start (here + 1) (grammar.seed tokens (here + 1) stage.moved) := by
  apply fresh_seed
  · intro item moved admitted
    obtain ⟨before, expected, other, reached, awaits, same, accepted, rfl⟩ :=
      closed.mem_moved_iff.mp moved
    cases same
    exact reached.shift awaits found accepted admitted
  · constructor
    · intro impossible
      omega
    · intro before item expected other behind reached awaits alsoFound accepted admitted
      obtain rfl : here = before := by omega
      rw [found] at alsoFound
      cases alsoFound
      exact mem_addAll_iff.mpr (.inr ⟨closed.mem_moved_iff.mpr
        ⟨item, expected, token, reached, awaits, rfl, accepted, rfl⟩, admitted⟩)

/-- The set behind a token begins with some items just when one moves over the token. -/
theorem Closed.passes_iff {here : Nat} {token : K} {stage : Stage N}
    (closed : grammar.Closed tokens start here (some token) stage)
    (found : tokens[here]? = some token) :
    grammar.Passes tokens start here ↔
      (grammar.seed tokens (here + 1) stage.moved).agenda ≠ [] := by
  have fresh := closed.fresh found
  have listed := fresh.orderly.listed
  rw [fresh.unhandled, List.append_nil] at listed
  constructor
  · rintro ⟨item, expected, other, reached, awaits, alsoFound, accepted, admitted⟩
    rw [found] at alsoFound
    cases alsoFound
    have moved := closed.mem_moved_iff.mpr
      ⟨item, expected, token, reached, awaits, rfl, accepted, rfl⟩
    exact List.ne_nil_of_mem ((listed _).mpr (mem_addAll_iff.mpr (.inr ⟨moved, admitted⟩)))
  · intro some_
    obtain ⟨moved, member⟩ := List.exists_mem_of_ne_nil _ some_
    rcases mem_addAll_iff.mp ((listed moved).mp member) with absent | ⟨called, admitted⟩
    · exact absurd absent Std.TreeSet.not_mem_emptyc
    · obtain ⟨item, expected, other, reached, awaits, same, accepted, rfl⟩ :=
        closed.mem_moved_iff.mp called
      cases same
      exact ⟨item, expected, token, reached, awaits, found, accepted, admitted⟩

/-- What the outcome of filling a chart tells: the sets hold what is reached, and some item
moves over each token, or none does over the first of those that stop the reading. -/
def Filled (grammar : Grammar N T K) (tokens : List K) (start : N) :
    Except Rejection (Chart N) → Prop
  | .ok chart => grammar.GatheredChart tokens start chart ∧ chart.size = tokens.length + 1 ∧
      ∀ here < tokens.length, grammar.Passes tokens start here
  | .error (.stuck here) => here < tokens.length ∧ ¬grammar.Passes tokens start here ∧
      ∀ earlier < here, grammar.Passes tokens start earlier
  | .error .short => False

theorem filled_fill {left : List K} {chart : Chart N} {stage : Stage N}
    (earlier : grammar.GatheredChart tokens start chart)
    (fresh : grammar.Fresh tokens start chart.size stage)
    (passed : ∀ here < chart.size, grammar.Passes tokens start here)
    (rest : tokens.drop chart.size = left) (within : chart.size ≤ tokens.length) :
    grammar.Filled tokens start (grammar.fill grammar.nullable tokens left chart stage) := by
  induction left generalizing chart stage with
  | nil =>
      have atEnd := List.drop_eq_nil_iff.mp rest
      have closed := fresh.close earlier none
      refine ⟨earlier.push closed.gathered, ?_, fun here below => passed here (by omega)⟩
      rw [Array.size_push]
      omega
  | cons token left ih =>
      obtain ⟨found, remaining⟩ := of_drop_eq_cons rest
      have inside := (List.getElem?_eq_some_iff.mp found).1
      have closed := fresh.close earlier (some token)
      have passes := closed.passes_iff found
      rw [fill]
      split
      next empty =>
          rw [List.isEmpty_iff] at empty
          exact ⟨inside, fun takes => passes.mp takes empty, passed⟩
      next nonempty =>
          rw [List.isEmpty_iff] at nonempty
          apply ih (earlier.push closed.gathered)
          · rw [Array.size_push]
            exact closed.fresh found
          · rw [Array.size_push]
            intro here below
            rcases Nat.lt_succ_iff_lt_or_eq.mp below with before | rfl
            · exact passed here before
            · exact passes.mpr nonempty
          · rw [Array.size_push, remaining]
          · rw [Array.size_push]
            exact inside

/-- What the chart of some tokens tells, for any grammar. -/
theorem filled_recognize (grammar : Grammar N T K) (start : N) (tokens : List K) :
    grammar.Filled tokens start (grammar.fill grammar.nullable tokens tokens #[]
      (grammar.seed tokens 0 (grammar.predictions start 0))) := by
  have none_ : grammar.GatheredChart tokens start #[] := by
    intro here set found
    cases found
  exact filled_fill none_ fresh_first (fun _ below => absurd below (Nat.not_lt_zero _)) rfl
    (Nat.zero_le _)

/-- No item moves over the token that is blamed, and some item does over each one before. -/
theorem passes_of_stuck {here : Nat}
    (stuck : grammar.recognize start tokens = .error (.stuck here)) :
    here < tokens.length ∧ ¬grammar.Passes tokens start here ∧
      ∀ earlier < here, grammar.Passes tokens start earlier := by
  have outcome := grammar.filled_recognize start tokens
  rw [recognize] at stuck
  split at stuck
  next filled =>
      cases stuck
      rw [filled] at outcome
      exact outcome
  next =>
      split at stuck
      · cases stuck
      · cases stuck

/-- If the last token ends too early, some item moves over each token. -/
theorem passes_of_short (short : grammar.recognize start tokens = .error .short) :
    ∀ here < tokens.length, grammar.Passes tokens start here := by
  have outcome := grammar.filled_recognize start tokens
  rw [recognize] at short
  split at short
  next filled =>
      cases short
      rw [filled] at outcome
      exact outcome.elim
  next chart filled =>
      rw [filled] at outcome
      exact outcome.2.2

/-- In an exact chart, the matches of a nonterminal are the completed items that
stand. -/
theorem ExactChart.mem_spanning_iff {chart : Chart N}
    (exact : grammar.ExactChart tokens start chart) {here stop : Nat} (inside : stop < chart.size)
    {name : N} {item : Item} :
    item ∈ chart.spanning name here stop ↔
      item.start = here ∧ ∃ production, grammar.Stands tokens start production item stop ∧
        production.rhs[item.dot]? = none ∧ production.lhs = name := by
  have found : chart[stop]? = some chart[stop] := Array.getElem?_eq_getElem inside
  have set := exact stop chart[stop] found
  rw [Chart.spanning, found, List.mem_filter, mem_completed_iff set.complete, set.listed,
    set.stands_iff, decide_eq_true_eq]
  constructor
  · rintro ⟨⟨⟨production, stands⟩, _, listed, atEnd, lhs⟩, same⟩
    rw [stands.listed] at listed
    cases listed
    exact ⟨same, production, stands, atEnd, lhs⟩
  · rintro ⟨same, production, stands, atEnd, lhs⟩
    exact ⟨⟨⟨production, stands⟩, production, stands.listed, atEnd, lhs⟩, same⟩

/-- Where a nonterminal is predicted, it has a match just when it has a derivation. -/
theorem ExactChart.spanning_ne_nil_iff {chart : Chart N}
    (exact : grammar.ExactChart tokens start chart) {here stop : Nat} (inside : stop < chart.size)
    {name : N} (predicted : grammar.Predicted tokens start name here) :
    chart.spanning name here stop ≠ [] ↔
      ∃ tree, grammar.IsDerivation tokens name here stop tree := by
  constructor
  · intro nonempty
    obtain ⟨item, member⟩ := List.exists_mem_of_ne_nil _ nonempty
    obtain ⟨rfl, production, stands, atEnd, rfl⟩ := (exact.mem_spanning_iff inside).mp member
    obtain ⟨trees, derived⟩ := stands.derives_lhs atEnd
    obtain ⟨tree, rfl⟩ := List.length_eq_one_iff.mp derived.length_eq
    exact ⟨tree, derived⟩
  · rintro ⟨tree, derivation⟩
    obtain ⟨index, production, children, listed, rfl, admitted, derived, _⟩ :=
      derives_nonterminal_iff.mp derivation
    have stands : grammar.Stands tokens start production
        ⟨index, production.rhs.length, here⟩ stop := by
      refine ⟨listed, Nat.le_refl _, predicted, ⟨children, ?_⟩, fun _ => admitted⟩
      rw [List.take_length]
      exact derived
    exact List.ne_nil_of_mem ((exact.mem_spanning_iff inside).mpr
      ⟨rfl, production, stands, List.getElem?_eq_none (Nat.le_refl _), rfl⟩)

/-- What recognition tells: the chart is exact and the start symbol has a derivation,
or some token is taken by no item, or the start symbol has none over all tokens. -/
def Recognized (grammar : Grammar N T K) (tokens : List K) (start : N) :
    Except Rejection (Chart N) → Prop
  | .ok chart => grammar.ExactChart tokens start chart ∧ chart.size = tokens.length + 1 ∧
      ∃ tree, grammar.IsDerivation tokens start 0 tokens.length tree
  | .error (.stuck here) => here < tokens.length ∧ ¬grammar.Takes tokens start here
  | .error .short => ¬∃ tree, grammar.IsDerivation tokens start 0 tokens.length tree

theorem recognized_recognize (free : grammar.ErasesFreely) (start : N) (tokens : List K) :
    grammar.Recognized tokens start (grammar.recognize start tokens) := by
  have outcome := grammar.filled_recognize start tokens
  rw [recognize]
  split
  next rejection filled =>
      rw [filled] at outcome
      cases rejection with
      | stuck here => exact ⟨outcome.1, fun takes => outcome.2.1 takes.passes⟩
      | short => cases outcome
  next chart filled =>
      rw [filled] at outcome
      obtain ⟨gathered, size, _⟩ := outcome
      have exact := gathered.exact free
      have inside : tokens.length < chart.size := by omega
      have matched := exact.spanning_ne_nil_iff inside .first
      split
      next empty =>
          rw [List.isEmpty_iff] at empty
          exact fun derivable => matched.mpr derivable empty
      next nonempty =>
          rw [List.isEmpty_iff] at nonempty
          exact ⟨exact, size, matched.mp nonempty⟩

/-- Recognition is sound and complete: if no guard can veto the match of nothing, then
the chart of some tokens is accepted just when the start symbol has a derivation
that covers all of them. -/
theorem recognize_accepts_iff_derivable (grammar : Grammar N T K) (free : grammar.ErasesFreely)
    (start : N) (tokens : List K) :
    (∃ chart, grammar.recognize start tokens = .ok chart) ↔
      ∃ tree, grammar.IsDerivation tokens start 0 tokens.length tree := by
  have outcome := recognized_recognize free start tokens
  constructor
  · rintro ⟨chart, accepted⟩
    rw [accepted] at outcome
    exact outcome.2.2
  · rintro ⟨tree, derivation⟩
    cases recognition : grammar.recognize start tokens with
    | ok chart => exact ⟨chart, rfl⟩
    | error rejection =>
        rw [recognition] at outcome
        cases rejection with
        | stuck here => exact absurd (derivation.takes outcome.1) outcome.2
        | short => exact absurd ⟨tree, derivation⟩ outcome

/-- Groups in parentheses, any number of them one after another or inside another,
where no group may cover more than four tokens. -/
def shortGroups : Grammar Bool Bool Bool where
  productions := [
    ⟨true, [], none⟩,
    ⟨true, [.nonterminal false, .nonterminal true], none⟩,
    ⟨false, [.terminal true, .nonterminal true, .terminal false],
      some fun _ start stop => stop - start ≤ 4⟩]
  accepts := fun expected token => expected == token

theorem recognize_shortGroups_accepts_iff_derivable :
    shortGroups.ErasesFreely ∧
      ((∃ chart, shortGroups.recognize true [true, true, false, false] = .ok chart) ↔
        ∃ tree, shortGroups.IsDerivation [true, true, false, false] true 0 4 tree) :=
  ⟨by decide, recognize_accepts_iff_derivable shortGroups (by decide) true _⟩

end Fill

end Grammar

end Krl

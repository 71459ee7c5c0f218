import Krl.Grammar.Assembly
import Krl.Proofs.Grammar.Judgement

/-!
# The walk follows the derivation

If the start symbol has one derivation over the tokens, every phrase under it has one as well. So
the first match and the first meeting point that the walk finds are those of the derivation, and
what it leaves is the fold of the reducers over it.
-/

namespace Krl

/-- A search that keeps a state finds the answer that all items agree on, if some item has it. -/
theorem findSomeM?_eq_some {σ α β : Type} {ask : α → StateM σ (Option β)} {answer : β}
    {invariant : σ → Prop} (relevant : α → Prop) {items : List α}
    (asked : ∀ item ∈ items, ∀ state, invariant state → invariant (ask item state).2 ∧
      (relevant item → (ask item state).1 = some answer) ∧
      (¬relevant item → (ask item state).1 = none))
    (there : ∃ item ∈ items, relevant item) {state : σ} (holds : invariant state) :
    ∃ state', items.findSomeM? ask state = (some answer, state') ∧ invariant state' := by
  induction items generalizing state with
  | nil =>
      obtain ⟨_, absent, _⟩ := there
      cases absent
  | cons item others ih =>
      rw [List.forall_mem_cons] at asked
      have unfolded : (item :: others).findSomeM? ask state =
          match ask item state with
          | (some found, state') => (some found, state')
          | (none, state') => others.findSomeM? ask state' := by
        rw [List.findSomeM?_cons]
        change StateT.bind (ask item) _ state = _
        rw [StateT.bind]
        rcases ask item state with ⟨_ | _, _⟩ <;> rfl
      obtain ⟨next, found, absent⟩ := asked.1 state holds
      rw [unfolded]
      by_cases here : relevant item
      · rw [← Prod.eta (ask item state), found here]
        exact ⟨_, rfl, next⟩
      · rw [← Prod.eta (ask item state), absent here]
        refine ih asked.2 ?_ next
        obtain ⟨other, member, isRelevant⟩ := there
        rcases List.mem_cons.mp member with rfl | member
        · exact absurd isRelevant here
        · exact ⟨other, member, isRelevant⟩

namespace Grammar

variable {N T K : Type} {grammar : Grammar N T K} {tokens : List K}

/-- Some symbols derive the tokens from an index up to another by the derivations given for them
and by no others. -/
structure Only (grammar : Grammar N T K) (tokens : List K) (symbols : List (Symbol N T))
    (start stop : Nat) (trees : List Derivation) : Prop where
  derived : grammar.Derives tokens symbols start stop trees
  unique : ∀ other, grammar.Derives tokens symbols start stop other → other = trees

theorem Only.before {before behind : List (Symbol N T)} {start middle stop : Nat}
    {left right : List Derivation}
    (only : grammar.Only tokens (before ++ behind) start stop (left ++ right))
    (first : grammar.Derives tokens before start middle left)
    (last : grammar.Derives tokens behind middle stop right) :
    grammar.Only tokens before start middle left where
  derived := first
  unique := fun _ derived =>
    List.append_cancel_right (only.unique _ (derived.append last))

theorem Only.behind {before behind : List (Symbol N T)} {start middle stop : Nat}
    {left right : List Derivation}
    (only : grammar.Only tokens (before ++ behind) start stop (left ++ right))
    (first : grammar.Derives tokens before start middle left)
    (last : grammar.Derives tokens behind middle stop right) :
    grammar.Only tokens behind middle stop right where
  derived := last
  unique := fun _ derived =>
    List.append_cancel_left (only.unique _ (first.append derived))

/-- The children of the only derivation of a nonterminal are the only ones of its production. -/
theorem Only.children {index start stop : Nat} {production : Production N T K}
    {children : List Derivation}
    (only : grammar.Only tokens [.nonterminal production.lhs] start stop
      [.node index start stop children])
    (listed : grammar.productions[index]? = some production)
    (admitted : production.Admits tokens start stop)
    (derived : grammar.Derives tokens production.rhs start stop children) :
    grammar.Only tokens production.rhs start stop children where
  derived := derived
  unique := fun other derived' => by
    have same := only.unique _ (.node listed admitted derived' .nil)
    simpa using same

/-- A reading of an item whose dot is at the end makes a derivation of its nonterminal. -/
theorem Stands.derives_of_reading {start : N} {production : Production N T K} {item : Item}
    {stop : Nat} (stands : grammar.Stands tokens start production item stop)
    (complete : item.dot = production.rhs.length) {children : List Derivation}
    (reading : children ∈ grammar.readings tokens item stop) :
    grammar.Derives tokens [.nonterminal production.lhs] item.start stop
      [.node item.production item.start stop children] := by
  rw [mem_readings_iff _ stands.listed, complete, List.take_length] at reading
  exact .node stands.listed (stands.admitted complete) reading .nil

/-- In the only derivation, the last phrase starts in one place. -/
theorem Only.middle_eq {before : List (Symbol N T)} {name : N} {here middle middle' stop : Nat}
    {left left' right right' : List Derivation}
    (only : grammar.Only tokens (before ++ [.nonterminal name]) here stop (left ++ right))
    (last : grammar.Derives tokens [.nonterminal name] middle stop right)
    (first' : grammar.Derives tokens before here middle' left')
    (last' : grammar.Derives tokens [.nonterminal name] middle' stop right') :
    middle' = middle := by
  have whole := only.unique _ (first'.append last')
  have ends := (List.append_inj' whole (last'.length_eq.trans last.length_eq.symm)).2
  obtain ⟨_, _, _, _, _, _, _, rfl⟩ := derives_nonterminal_iff.mp last
  obtain ⟨_, _, _, _, _, _, _, rfl⟩ := derives_nonterminal_iff.mp last'
  injection ends with ends
  injection ends

section Exact

variable [DecidableEq N] {start : N} {chart : Chart N}

/-- Asking whether an item is readable leaves the answers right, and gets the right one. -/
def Tells (grammar : Grammar N T K) (tokens : List K) (chart : Chart N) (item : Item)
    (stop : Nat) : Prop :=
  ∀ answers, grammar.Faithful tokens answers [] →
    grammar.Faithful tokens (grammar.isReadable chart item stop answers).2 [] ∧
      ((grammar.isReadable chart item stop answers).1 = true ↔
        (grammar.readings tokens item stop).Nonempty)

theorem ExactChart.tells_of_holds (exact : grammar.ExactChart tokens start chart) {rank : N → Nat}
    (ranked : grammar.IsRanked rank) {item : Item} {stop : Nat}
    (holds : chart.Holds ⟨item, stop⟩) : grammar.Tells tokens chart item stop := by
  intro answers sound
  have leads : grammar.LeadsTo rank chart [] ⟨item, stop⟩ :=
    ⟨List.nodup_nil, List.forall_mem_nil _, List.forall_mem_nil _⟩
  have reply := replies_tally exact ranked (Nat.lt_succ_self _) leads holds sound
  exact ⟨reply.sound, bne_iff_ne.trans ((reply.counts List.not_mem_nil).count_eq_zero_iff.not.trans
    Set.nonempty_iff_ne_empty.symm)⟩

/-- The item before the last symbol of one that stands need not be in the chart. -/
theorem ExactChart.tells_before (exact : grammar.ExactChart tokens start chart) {rank : N → Nat}
    (ranked : grammar.IsRanked rank) {item : Item} {middle stop : Nat}
    {production : Production N T K} (stands : grammar.Stands tokens start production item stop)
    (moved : 0 < item.dot) (inside : middle < chart.size) :
    grammar.Tells tokens chart { item with dot := item.dot - 1 } middle := by
  by_cases holds : chart.Holds ⟨{ item with dot := item.dot - 1 }, middle⟩
  · exact exact.tells_of_holds ranked holds
  · intro answers sound
    have absent : grammar.tally chart (chart.itemCount + 1) _ middle answers = (.none, answers) :=
      tally_of_not_holds holds
    rw [isReadable, absent, exact.readings_before stands moved inside holds]
    exact ⟨sound, iff_of_false Bool.false_ne_true Set.not_nonempty_empty⟩

/-- The walk finds the item of the only derivation of a nonterminal. -/
theorem ExactChart.match?_eq (exact : grammar.ExactChart tokens start chart) {rank : N → Nat}
    (ranked : grammar.IsRanked rank) {here stop index : Nat}
    {production : Production N T K} {children : List Derivation} (inside : stop < chart.size)
    (predicted : grammar.Predicted tokens start production.lhs here)
    (listed : grammar.productions[index]? = some production)
    (admitted : production.Admits tokens here stop)
    (derived : grammar.Derives tokens production.rhs here stop children)
    (only : grammar.Only tokens [.nonterminal production.lhs] here stop
      [.node index here stop children])
    {answers : Answers} (sound : grammar.Faithful tokens answers []) :
    ∃ answers', grammar.match? chart production.lhs here stop answers =
        (some ⟨index, production.rhs.length, here⟩, answers') ∧
      grammar.Faithful tokens answers' [] := by
  have taken : grammar.Derives tokens (production.rhs.take production.rhs.length) here stop
      children := by
    rwa [List.take_length]
  -- A completed item with a reading makes a derivation of the nonterminal.
  have readable : ∀ item ∈ chart.spanning production.lhs here stop,
      (grammar.readings tokens item stop).Nonempty →
        item = ⟨index, production.rhs.length, here⟩ := by
    rintro item member ⟨trees, reading⟩
    obtain ⟨rfl, other, stands, atEnd, same⟩ := (exact.mem_spanning_iff inside).mp member
    have complete := Nat.le_antisymm stands.inside (List.getElem?_eq_none_iff.mp atEnd)
    have whole := only.unique _ (same ▸ stands.derives_of_reading complete reading)
    injection whole with whole
    injection whole with root _ _ _
    subst root
    cases stands.listed.symm.trans listed
    rw [← complete]
  refine findSomeM?_eq_some (fun item => (grammar.readings tokens item stop).Nonempty)
    ?asked ?there sound
  case asked =>
    intro item member state holds
    obtain ⟨_, other, stands, _⟩ := (exact.mem_spanning_iff inside).mp member
    obtain ⟨kept, told⟩ :=
      exact.tells_of_holds ranked (exact.holds_iff.mpr ⟨inside, other, stands⟩) state holds
    refine ⟨kept, fun some_ => ?_, fun none_ => ?_⟩
    · obtain rfl := readable item member some_
      exact if_pos (told.mpr some_)
    · exact if_neg (told.not.mpr none_)
  case there =>
    exact ⟨⟨index, production.rhs.length, here⟩, (exact.mem_spanning_iff inside).mpr
      ⟨rfl, production, ⟨listed, Nat.le_refl _, predicted, ⟨children, taken⟩, fun _ => admitted⟩,
        List.getElem?_eq_none (Nat.le_refl _), rfl⟩, children, production, listed, taken⟩

omit [DecidableEq N] in
theorem meeting?_eq [DecidableEq N] {before child : Item} {middle stop : Nat} {state : Answers} :
    grammar.meeting? chart stop ⟨before, middle, some child⟩ state =
      let left := grammar.isReadable chart before middle state
      if left.1 then
        let right := grammar.isReadable chart child stop left.2
        (if right.1 then some middle else none, right.2)
      else
        (none, left.2) := by
  change (if (grammar.isReadable chart before middle state).1 then _ else _ :
    StateM Answers (Option Nat)) _ = _
  dsimp only
  split <;> rfl

/-- The walk finds where the last symbol of an item starts in its only reading. -/
theorem ExactChart.middle?_eq (exact : grammar.ExactChart tokens start chart) {rank : N → Nat}
    (ranked : grammar.IsRanked rank) {index dot here middle stop : Nat} {name : N}
    {production : Production N T K} {left right : List Derivation} (inside : stop < chart.size)
    (stands : grammar.Stands tokens start production ⟨index, dot + 1, here⟩ stop)
    (found : production.rhs[dot]? = some (.nonterminal name))
    (only : grammar.Only tokens (production.rhs.take dot ++ [.nonterminal name]) here stop
      (left ++ right))
    (first : grammar.Derives tokens (production.rhs.take dot) here middle left)
    (last : grammar.Derives tokens [.nonterminal name] middle stop right)
    {answers : Answers} (sound : grammar.Faithful tokens answers []) :
    ∃ answers', grammar.middle? chart ⟨index, dot + 1, here⟩ stop answers =
        (some middle, answers') ∧ grammar.Faithful tokens answers' [] := by
  have moved := Nat.succ_pos dot
  obtain ⟨root, inner, children, listed, rfl, admitted, derived, rfl⟩ :=
    derives_nonterminal_iff.mp last
  have before : ∀ {meeting trees}, trees ∈ grammar.readings tokens ⟨index, dot, here⟩ meeting ↔
      grammar.Derives tokens (production.rhs.take dot) here meeting trees :=
    mem_readings_iff ⟨index, dot, here⟩ stands.listed
  refine findSomeM?_eq_some (fun split =>
    (grammar.readings tokens split.before split.middle).Nonempty ∧
      ∃ child ∈ split.child, (grammar.readings tokens child stop).Nonempty) ?asked ?there sound
  case asked =>
    rintro ⟨_, _, _⟩ member state holds
    obtain ⟨rfl, _, ⟨_, terminal, _⟩ | ⟨inner', child, awaited, rfl, rfl, standing, complete⟩⟩ :=
      (exact.mem_splits_iff inside stands moved).mp member
    · cases found.symm.trans terminal
    · obtain ⟨kept, told⟩ := exact.tells_before ranked stands moved
        (Nat.lt_of_le_of_lt standing.start_le inside) state holds
      obtain ⟨kept', told'⟩ := exact.tells_of_holds ranked
        (exact.holds_iff.mpr ⟨inside, inner', standing⟩) _ kept
      simp only [Option.mem_def, Option.some.injEq, exists_eq_left', meeting?_eq]
      simp only at told told'
      rw [← told, ← told']
      split
      next leftSome =>
          refine ⟨kept', fun some_ => ?_, fun none_ => ?_⟩
          · obtain ⟨left', first'⟩ := told.mp leftSome
            obtain ⟨children', reading⟩ := told'.mp some_.2
            have same : inner'.lhs = inner.lhs := by
              simpa using awaited.symm.trans found
            have last' := same ▸ standing.derives_of_reading complete reading
            rw [if_pos some_.2, only.middle_eq last (before.mp first') last']
          · exact if_neg fun rightSome => none_ ⟨leftSome, rightSome⟩
      next leftNone => exact ⟨kept, fun some_ => absurd some_.1 leftNone, fun _ => rfl⟩
  case there =>
    have standing : grammar.Stands tokens start inner ⟨root, inner.rhs.length, middle⟩ stop :=
      ⟨listed, Nat.le_refl _, .next stands.listed found stands.predicted first,
        ⟨children, by rwa [List.take_length]⟩, fun _ => admitted⟩
    refine ⟨⟨⟨index, dot, here⟩, middle, some ⟨root, inner.rhs.length, middle⟩⟩,
      (exact.mem_splits_iff inside stands moved).mpr
        ⟨rfl, first.le, .inr ⟨inner, _, found, rfl, rfl, standing, rfl⟩⟩,
      ⟨left, before.mpr first⟩, _, rfl, children, ?_⟩
    rw [mem_readings_iff _ listed, List.take_length]
    exact derived

end Exact

end Grammar

/-- What a walk does about the derivation of a symbol. -/
def Job.for {N T : Type} : Symbol N T → Derivation → Job N
  | .nonterminal name, .node _ start stop _ => .expand name start stop
  | _, .leaf token => .shift token
  | .terminal _, .node _ start _ _ => .shift start

namespace Assembly

open Grammar

section Awaits

variable {N T K V : Type} {m : Type → Type} {assembly : Assembly N T K V m} {tokens : List K}
  {start : N} {symbols others : List (Symbol N T)} {here middle : Nat}

/-- Wherever a nonterminal comes up in the symbols from an index on, it is predicted. -/
def Awaits (assembly : Assembly N T K V m) (tokens : List K) (start : N)
    (symbols : List (Symbol N T)) (here : Nat) : Prop :=
  ∀ before name behind middle left, symbols = before ++ .nonterminal name :: behind →
    assembly.grammar.Derives tokens before here middle left →
      assembly.grammar.Predicted tokens start name middle

theorem Awaits.behind {trees : List Derivation}
    (awaits : assembly.Awaits tokens start (symbols ++ others) here)
    (first : assembly.grammar.Derives tokens symbols here middle trees) :
    assembly.Awaits tokens start others middle := by
  rintro before name behind stop left rfl derived
  exact awaits (symbols ++ before) name behind stop (trees ++ left)
    (List.append_assoc ..).symm (first.append derived)

theorem Awaits.predicted {name : N}
    (awaits : assembly.Awaits tokens start (.nonterminal name :: others) here) :
    assembly.grammar.Predicted tokens start name here :=
  awaits [] name others here [] rfl .nil

theorem awaits_rhs {index : Nat} {production : Production N T K}
    (listed : assembly.grammar.productions[index]? = some production)
    (predicted : assembly.grammar.Predicted tokens start production.lhs here) :
    assembly.Awaits tokens start production.rhs here := by
  intro before name behind middle left same derived
  have awaited : production.rhs[before.length]? = some (.nonterminal name) := by
    rw [same, List.getElem?_append_right (Nat.le_refl _), Nat.sub_self]
    rfl
  have reached :
      assembly.grammar.Derives tokens (production.rhs.take before.length) here middle left := by
    rwa [same, List.take_left]
  exact .next listed awaited predicted reached

end Awaits

variable {N T K V : Type} [DecidableEq N] {m : Type → Type} [Monad m] [LawfulMonad m]
  {assembly : Assembly N T K V m} {tokens : List K} {start : N} {chart : Chart N}
  {rank : N → Nat}

/-- The parts of the only reading of an item are queued. The induction is on the dot, which moves
from the last part to the first. -/
theorem queue_eq (exact : assembly.grammar.ExactChart tokens start chart)
    (ranked : assembly.grammar.IsRanked rank) {index here dot stop : Nat}
    {production : Production N T K} {trees : List Derivation}
    (stands : assembly.grammar.Stands tokens start production ⟨index, dot, here⟩ stop)
    (only : assembly.grammar.Only tokens (production.rhs.take dot) here stop trees)
    (inside : stop < chart.size) {answers : Answers}
    (sound : assembly.grammar.Faithful tokens answers []) :
    ∃ answers', assembly.grammar.Faithful tokens answers' [] ∧ ∀ jobs,
      (assembly.queue chart index here (production.rhs.take dot).reverse stop jobs).run answers =
        pure (List.zipWith Job.for (production.rhs.take dot) trees ++ jobs, answers') := by
  induction dot generalizing stop trees answers with
  | zero =>
      refine ⟨answers, sound, fun jobs => ?_⟩
      rw [List.take_zero, List.reverse_nil, queue, List.zipWith_nil_left, List.nil_append]
      rfl
  | succ dot ih =>
      have bound : dot < production.rhs.length := stands.inside
      obtain ⟨symbol, found⟩ : ∃ symbol, production.rhs[dot]? = some symbol :=
        ⟨_, List.getElem?_eq_getElem bound⟩
      have taken : production.rhs.take (dot + 1) = production.rhs.take dot ++ [symbol] := by
        rw [List.take_add_one, found, Option.toList_some]
      rw [taken] at only ⊢
      obtain ⟨middle, left, right, rfl, first, last⟩ := only.derived.split _
      have standing : assembly.grammar.Stands tokens start production ⟨index, dot, here⟩ middle :=
        ⟨stands.listed, Nat.le_of_lt bound, stands.predicted, ⟨left, first⟩,
          fun atEnd => absurd atEnd (Nat.ne_of_lt bound)⟩
      have before := only.before first last
      have nearer := Nat.lt_of_le_of_lt last.le inside
      rw [List.reverse_concat, List.zipWith_append first.length_eq.symm]
      cases symbol with
      | terminal expected =>
          obtain ⟨rfl, rfl, _⟩ := derives_terminal_iff.mp last
          obtain ⟨answers', sound', queued⟩ := ih standing before nearer sound
          refine ⟨answers', sound', fun jobs => ?_⟩
          rw [List.append_assoc]
          exact queued _
      | nonterminal name =>
          obtain ⟨between, asked, sound⟩ :=
            exact.middle?_eq ranked inside stands found only first last sound
          obtain ⟨_, _, _, _, _, _, _, rfl⟩ := derives_nonterminal_iff.mp last
          obtain ⟨answers', sound', queued⟩ := ih standing before nearer sound
          refine ⟨answers', sound', fun jobs => ?_⟩
          have length : (production.rhs.take dot).reverse.length = dot := by
            rw [List.length_reverse, List.length_take, Nat.min_eq_left (Nat.le_of_lt bound)]
          rw [queue, length, StateT.run_bind, StateT.run_modifyGet, asked, pure_bind,
            List.append_assoc]
          exact queued _

omit [DecidableEq N] [Monad m] [LawfulMonad m] in
theorem assembling_of_production {index : Nat} {production : Production N T K}
    (listed : assembly.grammar.productions[index]? = some production) :
    ∃ found, assembly.productions[index]? = some found ∧ found.toProduction = production := by
  rw [grammar, List.getElem?_map, Option.map_eq_some_iff] at listed
  exact listed

section Walk

variable {extent : Nat → Nat → Span}

omit [LawfulMonad m] in
theorem run_cons (fuel : Nat) (job : Job N) (jobs : List (Job N)) (values : List V)
    (answers : Answers) :
    assembly.run chart tokens extent (fuel + 1) ⟨job :: jobs, values, answers⟩ =
      assembly.step chart tokens extent ⟨jobs, values, answers⟩ job >>=
        assembly.run chart tokens extent fuel := by
  rw [run]

omit [LawfulMonad m] in
theorem step_shift {here : Nat} {token : K} (found : tokens[here]? = some token)
    (jobs : List (Job N)) (values : List V) (answers : Answers) :
    assembly.step chart tokens extent ⟨jobs, values, answers⟩ (.shift here) =
      pure ⟨jobs, assembly.token token :: values, answers⟩ := by
  rw [step, found]

variable (extent) in
/-- A phrase with one derivation is taken apart as this has it. -/
theorem step_expand (exact : assembly.grammar.ExactChart tokens start chart)
    (ranked : assembly.grammar.IsRanked rank) {index here stop : Nat}
    {production : Production N T K} {children : List Derivation} (inside : stop < chart.size)
    (predicted : assembly.grammar.Predicted tokens start production.lhs here)
    (listed : assembly.grammar.productions[index]? = some production)
    (admitted : production.Admits tokens here stop)
    (derived : assembly.grammar.Derives tokens production.rhs here stop children)
    (only : assembly.grammar.Only tokens [.nonterminal production.lhs] here stop
      [.node index here stop children])
    {answers : Answers} (sound : assembly.grammar.Faithful tokens answers []) :
    ∃ answers', assembly.grammar.Faithful tokens answers' [] ∧ ∀ jobs values,
      assembly.step chart tokens extent ⟨jobs, values, answers⟩
          (.expand production.lhs here stop) =
        pure ⟨List.zipWith Job.for production.rhs children ++ .reduce index here stop :: jobs,
          values, answers'⟩ := by
  obtain ⟨between, matched, sound⟩ :=
    exact.match?_eq ranked inside predicted listed admitted derived only sound
  have stands : assembly.grammar.Stands tokens start production
      ⟨index, production.rhs.length, here⟩ stop :=
    ⟨listed, Nat.le_refl _, predicted, ⟨children, by rwa [List.take_length]⟩, fun _ => admitted⟩
  have whole : assembly.grammar.Only tokens (production.rhs.take production.rhs.length) here stop
      children := by
    rw [List.take_length]
    exact only.children listed admitted derived
  obtain ⟨found, entry, rfl⟩ := assembling_of_production listed
  obtain ⟨answers', sound', queued⟩ := queue_eq exact ranked stands whole inside sound
  refine ⟨answers', sound', fun jobs values => ?_⟩
  have queued := queued (.reduce index here stop :: jobs)
  rw [List.take_length] at queued
  rw [step, matched]
  simp only [entry]
  rw [queued, pure_bind]

omit [LawfulMonad m] in
/-- The values of the parts are replaced by that of the phrase. -/
theorem step_reduce {index here stop : Nat} {found : Assembling N T K V m}
    (entry : assembly.productions[index]? = some found) {parts : List V}
    (length : parts.length = found.rhs.length) (jobs : List (Job N)) (values : List V)
    (answers : Answers) :
    assembly.step chart tokens extent ⟨jobs, parts.reverse ++ values, answers⟩
        (.reduce index here stop) =
      found.reduce (extent here stop) parts >>= fun value =>
        pure ⟨jobs, value :: values, answers⟩ := by
  rw [step, entry]
  have arity : found.rhs.length = parts.reverse.length := by
    rw [List.length_reverse, length]
  simp only
  rw [if_neg (by rw [List.length_append]; omega), arity, List.take_left, List.drop_left,
    List.reverse_reverse]

omit [DecidableEq N] [LawfulMonad m] in
theorem assemble_leaf {here : Nat} {token : K} (found : tokens[here]? = some token) :
    assembly.assemble tokens extent (.leaf here) = pure (assembly.token token) := by
  rw [assemble, found]

omit [DecidableEq N] in
/-- What is done with the values of some derivations is done once they are there, one by one. -/
theorem assembleAll_cons_bind {Result : Type} (tree : Derivation) (others : List Derivation)
    (next : List V → m Result) :
    assembly.assembleAll tokens extent (tree :: others) >>= next =
      assembly.assemble tokens extent tree >>= fun part =>
        assembly.assembleAll tokens extent others >>= fun parts => next (part :: parts) := by
  rw [assembleAll]
  simp only [bind_assoc, pure_bind]

omit [DecidableEq N] in
/-- What is done with the values of derivations may rely on their number. -/
theorem bind_congr_assembleAll {Result : Type} (trees : List Derivation)
    {next next' : List V → m Result}
    (same : ∀ values, values.length = trees.length → next values = next' values) :
    assembly.assembleAll tokens extent trees >>= next =
      assembly.assembleAll tokens extent trees >>= next' := by
  induction trees generalizing next next' with
  | nil =>
      rw [assembleAll, pure_bind, pure_bind, same [] rfl]
  | cons tree others ih =>
      rw [assembleAll_cons_bind, assembleAll_cons_bind]
      congr 1
      funext value
      exact ih fun values length => same (value :: values) (by rw [List.length_cons, length]; rfl)

omit [DecidableEq N] [LawfulMonad m] in
theorem assemble_node {index here stop : Nat} {found : Assembling N T K V m}
    (entry : assembly.productions[index]? = some found) (children : List Derivation) :
    assembly.assemble tokens extent (.node index here stop children) =
      assembly.assembleAll tokens extent children >>= found.reduce (extent here stop) := by
  rw [assemble]
  simp only [entry]

variable (extent) in
/-- The walk over the parts of a phrase leaves their values, whatever is to be done after it and
whatever is on the stack. The induction is on the only derivation of the parts. -/
theorem run_parts (exact : assembly.grammar.ExactChart tokens start chart)
    (ranked : assembly.grammar.IsRanked rank) {symbols : List (Symbol N T)} {here stop : Nat}
    {trees : List Derivation} (derived : assembly.grammar.Derives tokens symbols here stop trees)
    (only : assembly.grammar.Only tokens symbols here stop trees)
    (awaits : assembly.Awaits tokens start symbols here) (inside : stop < chart.size)
    {answers : Answers} (sound : assembly.grammar.Faithful tokens answers []) :
    ∃ answers', assembly.grammar.Faithful tokens answers' [] ∧ ∀ fuel jobs values,
      assembly.run chart tokens extent (Derivation.stepsOf trees + fuel)
          ⟨List.zipWith Job.for symbols trees ++ jobs, values, answers⟩ =
        assembly.assembleAll tokens extent trees >>= fun parts =>
          assembly.run chart tokens extent fuel ⟨jobs, parts.reverse ++ values, answers'⟩ := by
  induction derived generalizing answers with
  | nil =>
      refine ⟨answers, sound, fun fuel jobs values => ?_⟩
      rw [assembleAll, pure_bind, Derivation.stepsOf, Nat.zero_add]
      rfl
  | @leaf expected others here stop siblings token found accepted rest ih =>
      have first := Derives.leaf found accepted .nil
      obtain ⟨answers', sound', walked⟩ :=
        ih (only.behind first rest) (awaits.behind first) inside sound
      refine ⟨answers', sound', fun fuel jobs values => ?_⟩
      have steps : Derivation.stepsOf (.leaf here :: siblings) + fuel =
          Derivation.stepsOf siblings + fuel + 1 := by
        rw [Derivation.stepsOf, Derivation.steps]
        omega
      rw [steps, List.zipWith_cons_cons, List.cons_append, Job.for, run_cons,
        step_shift found, pure_bind, walked, assembleAll_cons_bind, assemble_leaf found, pure_bind]
      simp only [List.reverse_cons, List.append_assoc, List.cons_append, List.nil_append]
  | @node index production others here middle stop children siblings listed admitted inner rest
      innerIh restIh =>
      have first := Derives.node listed admitted inner .nil
      have phrase := only.before first rest
      have predicted := awaits.predicted
      have nearer := Nat.lt_of_le_of_lt rest.le inside
      obtain ⟨between, sound, expanded⟩ :=
        step_expand extent exact ranked nearer predicted listed admitted inner phrase sound
      obtain ⟨between', sound, walkedInner⟩ := innerIh (phrase.children listed admitted inner)
        (awaits_rhs listed predicted) nearer sound
      obtain ⟨answers', sound', walked⟩ :=
        restIh (only.behind first rest) (awaits.behind first) inside sound
      refine ⟨answers', sound', fun fuel jobs values => ?_⟩
      obtain ⟨found, entry, rfl⟩ := assembling_of_production listed
      have steps : Derivation.stepsOf (.node index here middle children :: siblings) + fuel =
          Derivation.stepsOf children + (Derivation.stepsOf siblings + fuel + 1) + 1 := by
        rw [Derivation.stepsOf, Derivation.steps]
        omega
      rw [steps, List.zipWith_cons_cons, List.cons_append, Job.for, run_cons, expanded, pure_bind,
        walkedInner, assembleAll_cons_bind, assemble_node entry, bind_assoc]
      refine bind_congr_assembleAll children fun parts length => ?_
      have arity : parts.length = found.rhs.length := length.trans inner.length_eq
      rw [run_cons, step_reduce entry arity, bind_assoc]
      simp only [pure_bind, walked, List.reverse_cons, List.append_assoc, List.cons_append,
        List.nil_append]

/-- If a text has one derivation, what is built is the fold of the reducers over it. -/
theorem build_eq (exact : assembly.grammar.ExactChart tokens start chart)
    (ranked : assembly.grammar.IsRanked rank) (size : tokens.length < chart.size)
    {tally : Tally} {tree : Derivation} (sample : tally.sample = [tree])
    (derivation : assembly.grammar.IsDerivation tokens start 0 tokens.length tree)
    (unique : ∀ other, assembly.grammar.IsDerivation tokens start 0 tokens.length other →
      other = tree)
    {answers : Answers} (sound : assembly.grammar.Faithful tokens answers []) :
    assembly.build chart tokens extent start tally answers =
      assembly.assemble tokens extent tree := by
  have only : assembly.grammar.Only tokens [.nonterminal start] 0 tokens.length [tree] := by
    refine ⟨derivation, fun other derived => ?_⟩
    obtain ⟨root, rfl⟩ := List.length_eq_one_iff.mp derived.length_eq
    rw [unique root derived]
  have awaits : assembly.Awaits tokens start [.nonterminal start] 0 := by
    intro before name behind middle left same derived
    rcases before with _ | ⟨_, before⟩
    · obtain ⟨rfl, _⟩ := derives_nil_iff.mp derived
      obtain ⟨rfl, _⟩ : start = name ∧ behind = [] := by simpa using same
      exact .first
    · simp at same
  obtain ⟨answers', _, walked⟩ :=
    run_parts extent exact ranked derivation only awaits size sound
  obtain ⟨index, _, children, _, _, _, _, root⟩ := derives_nonterminal_iff.mp derivation
  obtain rfl := List.singleton_inj.mp root
  rw [build, sample]
  refine (walked 1 [] []).trans ?_
  rw [assembleAll, assembleAll]
  simp only [pure_bind, bind_assoc]
  exact bind_pure _

end Walk

end Assembly

end Krl

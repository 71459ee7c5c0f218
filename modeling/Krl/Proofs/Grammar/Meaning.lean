import Krl.Grammar.Semantics
import Krl.Proofs.Grammar.Derivation

/-!
# Values that correspond

When the same derivation is evaluated over two texts, the values correspond as soon as
the tokens do and every action keeps it so. The two texts may have different tokens
before and behind those of the derivation. What it means to correspond is left open:
values may be equal up to the places they tell, or there may be nothing to say of them,
so that only the way in which evaluation ends is compared.
-/

namespace Krl

/-- The derivation of the same phrase where its tokens stand further behind. -/
def Derivation.moved (offset : Nat) : Derivation → Derivation
  | .leaf token => .leaf (token + offset)
  | .node production start stop children =>
      .node production (start + offset) (stop + offset) (children.map (moved offset))

/-- The tokens that the nodes of a derivation cover, each as a start and a stop index. -/
def Derivation.extents : Derivation → List (Nat × Nat)
  | .leaf _ => []
  | .node _ start stop children => (start, stop) :: children.flatMap extents

namespace Derivation

@[simp] theorem moved_leaf (offset token : Nat) :
    (leaf token).moved offset = .leaf (token + offset) := by
  rw [moved]

@[simp] theorem moved_node (offset production start stop : Nat) (children : List Derivation) :
    (node production start stop children).moved offset =
      .node production (start + offset) (stop + offset) (children.map (moved offset)) := by
  rw [moved]

@[simp] theorem extents_leaf (token : Nat) : (leaf token).extents = [] := by
  rw [extents]

@[simp] theorem extents_node (production start stop : Nat) (children : List Derivation) :
    (node production start stop children).extents =
      (start, stop) :: children.flatMap extents := by
  rw [extents]

mutual

theorem moved_zero : (tree : Derivation) → tree.moved 0 = tree
  | .leaf _ => moved_leaf ..
  | .node _ _ _ children => by
      rw [moved_node, map_moved_zero children, Nat.add_zero, Nat.add_zero]

theorem map_moved_zero : (trees : List Derivation) → trees.map (moved 0) = trees
  | [] => rfl
  | tree :: others => by
      rw [List.map_cons, moved_zero tree, map_moved_zero others]

end

end Derivation

/-- The extents of the nodes of a derivation lie within its own. -/
theorem Grammar.Derives.extents_within {N T K : Type} {grammar : Grammar N T K} {tokens : List K}
    {symbols : List (Symbol N T)} {start stop : Nat} {trees : List Derivation}
    (derived : grammar.Derives tokens symbols start stop trees) :
    ∀ extent ∈ trees.flatMap Derivation.extents,
      start ≤ extent.1 ∧ extent.1 ≤ extent.2 ∧ extent.2 ≤ stop := by
  induction derived with
  | nil => exact List.forall_mem_nil _
  | leaf _ _ rest ih =>
      intro extent member
      simp only [List.flatMap_cons, Derivation.extents_leaf, List.nil_append] at member
      have := ih extent member
      omega
  | node _ _ inner rest innerIh restIh =>
      intro extent member
      simp only [List.flatMap_cons, Derivation.extents_node, List.cons_append, List.mem_cons,
        List.mem_append] at member
      have := inner.le
      have := rest.le
      rcases member with rfl | member | member
      · simp only
        omega
      · have := innerIh extent member
        omega
      · have := restIh extent member
        omega

section Correspondence

variable {N T K : Type} {m : Type → Type}

/-- What it means that values correspond, data of tokens do, spans do, and computations
that may end in values. Computations can be chained. -/
structure Correspondence [Monad m] (Value : N → Type) (Datum : T → Type) where
  value : (name : N) → Value name → Value name → Prop
  datum : (tokens : T) → Datum tokens → Datum tokens → Prop
  span : Span → Span → Prop
  outcome : {α : Type} → (α → α → Prop) → m α → m α → Prop
  bind : ∀ {α β : Type} {values : α → α → Prop} {results : β → β → Prop} {one other : m α}
    {next next' : α → m β}, outcome values one other →
      (∀ value value', values value value' → outcome results (next value) (next' value')) →
        outcome results (one >>= next) (other >>= next')

namespace Correspondence

variable [Monad m] {Value : N → Type} {Datum : T → Type}

/-- What the functions of some symbols make of arguments that correspond is related. -/
def Curried (correspondence : Correspondence (m := m) Value Datum) {Result : Type}
    (results : Result → Result → Prop) :
    (symbols : List (Symbol N T)) → Krl.Curried Value Datum symbols Result →
      Krl.Curried Value Datum symbols Result → Prop
  | [], one, other => results one other
  | .nonterminal name :: others, one, other =>
      ∀ value value', correspondence.value name value value' →
        Curried correspondence results others (one value) (other value')
  | .terminal tokens :: others, one, other =>
      ∀ datum datum', correspondence.datum tokens datum datum' →
        Curried correspondence results others (one datum) (other datum')

theorem Curried.map {correspondence : Correspondence (m := m) Value Datum} {Middle Result : Type}
    {middles : Middle → Middle → Prop} {results : Result → Result → Prop}
    {after : Middle → Result}
    (keeps : ∀ one other, middles one other → results (after one) (after other))
    {symbols : List (Symbol N T)} {one other : Krl.Curried Value Datum symbols Middle}
    (curried : correspondence.Curried middles symbols one other) :
    correspondence.Curried results symbols (Krl.Curried.map after symbols one)
      (Krl.Curried.map after symbols other) := by
  induction symbols with
  | nil => exact keeps one other curried
  | cons symbol others ih =>
      cases symbol with
      | nonterminal name => exact fun value value' same => ih (curried value value' same)
      | terminal tokens => exact fun datum datum' same => ih (curried datum datum' same)

/-- An action makes values that correspond of parts that correspond. -/
def Respects (correspondence : Correspondence (m := m) Value Datum)
    (reduction : Reduction Value Datum K m) : Prop :=
  ∀ span span', correspondence.span span span' →
    correspondence.Curried (correspondence.outcome (correspondence.value reduction.lhs))
      reduction.rhs (reduction.action span) (reduction.action span')

end Correspondence

namespace Language

variable [Monad m] {language : Language N T K m}

/-- The tokens of a text from one index up to another correspond to those of another text
that stand further behind. -/
def Reads (language : Language N T K m)
    (correspondence : Correspondence (m := m) language.Value language.Datum)
    (offset : Nat) (input input' : Input K) (start stop : Nat) : Prop :=
  ∀ index, start ≤ index → index < stop → ∀ tokens datum,
    (input.tokens[index]?).bind (language.read tokens) = some datum →
      ∃ datum', (input'.tokens[index + offset]?).bind (language.read tokens) = some datum' ∧
        correspondence.datum tokens datum datum'

theorem Reads.mono {correspondence : Correspondence (m := m) language.Value language.Datum}
    {offset : Nat} {input input' : Input K} {start stop start' stop' : Nat}
    (reads : language.Reads correspondence offset input input' start stop) (above : start ≤ start')
    (below : stop' ≤ stop) : language.Reads correspondence offset input input' start' stop' :=
  fun index atLeast less =>
    reads index (Nat.le_trans above atLeast) (Nat.lt_of_lt_of_le less below)

omit [Monad m] in
theorem production_of_reduction {index : Nat} {production : Production N T K}
    (listed : language.grammar.productions[index]? = some production) :
    ∃ reduction, language.reductions[index]? = some reduction ∧
      reduction.toProduction = production := by
  rw [grammar, List.getElem?_map, Option.map_eq_some_iff] at listed
  exact listed

/-- A node is evaluated by the action of its production. -/
theorem evaluate_node [DecidableEq N] {index : Nat}
    {reduction : Reduction language.Value language.Datum K m}
    (listed : language.reductions[index]? = some reduction) (input : Input K) (start stop : Nat)
    (children : List Derivation) :
    language.evaluate input reduction.lhs (.node index start stop children) =
      language.apply input (language.Value reduction.lhs) reduction.rhs
        (reduction.action (language.spanBetween input start stop)) children := by
  rw [evaluate]
  split
  next missing =>
      rw [listed] at missing
      cases missing
  next other found =>
      rw [listed] at found
      cases found
      rw [dif_pos rfl]

theorem apply_nil [DecidableEq N] (language : Language N T K m) {input : Input K} {Result : Type}
    (result : m Result) : language.apply input Result [] result [] = result := by
  rw [apply]

theorem apply_leaf [DecidableEq N] (language : Language N T K m) {input : Input K} {Result : Type} {expected : T}
    {others : List (Symbol N T)} {token : Nat} {datum : language.Datum expected}
    {siblings : List Derivation}
    (found : (input.tokens[token]?).bind (language.read expected) = some datum)
    (action : Curried language.Value language.Datum (.terminal expected :: others) (m Result)) :
    language.apply input Result (.terminal expected :: others) action (.leaf token :: siblings) =
      language.apply input Result others (action datum) siblings := by
  rw [apply, found]

theorem apply_node [DecidableEq N] (language : Language N T K m) {input : Input K} {Result : Type} {name : N}
    {others : List (Symbol N T)} {tree : Derivation} {siblings : List Derivation}
    (action : Curried language.Value language.Datum (.nonterminal name :: others) (m Result)) :
    language.apply input Result (.nonterminal name :: others) action (tree :: siblings) =
      language.evaluate input name tree >>= fun value =>
        language.apply input Result others (action value) siblings := by
  rw [apply]

/-- What actions make of derivations of their symbols corresponds. The induction is on
the derivations. -/
theorem outcome_apply [DecidableEq N]
    {correspondence : Correspondence (m := m) language.Value language.Datum}
    (respects : ∀ reduction ∈ language.reductions, correspondence.Respects reduction)
    {offset : Nat} {input input' : Input K} {symbols : List (Symbol N T)} {start stop : Nat}
    {trees : List Derivation}
    (derived : language.grammar.Derives input.tokens symbols start stop trees)
    (reads : language.Reads correspondence offset input input' start stop)
    (spans : ∀ extent ∈ trees.flatMap Derivation.extents,
      correspondence.span (language.spanBetween input extent.1 extent.2)
        (language.spanBetween input' (extent.1 + offset) (extent.2 + offset)))
    {Result : Type} {results : Result → Result → Prop}
    {action action' : Curried language.Value language.Datum symbols (m Result)}
    (actions : correspondence.Curried (correspondence.outcome results) symbols action action') :
    correspondence.outcome results (language.apply input Result symbols action trees)
      (language.apply input' Result symbols action' (trees.map (Derivation.moved offset))) := by
  induction derived generalizing Result with
  | nil =>
      rw [List.map_nil, apply, apply]
      exact actions
  | @leaf expected others here stop siblings token found accepted rest ih =>
      rw [List.map_cons, Derivation.moved_leaf, apply, apply]
      obtain ⟨datum, read⟩ := Option.isSome_iff_exists.mp accepted
      have first : (input.tokens[here]?).bind (language.read expected) = some datum := by
        rw [found, Option.bind_some, read]
      obtain ⟨datum', first', same⟩ :=
        reads here (Nat.le_refl _) (Nat.lt_of_lt_of_le (Nat.lt_succ_self _) rest.le)
          expected datum first
      rw [first, first']
      rw [List.flatMap_cons, Derivation.extents_leaf, List.nil_append] at spans
      exact ih (reads.mono (Nat.le_succ _) (Nat.le_refl _)) spans (actions datum datum' same)
  | @node index production others start middle stop children siblings listed _ inner rest innerIh
      restIh =>
      obtain ⟨reduction, entry, rfl⟩ := production_of_reduction listed
      rw [List.flatMap_cons, Derivation.extents_node, List.cons_append, List.forall_mem_cons,
        List.forall_mem_append] at spans
      obtain ⟨span, innerSpans, restSpans⟩ := spans
      rw [List.map_cons, Derivation.moved_node, apply, apply]
      refine correspondence.bind (?_ : correspondence.outcome
        (correspondence.value reduction.lhs) _ _) ?_
      · rw [evaluate_node entry, evaluate_node entry]
        exact innerIh (reads.mono (Nat.le_refl _) rest.le) innerSpans
          (respects reduction (List.mem_of_getElem? entry) _ _ span)
      · intro value value' same
        exact restIh (reads.mono inner.le (Nat.le_refl _)) restSpans (actions value value' same)

/-- The values of a derivation over texts with tokens that correspond. -/
theorem outcome_evaluate [DecidableEq N]
    {correspondence : Correspondence (m := m) language.Value language.Datum}
    (respects : ∀ reduction ∈ language.reductions, correspondence.Respects reduction)
    {offset : Nat} {input input' : Input K} {name : N} {start stop : Nat} {tree : Derivation}
    (derivation : language.grammar.IsDerivation input.tokens name start stop tree)
    (reads : language.Reads correspondence offset input input' start stop)
    (spans : ∀ extent ∈ tree.extents,
      correspondence.span (language.spanBetween input extent.1 extent.2)
        (language.spanBetween input' (extent.1 + offset) (extent.2 + offset))) :
    correspondence.outcome (correspondence.value name) (language.evaluate input name tree)
      (language.evaluate input' name (tree.moved offset)) := by
  cases derivation with
  | node listed admitted inner rest =>
      cases rest
      obtain ⟨reduction, entry, rfl⟩ := production_of_reduction listed
      rw [Derivation.extents_node, List.forall_mem_cons] at spans
      rw [Derivation.moved_node, evaluate_node entry, evaluate_node entry]
      exact outcome_apply respects inner reads spans.2
        (respects reduction (List.mem_of_getElem? entry) _ _ spans.1)

end Language

end Correspondence

end Krl

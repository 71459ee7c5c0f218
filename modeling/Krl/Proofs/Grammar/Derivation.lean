import Krl.Grammar.Forest

/-!
# What a grammar derives

A derivation follows the productions: every leaf is a token of the class that its
place calls for, and every node is a production whose guard lets the tokens under
it stand. The relation speaks of several symbols at once, so that the children of
a node, and what is left of a production before or behind a dot, are covered by
the same rules. Charts are judged against this relation, which knows nothing of
them.
-/

namespace Krl

variable {N T K : Type}

/-- The guard of a production, if there is one, lets a match stand. -/
def Production.Admits (production : Production N T K) (tokens : List K) (start stop : Nat) : Prop :=
  ∀ guard ∈ production.guard, guard tokens start stop = true

theorem Production.admits_of_unguarded {production : Production N T K}
    (unguarded : production.guard = none) (tokens : List K) (start stop : Nat) :
    production.Admits tokens start stop := by
  intro guard carried
  rw [unguarded] at carried
  cases carried

namespace Derivation

mutual

/-- Number of leaves and nodes of a derivation. -/
def weight : Derivation → Nat
  | .leaf _ => 1
  | .node _ _ _ children => totalWeight children + 1

/-- Number of leaves and nodes of some derivations. -/
def totalWeight : List Derivation → Nat
  | [] => 0
  | tree :: others => weight tree + totalWeight others

end

@[simp] theorem weight_leaf (token : Nat) : weight (.leaf token) = 1 := by
  rw [weight]

@[simp] theorem weight_node (production start stop : Nat) (children : List Derivation) :
    weight (.node production start stop children) = totalWeight children + 1 := by
  rw [weight]

@[simp] theorem totalWeight_nil : totalWeight [] = 0 := by
  rw [totalWeight]

@[simp] theorem totalWeight_cons (tree : Derivation) (others : List Derivation) :
    totalWeight (tree :: others) = weight tree + totalWeight others := by
  rw [totalWeight]

@[simp] theorem totalWeight_append (left right : List Derivation) :
    totalWeight (left ++ right) = totalWeight left + totalWeight right := by
  induction left with
  | nil => simp
  | cons tree others ih =>
      rw [List.cons_append, totalWeight_cons, totalWeight_cons, ih]
      omega

mutual

/-- The trees that branch off to the right on the way down the left edge of a
derivation, the lowest first. -/
def spine : Derivation → List Derivation
  | .leaf _ => []
  | .node _ _ _ children => spineOf children

/-- The same for the children of a node. -/
def spineOf : List Derivation → List Derivation
  | [] => []
  | first :: others => spine first ++ others

end

@[simp] theorem spine_node (production start stop : Nat) (first : Derivation)
    (others : List Derivation) :
    spine (.node production start stop (first :: others)) = spine first ++ others := by
  rw [spine, spineOf]

end Derivation

namespace Grammar

/-- Some symbols, one after another, derive the tokens from an index up to another
by the derivations given for them. -/
inductive Derives (grammar : Grammar N T K) (tokens : List K) :
    List (Symbol N T) → Nat → Nat → List Derivation → Prop where
  | nil {here : Nat} : Derives grammar tokens [] here here []
  | leaf {expected : T} {others : List (Symbol N T)} {here stop : Nat}
      {siblings : List Derivation} {token : K}
      (found : tokens[here]? = some token)
      (accepted : grammar.accepts expected token = true)
      (rest : Derives grammar tokens others (here + 1) stop siblings) :
      Derives grammar tokens (.terminal expected :: others) here stop (.leaf here :: siblings)
  | node {index : Nat} {production : Production N T K} {others : List (Symbol N T)}
      {start middle stop : Nat} {children siblings : List Derivation}
      (listed : grammar.productions[index]? = some production)
      (admitted : production.Admits tokens start middle)
      (inner : Derives grammar tokens production.rhs start middle children)
      (rest : Derives grammar tokens others middle stop siblings) :
      Derives grammar tokens (.nonterminal production.lhs :: others) start stop
        (.node index start middle children :: siblings)

/-- A derivation of a nonterminal over the tokens from an index up to another. -/
def IsDerivation (grammar : Grammar N T K) (tokens : List K) (name : N) (start stop : Nat)
    (tree : Derivation) : Prop :=
  grammar.Derives tokens [.nonterminal name] start stop [tree]

variable {grammar : Grammar N T K} {tokens : List K}

theorem Derives.le {symbols : List (Symbol N T)} {start stop : Nat} {trees : List Derivation}
    (derived : grammar.Derives tokens symbols start stop trees) : start ≤ stop := by
  induction derived with
  | nil => exact Nat.le_refl _
  | leaf _ _ _ ih => omega
  | node _ _ _ _ innerIh restIh => omega

/-- Derivations do not go past the last token. -/
theorem Derives.stop_le {symbols : List (Symbol N T)} {start stop : Nat}
    {trees : List Derivation} (derived : grammar.Derives tokens symbols start stop trees)
    (inside : start ≤ tokens.length) : stop ≤ tokens.length := by
  induction derived with
  | nil => exact inside
  | leaf found _ _ ih =>
      obtain ⟨bound, _⟩ := List.getElem?_eq_some_iff.mp found
      exact ih bound
  | node _ _ _ _ innerIh restIh => exact restIh (innerIh inside)

@[simp] theorem derives_nil_iff {start stop : Nat} {trees : List Derivation} :
    grammar.Derives tokens [] start stop trees ↔ start = stop ∧ trees = [] := by
  constructor
  · intro derived
    cases derived
    exact ⟨rfl, rfl⟩
  · rintro ⟨rfl, rfl⟩
    exact .nil

theorem derives_terminal_iff {expected : T} {start stop : Nat} {trees : List Derivation} :
    grammar.Derives tokens [.terminal expected] start stop trees ↔
      stop = start + 1 ∧ trees = [.leaf start] ∧
        ∃ token, tokens[start]? = some token ∧ grammar.accepts expected token = true := by
  constructor
  · intro derived
    cases derived with
    | leaf found accepted rest =>
        cases rest
        exact ⟨rfl, rfl, _, found, accepted⟩
  · rintro ⟨rfl, rfl, token, found, accepted⟩
    exact .leaf found accepted .nil

theorem derives_nonterminal_iff {name : N} {start stop : Nat} {trees : List Derivation} :
    grammar.Derives tokens [.nonterminal name] start stop trees ↔
      ∃ index production children,
        grammar.productions[index]? = some production ∧ production.lhs = name ∧
          production.Admits tokens start stop ∧
          grammar.Derives tokens production.rhs start stop children ∧
          trees = [.node index start stop children] := by
  constructor
  · intro derived
    cases derived with
    | node listed admitted inner rest =>
        cases rest
        exact ⟨_, _, _, listed, rfl, admitted, inner, rfl⟩
  · rintro ⟨index, production, children, listed, rfl, admitted, inner, rfl⟩
    exact .node listed admitted inner .nil

/-- What begins with a phrase of a nonterminal begins with a derivation of it. -/
theorem derives_nonterminal_cons_iff {name : N} {others : List (Symbol N T)} {start stop : Nat}
    {trees : List Derivation} :
    grammar.Derives tokens (.nonterminal name :: others) start stop trees ↔
      ∃ middle tree siblings, grammar.IsDerivation tokens name start middle tree ∧
        grammar.Derives tokens others middle stop siblings ∧ trees = tree :: siblings := by
  constructor
  · intro derived
    cases derived with
    | node listed admitted inner rest =>
        exact ⟨_, _, _, .node listed admitted inner .nil, rest, rfl⟩
  · rintro ⟨middle, tree, siblings, derivation, rest, rfl⟩
    cases derivation with
    | node listed admitted inner done =>
        cases done
        exact .node listed admitted inner rest

theorem derives_terminal_cons_iff {expected : T} {others : List (Symbol N T)} {start stop : Nat}
    {trees : List Derivation} :
    grammar.Derives tokens (.terminal expected :: others) start stop trees ↔
      ∃ token siblings, tokens[start]? = some token ∧ grammar.accepts expected token = true ∧
        grammar.Derives tokens others (start + 1) stop siblings ∧
          trees = .leaf start :: siblings := by
  constructor
  · intro derived
    cases derived with
    | leaf found accepted rest => exact ⟨_, _, found, accepted, rest, rfl⟩
  · rintro ⟨token, siblings, found, accepted, rest, rfl⟩
    exact .leaf found accepted rest

theorem Derives.append {before behind : List (Symbol N T)} {start middle stop : Nat}
    {left right : List Derivation} (first : grammar.Derives tokens before start middle left)
    (second : grammar.Derives tokens behind middle stop right) :
    grammar.Derives tokens (before ++ behind) start stop (left ++ right) := by
  induction first with
  | nil => exact second
  | leaf found accepted _ ih => exact .leaf found accepted (ih second)
  | node listed admitted inner _ _ ih => exact .node listed admitted inner (ih second)

/-- A derivation of two lists of symbols meets some index between them. -/
theorem Derives.split (before : List (Symbol N T)) {behind : List (Symbol N T)} {start stop : Nat}
    {trees : List Derivation}
    (derived : grammar.Derives tokens (before ++ behind) start stop trees) :
    ∃ middle left right, trees = left ++ right ∧
      grammar.Derives tokens before start middle left ∧
      grammar.Derives tokens behind middle stop right := by
  induction before generalizing start trees with
  | nil => exact ⟨start, [], trees, rfl, .nil, derived⟩
  | cons symbol before ih =>
      cases derived with
      | leaf found accepted rest =>
          obtain ⟨middle, left, right, rfl, first, second⟩ := ih rest
          exact ⟨middle, _ :: left, right, rfl, .leaf found accepted first, second⟩
      | node listed admitted inner rest =>
          obtain ⟨middle, left, right, rfl, first, second⟩ := ih rest
          exact ⟨middle, _ :: left, right, rfl, .node listed admitted inner first, second⟩

theorem of_drop_eq_cons {α : Type} {list others : List α} {index : Nat} {first : α}
    (dropped : list.drop index = first :: others) :
    list[index]? = some first ∧ others = list.drop (index + 1) := by
  constructor
  · rw [← List.head?_drop, dropped, List.head?_cons]
  · rw [← List.tail_drop, dropped, List.tail_cons]

/-- What some symbols derive, lengthened by what the next symbol derives. -/
theorem derives_take_succ {symbols : List (Symbol N T)} {symbol : Symbol N T} {dot : Nat}
    {start middle stop : Nat} {trees : List Derivation} (next : symbols[dot]? = some symbol)
    (earlier : ∃ before, grammar.Derives tokens (symbols.take dot) start middle before)
    (derived : grammar.Derives tokens [symbol] middle stop trees) :
    ∃ before, grammar.Derives tokens (symbols.take (dot + 1)) start stop before := by
  obtain ⟨before, beforeDerived⟩ := earlier
  refine ⟨before ++ trees, ?_⟩
  rw [List.take_add_one, next]
  exact beforeDerived.append derived

theorem Derives.length_eq {symbols : List (Symbol N T)} {start stop : Nat}
    {trees : List Derivation} (derived : grammar.Derives tokens symbols start stop trees) :
    trees.length = symbols.length := by
  induction derived with
  | nil => rfl
  | leaf _ _ _ ih => rw [List.length_cons, List.length_cons, ih]
  | node _ _ _ _ _ ih => rw [List.length_cons, List.length_cons, ih]

section RightSides

variable [DecidableEq N]

/-- The right sides of the productions of a nonterminal. -/
def rightSides (grammar : Grammar N T K) (name : N) : List (List (Symbol N T)) :=
  (grammar.productions.filter fun production => production.lhs = name).map Production.rhs

theorem mem_rightSides {production : Production N T K}
    (listed : production ∈ grammar.productions) :
    production.rhs ∈ grammar.rightSides production.lhs :=
  List.mem_map_of_mem (List.mem_filter.mpr ⟨listed, decide_eq_true rfl⟩)

/-- A production without a guard makes phrases of a nonterminal out of some symbols. -/
def hasFree [DecidableEq T] (grammar : Grammar N T K) (name : N) (symbols : List (Symbol N T)) :
    Bool :=
  grammar.productions.any fun production =>
    production.lhs = name && production.rhs = symbols && production.guard.isNone

theorem isDerivation_of_hasFree [DecidableEq T] (name : N) (symbols : List (Symbol N T))
    (free : grammar.hasFree name symbols = true) {start stop : Nat} {trees : List Derivation}
    (derived : grammar.Derives tokens symbols start stop trees) :
    ∃ index, grammar.IsDerivation tokens name start stop (.node index start stop trees) := by
  rw [hasFree, List.any_eq_true] at free
  obtain ⟨production, listed, fits⟩ := free
  simp only [Bool.and_eq_true, decide_eq_true_eq, Option.isNone_iff_eq_none] at fits
  obtain ⟨⟨rfl, rfl⟩, unguarded⟩ := fits
  obtain ⟨index, listed⟩ := List.getElem?_of_mem listed
  exact ⟨index, .node listed (Production.admits_of_unguarded unguarded _ _ _) derived .nil⟩

end RightSides

end Grammar

end Krl

import Krl.Proofs.Grammar.Derivation

/-!
# Left parses

A derivation can be told by the numbers of its productions alone, a node before its children and
these from left to right. To follow such a list over some tokens takes no search. What comes of
it is a derivation, wherever the numbers come from, and every derivation comes of its own.
-/

namespace Krl

namespace Derivation

mutual

/-- The numbers of the productions in a derivation, a node before its children. -/
def leftParse : Derivation → List Nat
  | .leaf _ => []
  | .node production _ _ children => production :: leftParseOf children

/-- The same for several derivations, from the first to the last. -/
def leftParseOf : List Derivation → List Nat
  | [] => []
  | tree :: others => leftParse tree ++ leftParseOf others

end

@[simp] theorem leftParseOf_nil : leftParseOf [] = [] := by
  rw [leftParseOf]

@[simp] theorem leftParseOf_leaf (token : Nat) (others : List Derivation) :
    leftParseOf (.leaf token :: others) = leftParseOf others := by
  rw [leftParseOf, leftParse, List.nil_append]

@[simp] theorem leftParseOf_node (production start stop : Nat) (children others : List Derivation) :
    leftParseOf (.node production start stop children :: others) =
      production :: (leftParseOf children ++ leftParseOf others) := by
  rw [leftParseOf, leftParse, List.cons_append]

theorem leftParseOf_singleton (tree : Derivation) : leftParseOf [tree] = tree.leftParse := by
  rw [leftParseOf, leftParseOf_nil, List.append_nil]

end Derivation

namespace Grammar

variable {N T K : Type} [DecidableEq N]

/-- The derivations of some symbols over the tokens from an index on, by the productions with the
numbers in a list. With them come the index behind the tokens and the numbers that are left. -/
def follow? (grammar : Grammar N T K) (tokens : List K) :
    (fuel : Nat) → List (Symbol N T) → (here : Nat) → List Nat →
      Option (List Derivation × Nat × List Nat)
  | _, [], here, numbers => some ([], here, numbers)
  | fuel + 1, .terminal expected :: others, here, numbers =>
      if (tokens[here]?).any (grammar.accepts expected) then do
        let (trees, stop, numbers) ← follow? grammar tokens fuel others (here + 1) numbers
        return (.leaf here :: trees, stop, numbers)
      else
        none
  | fuel + 1, .nonterminal name :: others, here, number :: numbers => do
      let production ← grammar.productions[number]?
      let (children, middle, numbers) ← follow? grammar tokens fuel production.rhs here numbers
      if production.lhs = name ∧ production.guard.all (fun admits => admits tokens here middle) then
        let (trees, stop, numbers) ← follow? grammar tokens fuel others middle numbers
        return (.node number here middle children :: trees, stop, numbers)
      else
        none
  | _, _, _, _ => none

/-- The derivation of a nonterminal over all tokens that a left parse tells. No path in it takes
more steps, down or to the right, than there are numbers and tokens. -/
def ofLeftParse? (grammar : Grammar N T K) (tokens : List K) (name : N) (numbers : List Nat) :
    Option Derivation := do
  let fuel := numbers.length + tokens.length
  match ← grammar.follow? tokens fuel [.nonterminal name] 0 numbers with
  | ([tree], stop, []) => if stop = tokens.length then some tree else none
  | _ => none

variable {grammar : Grammar N T K} {tokens : List K}

/-- What is followed is derived. The induction is on the steps that are taken. -/
theorem derives_of_follow? {fuel : Nat} {symbols : List (Symbol N T)} {here stop : Nat}
    {numbers left : List Nat} {trees : List Derivation}
    (followed : grammar.follow? tokens fuel symbols here numbers = some (trees, stop, left)) :
    grammar.Derives tokens symbols here stop trees := by
  fun_induction follow? generalizing trees stop left with
  | case1 fuel here numbers =>
      cases followed
      exact .nil
  | case2 here numbers fuel expected others accepted ih =>
      obtain ⟨⟨siblings, _, _⟩, rest, same⟩ := Option.bind_eq_some_iff.mp followed
      cases same
      obtain ⟨token, found, accepted⟩ := (Option.any_eq_true _ _).mp accepted
      exact .leaf found accepted (ih rest)
  | case3 => cases followed
  | case4 fuel name others here number numbers innerIh restIh =>
      obtain ⟨production, listed, followed⟩ := Option.bind_eq_some_iff.mp followed
      obtain ⟨⟨children, middle, further⟩, inner, followed⟩ := Option.bind_eq_some_iff.mp followed
      simp only at followed
      split at followed
      next suits =>
          obtain ⟨⟨siblings, _, _⟩, rest, same⟩ := Option.bind_eq_some_iff.mp followed
          cases same
          obtain ⟨rfl, admitted⟩ := suits
          exact .node listed ((Option.all_eq_true _ _).mp admitted) (innerIh production inner)
            (restIh middle further rest)
      next => cases followed
  | case5 => cases followed

theorem isDerivation_of_ofLeftParse? {name : N} {numbers : List Nat} {tree : Derivation}
    (told : grammar.ofLeftParse? tokens name numbers = some tree) :
    grammar.IsDerivation tokens name 0 tokens.length tree := by
  obtain ⟨⟨trees, stop, left⟩, followed, told⟩ := Option.bind_eq_some_iff.mp told
  split at told
  next same =>
      cases same
      obtain ⟨rfl, whole⟩ := Option.ite_none_right_eq_some.mp told
      cases whole
      exact derives_of_follow? followed
  next => cases told

omit [DecidableEq N] in
/-- The leaves of derivations are the tokens, and their nodes are told by their left parse. -/
theorem Derives.totalWeight_add {symbols : List (Symbol N T)} {here stop : Nat}
    {trees : List Derivation} (derived : grammar.Derives tokens symbols here stop trees) :
    Derivation.totalWeight trees + here = (Derivation.leftParseOf trees).length + stop := by
  induction derived with
  | nil => simp
  | leaf _ _ _ ih =>
      simp only [Derivation.totalWeight_cons, Derivation.weight_leaf, Derivation.leftParseOf_leaf]
      omega
  | node _ _ _ _ innerIh restIh =>
      simp only [Derivation.totalWeight_cons, Derivation.weight_node, Derivation.leftParseOf_node,
        List.length_cons, List.length_append]
      omega

/-- Derivations are followed by their left parse, whatever numbers are behind it. -/
theorem Derives.follow?_eq {symbols : List (Symbol N T)} {here stop : Nat}
    {trees : List Derivation} (derived : grammar.Derives tokens symbols here stop trees) {fuel : Nat}
    (enough : Derivation.totalWeight trees ≤ fuel) (left : List Nat) :
    grammar.follow? tokens fuel symbols here (Derivation.leftParseOf trees ++ left) =
      some (trees, stop, left) := by
  induction derived generalizing fuel left with
  | nil => rw [Derivation.leftParseOf_nil, List.nil_append, follow?]
  | leaf found accepted _ ih =>
      rw [Derivation.totalWeight_cons, Derivation.weight_leaf] at enough
      obtain ⟨fuel, rfl⟩ := Nat.exists_eq_add_of_le' (Nat.le_of_add_right_le enough)
      rw [Derivation.leftParseOf_leaf, follow?, found, Option.any_some, if_pos accepted,
        ih (by omega) left]
      rfl
  | @node index production others start middle stop children siblings listed admitted _ _ innerIh
      restIh =>
      rw [Derivation.totalWeight_cons, Derivation.weight_node] at enough
      obtain ⟨fuel, rfl⟩ := Nat.exists_eq_add_of_le' (show 1 ≤ fuel by omega)
      have admits : production.guard.all (fun admits => admits tokens start middle) = true :=
        (Option.all_eq_true _ _).mpr admitted
      rw [Derivation.leftParseOf_node, List.cons_append, List.append_assoc, follow?, listed]
      simp only [Option.bind_eq_bind, Option.bind_some, innerIh (show _ ≤ fuel by omega),
        admits, and_self, if_true, restIh (show _ ≤ fuel by omega)]
      rfl

/-- Just the derivations come of their left parses. -/
theorem ofLeftParse?_leftParse_iff {name : N} {tree : Derivation} :
    grammar.ofLeftParse? tokens name tree.leftParse = some tree ↔
      grammar.IsDerivation tokens name 0 tokens.length tree := by
  refine ⟨isDerivation_of_ofLeftParse?, fun derivation => ?_⟩
  have weight := Derives.totalWeight_add derivation
  rw [Derivation.leftParseOf_singleton, Nat.add_zero] at weight
  have followed := Derives.follow?_eq derivation (Nat.le_of_eq weight) []
  rw [Derivation.leftParseOf_singleton, List.append_nil] at followed
  rw [ofLeftParse?, followed]
  exact if_pos rfl

end Grammar

end Krl

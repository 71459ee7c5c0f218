import Krl.Proofs.Grammar.Meaning

/-!
# Derivations in a piece of the tokens

Some phrases do not depend on what stands around them: no guard is carried by the productions
that they are made with. Their derivations are derivations in the piece of the tokens that
they cover as well. If no phrase without tokens stands at their end, their nodes cover the
same bytes there.
-/

namespace Krl

variable {N T K : Type}

/-- The nonterminal that a symbol calls for is one of some. -/
def Symbol.Among (names : List N) : Symbol N T → Prop
  | .nonterminal name => name ∈ names
  | .terminal _ => True

instance [DecidableEq N] (names : List N) (symbol : Symbol N T) :
    Decidable (symbol.Among names) := by
  cases symbol <;> unfold Symbol.Among <;> infer_instance

/-- A symbol that cannot match nothing, given the nonterminals that perhaps can. -/
def Symbol.Solid (vanishing : List N) : Symbol N T → Prop
  | .nonterminal name => name ∉ vanishing
  | .terminal _ => True

instance [DecidableEq N] (vanishing : List N) (symbol : Symbol N T) :
    Decidable (symbol.Solid vanishing) := by
  cases symbol <;> unfold Symbol.Solid <;> infer_instance

namespace Grammar

/-- The productions of some nonterminals carry no guards, and make phrases of these
nonterminals only. -/
def Independent (grammar : Grammar N T K) (names : List N) : Prop :=
  ∀ production ∈ grammar.productions, production.lhs ∈ names →
    production.guard = none ∧ ∀ symbol ∈ production.rhs, symbol.Among names

/-- The productions of some nonterminals end in a symbol that cannot match nothing, except
for productions of nonterminals that can. -/
def EndsSolid (grammar : Grammar N T K) (names vanishing : List N) : Prop :=
  ∀ production ∈ grammar.productions, production.lhs ∈ names → production.lhs ∉ vanishing →
    ∃ last ∈ production.rhs.getLast?, last.Solid vanishing

variable {grammar : Grammar N T K} {tokens : List K} {names vanishing : List N}
  {symbols : List (Symbol N T)} {start stop : Nat} {trees : List Derivation}

/-- What covers tokens stops at the last one or before. -/
theorem Derives.stop_le_of_lt (derived : grammar.Derives tokens symbols start stop trees)
    (proper : start < stop) : stop ≤ tokens.length := by
  induction derived with
  | nil => omega
  | leaf found _ rest ih =>
      obtain ⟨bound, _⟩ := List.getElem?_eq_some_iff.mp found
      exact rest.stop_le bound
  | @node _ _ _ start middle stop _ _ _ _ inner rest innerIh _ =>
      rcases Nat.lt_or_ge start middle with covers | empty
      · exact rest.stop_le (innerIh covers)
      · have := inner.le
        exact rest.stop_le (by omega)

theorem getElem?_piece {first last here : Nat} (above : first ≤ here) (below : here < last) :
    ((tokens.drop first).take (last - first))[here - first]? = tokens[here]? := by
  rw [List.getElem?_take_of_lt (by omega), List.getElem?_drop]
  congr 1
  omega

/-- Phrases that depend on nothing around them are derived in a piece of the tokens. -/
theorem Derives.in_piece (independent : grammar.Independent names)
    (derived : grammar.Derives tokens symbols start stop trees)
    (among : ∀ symbol ∈ symbols, symbol.Among names) {first last : Nat} (above : first ≤ start)
    (below : stop ≤ last) :
    ∃ trees', grammar.Derives ((tokens.drop first).take (last - first)) symbols (start - first)
      (stop - first) trees' ∧ trees'.map (Derivation.moved first) = trees := by
  induction derived with
  | nil => exact ⟨[], .nil, rfl⟩
  | @leaf expected others here stop siblings token found accepted rest ih =>
      have le := rest.le
      obtain ⟨trees', derived, same⟩ := ih (List.forall_mem_cons.mp among).2 (by omega) below
      rw [show here + 1 - first = here - first + 1 by omega] at derived
      refine ⟨_, .leaf ((getElem?_piece above (by omega)).trans found) accepted derived, ?_⟩
      rw [List.map_cons, same, Derivation.moved_leaf, Nat.sub_add_cancel above]
  | @node index production others start middle stop children siblings listed admitted inner rest
      innerIh restIh =>
      have le := inner.le
      have le' := rest.le
      obtain ⟨name, among⟩ := List.forall_mem_cons.mp among
      obtain ⟨unguarded, phrases⟩ := independent production (List.mem_of_getElem? listed) name
      obtain ⟨children', inner', same⟩ := innerIh phrases above (by omega)
      obtain ⟨trees', rest', same'⟩ := restIh among (by omega) below
      refine ⟨_, .node listed (Production.admits_of_unguarded unguarded _ _ _) inner' rest', ?_⟩
      rw [List.map_cons, Derivation.moved_node, same, same', Nat.sub_add_cancel above,
        Nat.sub_add_cancel (Nat.le_trans above le)]

/-- What is derived in a piece of the tokens is derived in all of them. -/
theorem Derives.of_piece (independent : grammar.Independent names) {first last : Nat}
    (derived : grammar.Derives ((tokens.drop first).take (last - first)) symbols start stop trees)
    (among : ∀ symbol ∈ symbols, symbol.Among names) :
    grammar.Derives tokens symbols (start + first) (stop + first)
      (trees.map (Derivation.moved first)) := by
  induction derived with
  | nil => exact .nil
  | @leaf expected others here stop siblings token found accepted rest ih =>
      have inside : here < last - first := by
        have := (List.getElem?_eq_some_iff.mp found).1
        rw [List.length_take] at this
        omega
      have same : _ = tokens[here + first]? :=
        getElem?_piece (Nat.le_add_left first here) (show here + first < last by omega)
      rw [Nat.add_sub_cancel] at same
      have rest := ih (List.forall_mem_cons.mp among).2
      rw [Nat.add_right_comm] at rest
      rw [List.map_cons, Derivation.moved_leaf]
      exact .leaf (same.symm.trans found) accepted rest
  | @node index production others start middle stop children siblings listed admitted inner rest
      innerIh restIh =>
      obtain ⟨name, among⟩ := List.forall_mem_cons.mp among
      obtain ⟨unguarded, phrases⟩ := independent production (List.mem_of_getElem? listed) name
      rw [List.map_cons, Derivation.moved_node]
      exact .node listed (Production.admits_of_unguarded unguarded _ _ _) (innerIh phrases)
        (restIh among)

/-- What ends in a symbol that cannot match nothing covers tokens, and no phrase in it begins
behind the last of them. -/
theorem Derives.extents_before (independent : grammar.Independent names)
    (solid : grammar.EndsSolid names vanishing)
    (derived : grammar.Derives tokens symbols start stop trees)
    (among : ∀ symbol ∈ symbols, symbol.Among names)
    (ends : ∃ last ∈ symbols.getLast?, last.Solid vanishing) :
    start < stop ∧ ∀ extent ∈ trees.flatMap Derivation.extents, extent.1 < stop := by
  induction derived with
  | nil =>
      obtain ⟨_, none_, _⟩ := ends
      cases none_
  | @leaf expected others here stop siblings token found accepted rest ih =>
      have le := rest.le
      rw [List.flatMap_cons, Derivation.extents_leaf, List.nil_append]
      refine ⟨le, ?_⟩
      cases others with
      | nil =>
          cases rest
          exact List.forall_mem_nil _
      | cons symbol others =>
          rw [List.getLast?_cons_cons] at ends
          exact (ih (List.forall_mem_cons.mp among).2 ends).2
  | @node index production others start middle stop children siblings listed admitted inner rest
      innerIh restIh =>
      have le := inner.le
      obtain ⟨name, among⟩ := List.forall_mem_cons.mp among
      have member := List.mem_of_getElem? listed
      have phrases := (independent production member name).2
      rw [List.flatMap_cons, Derivation.extents_node, List.cons_append, List.forall_mem_cons,
        List.forall_mem_append]
      cases others with
      | nil =>
          cases rest
          obtain ⟨_, same, proper⟩ := ends
          obtain rfl := Option.some.inj same
          obtain ⟨covers, before⟩ := innerIh phrases (solid production member name proper)
          exact ⟨covers, covers, before, List.forall_mem_nil _⟩
      | cons symbol others =>
          rw [List.getLast?_cons_cons] at ends
          obtain ⟨covers, before⟩ := restIh among ends
          refine ⟨Nat.lt_of_le_of_lt le covers, Nat.lt_of_le_of_lt le covers, ?_, before⟩
          intro extent inside
          have within := inner.extents_within extent inside
          omega

end Grammar

/-- Phrases that begin at a token of a piece cover the same bytes there. -/
theorem Language.spanBetween_piece {m : Type → Type} (language : Language N T K m)
    {tokens : List K} {first last start stop : Nat} (bound : last ≤ tokens.length)
    (before : start < last - first) (within : stop ≤ last - first) (close close' : Nat) :
    language.spanBetween ⟨(tokens.drop first).take (last - first), close⟩ start stop =
      language.spanBetween ⟨tokens, close'⟩ (start + first) (stop + first) := by
  have piece : ∀ index < last - first, ∃ token, tokens[index + first]? = some token ∧
      ((tokens.drop first).take (last - first))[index]? = some token := by
    intro index inside
    have same : _ = tokens[index + first]? :=
      Grammar.getElem?_piece (Nat.le_add_left first index) (show index + first < last by omega)
    rw [Nat.add_sub_cancel] at same
    have found := List.getElem?_eq_getElem (show index + first < tokens.length by omega)
    exact ⟨_, found, same.trans found⟩
  obtain ⟨opening, found, found'⟩ := piece start before
  simp only [spanBetween, found, found', Nat.add_lt_add_iff_right]
  split
  next covers =>
    obtain ⟨closing, atLast, atLast'⟩ := piece (stop - 1) (by omega)
    rw [show stop + first - 1 = stop - 1 + first by omega]
    simp only [atLast, atLast']
  next => rfl

end Krl

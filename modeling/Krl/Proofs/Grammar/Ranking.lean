import Krl.Grammar.Forest
import Krl.Proofs.Grammar.Nullable
import Krl.Proofs.Grammar.Derivation
import Mathlib.Data.Prod.Lex

/-!
# Grammars with ranks

The question how an item came about leads to questions about the same tokens when
nothing but one symbol of a production covers them. In a ranked grammar such a chain
comes down: a phrase is ranked below any phrase that it can end, but for a phrase that
ends in another one of its own kind, which must then stand behind some token. All
layers of operators and all lists are of this form. Ranks give the questions about a
chart a level that no question leads above, and that goes down on the way to every
answer that counts.
-/

namespace Krl

namespace Grammar

variable {N T K : Type} [DecidableEq N]

/-- Whether some symbols can match nothing. -/
def canVanish (grammar : Grammar N T K) (symbols : List (Symbol N T)) : Bool :=
  symbols.all (isNullableSymbol grammar.nullable)

theorem Derives.canVanish {grammar : Grammar N T K} {tokens : List K}
    {symbols : List (Symbol N T)} {here : Nat} {trees : List Derivation}
    (derived : grammar.Derives tokens symbols here here trees) :
    grammar.canVanish symbols = true :=
  (derived.erases (Nat.le_refl _)).all_nullable

/-- The nonterminal at an index of a right side, if nothing need follow it, is ranked
below the left side, or it is the left side and the last of several symbols. -/
def descends (grammar : Grammar N T K) (rank : N → Nat) (production : Production N T K)
    (dot : Nat) : Bool :=
  match production.rhs[dot]? with
  | some (.nonterminal name) =>
      !grammar.canVanish (production.rhs.drop (dot + 1)) ||
        rank name < rank production.lhs ||
        (name = production.lhs && dot + 1 = production.rhs.length &&
          !grammar.canVanish (production.rhs.take dot))
  | _ => true

/-- The nonterminals are ranked so that phrases which need nothing behind them rank
below the phrase they belong to. -/
def IsRanked (grammar : Grammar N T K) (rank : N → Nat) : Prop :=
  ∀ production ∈ grammar.productions, ∀ dot < production.rhs.length,
    grammar.descends rank production dot = true

instance (grammar : Grammar N T K) (rank : N → Nat) : Decidable (grammar.IsRanked rank) :=
  inferInstanceAs (Decidable (∀ production ∈ grammar.productions,
    ∀ dot < production.rhs.length, grammar.descends rank production dot = true))

theorem IsRanked.falls {grammar : Grammar N T K} {rank : N → Nat}
    (ranked : grammar.IsRanked rank) {production : Production N T K}
    (listed : production ∈ grammar.productions) {dot : Nat} {name : N}
    (found : production.rhs[dot]? = some (.nonterminal name))
    (free : grammar.canVanish (production.rhs.drop (dot + 1)) = true) :
    rank name < rank production.lhs ∨ name = production.lhs ∧
      dot + 1 = production.rhs.length ∧ grammar.canVanish (production.rhs.take dot) = false := by
  have descends := ranked production listed dot (List.getElem?_eq_some_iff.mp found).1
  simpa [Grammar.descends, found, free, and_assoc] using descends

/-- Whether a completed item ends in a phrase of the nonterminal that it matches. -/
def endsInSelf (production : Production N T K) (dot : Nat) : Bool :=
  match production.rhs[dot - 1]? with
  | some (.nonterminal name) => name = production.lhs && dot = production.rhs.length
  | _ => false

end Grammar

namespace Query

variable {N T K : Type} [DecidableEq N]

/-- The level of a question about a chart. Above all others are questions about more
tokens, then those about items that still need a token, then those about nonterminals
of a higher rank, and then those about items with the dot further to the right.
Completed items that end in their own nonterminal are above other items of it. -/
def level (grammar : Grammar N T K) (rank : N → Nat) (query : Query) : ℕ ×ₗ ℕ ×ₗ ℕ ×ₗ ℕ :=
  match grammar.productions[query.item.production]? with
  | none => toLex (0, toLex (0, toLex (0, 0)))
  | some production =>
      let isOwn := Grammar.endsInSelf production query.item.dot
      toLex (query.stop - query.item.start,
        toLex ((!grammar.canVanish (production.rhs.drop query.item.dot)).toNat,
          toLex (2 * rank production.lhs + isOwn.toNat,
            if isOwn then 0 else query.item.dot)))

end Query

namespace Grammar

section Levels

variable {N T K : Type} [DecidableEq N] {grammar : Grammar N T K} {rank : N → Nat}
  {tokens : List K}

/-- The question about the symbols before the last one is on a lower level, if the last
symbol derives the tokens from there on. -/
theorem level_before_lt {item : Item} {middle stop : Nat} {production : Production N T K}
    {symbol : Symbol N T} {left right : List Derivation}
    (listed : grammar.productions[item.production]? = some production)
    (found : production.rhs[item.dot - 1]? = some symbol) (moved : 0 < item.dot)
    (first : grammar.Derives tokens (production.rhs.take (item.dot - 1)) item.start middle left)
    (last : grammar.Derives tokens [symbol] middle stop right) :
    Query.level grammar rank ⟨{ item with dot := item.dot - 1 }, middle⟩ <
      Query.level grammar rank ⟨item, stop⟩ := by
  have startLe := first.le
  have middleLe := last.le
  simp only [Query.level, listed, Prod.Lex.toLex_lt_toLex]
  rcases Nat.lt_or_eq_of_le middleLe with shorter | rfl
  · left
    omega
  · -- The last symbol matches nothing, so that the item needs no more tokens than before.
    have inside := (List.getElem?_eq_some_iff.mp found).1
    have dropped : production.rhs.drop (item.dot - 1) = symbol :: production.rhs.drop item.dot := by
      rw [List.drop_eq_getElem_cons inside, (List.getElem?_eq_some_iff.mp found).2,
        Nat.sub_add_cancel moved]
    have vanishes := last.canVanish
    have same : grammar.canVanish (production.rhs.drop (item.dot - 1)) =
        grammar.canVanish (production.rhs.drop item.dot) := by
      simp only [canVanish, List.all_cons, List.all_nil, Bool.and_true] at vanishes
      simp only [canVanish, dropped, List.all_cons, vanishes, Bool.true_and]
    have notOwn : endsInSelf production (item.dot - 1) = false := by
      unfold endsInSelf
      split <;> simp
      omega
    right
    refine ⟨rfl, .inr ⟨by rw [same], ?_⟩⟩
    rw [notOwn]
    cases endsInSelf production item.dot
    · exact .inr ⟨rfl, by simpa using by omega⟩
    · exact .inl (by simp)

/-- The question about a phrase of the last symbol is on no higher level, and on a lower
one if the symbols before it derive the tokens up to it. -/
theorem level_child (ranked : grammar.IsRanked rank) {item child : Item} {stop : Nat}
    {production inner : Production N T K}
    (listed : grammar.productions[item.production]? = some production)
    (found : production.rhs[item.dot - 1]? = some (.nonterminal inner.lhs))
    (moved : 0 < item.dot)
    (listed' : grammar.productions[child.production]? = some inner)
    (complete : child.dot = inner.rhs.length) (within : item.start ≤ child.start)
    (childLe : child.start ≤ stop) :
    Query.level grammar rank ⟨child, stop⟩ ≤ Query.level grammar rank ⟨item, stop⟩ ∧
      ((∃ left, grammar.Derives tokens (production.rhs.take (item.dot - 1)) item.start child.start
          left) →
        Query.level grammar rank ⟨child, stop⟩ < Query.level grammar rank ⟨item, stop⟩) := by
  have nothingLeft : grammar.canVanish (inner.rhs.drop child.dot) = true := by
    rw [complete, List.drop_length]
    rfl
  simp only [Query.level, listed, listed', nothingLeft, Prod.Lex.toLex_lt_toLex,
    Prod.Lex.toLex_le_toLex]
  rcases Nat.lt_or_eq_of_le within with shorter | same
  · exact ⟨.inl (by omega), fun _ => .inl (by omega)⟩
  rw [same]
  cases needy : grammar.canVanish (production.rhs.drop item.dot) with
  | false => simp
  | true =>
      have free : grammar.canVanish (production.rhs.drop (item.dot - 1 + 1)) = true := by
        rwa [Nat.sub_add_cancel moved]
      rcases ranked.falls (List.mem_of_getElem? listed) found free with
        lower | ⟨own, atEnd, stuck⟩
      · have below : 2 * rank inner.lhs + (endsInSelf inner child.dot).toNat <
            2 * rank production.lhs + (endsInSelf production item.dot).toNat := by
          have := (endsInSelf inner child.dot).toNat_le
          omega
        simp [below]
      · -- The item ends in its own nonterminal, so no other item of it is above.
        rw [Nat.sub_add_cancel moved] at atEnd
        have isOwn : endsInSelf production item.dot = true := by
          rw [endsInSelf, found]
          simp [own, atEnd]
        constructor
        · cases other : endsInSelf inner child.dot <;> simp [own, isOwn]
        · rintro ⟨left, derived⟩
          exact absurd derived.canVanish (by rw [stuck]; decide)

end Levels

end Grammar

end Krl

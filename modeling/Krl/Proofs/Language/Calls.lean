import Krl.Proofs.Language.Groups
import Krl.Proofs.Language.Readings

/-!
# Calls of aggregators behind a group

No phrase goes on with the call of an aggregator right after a group of events, but the group
itself. So what is seen behind a group without an aggregator is something else.
-/

namespace Krl

/-- At an index stands what reads as the call of an aggregator. -/
def CallsAggregator (tokens : List Leaf) (here : Nat) (op : AggregateOp) : Prop :=
  tokenAt? tokens here = some (.symbol op.word) ∧
    tokenAt? tokens (here + 1) = some (.punct .leftParen)

/-- What is called is known from its name. -/
theorem CallsAggregator.op_eq {tokens : List Leaf} {here : Nat} {op other : AggregateOp}
    (calls : CallsAggregator tokens here op) (others : CallsAggregator tokens here other) :
    op = other := by
  have same := Token.symbol.inj (Option.some.inj (calls.1.symm.trans others.1))
  cases op <;> cases other <;> first | rfl | exact absurd same (by decide)

namespace Distinction

open Grammar Productions

variable {tokens : List Leaf} {here : Nat}

theorem sees_called {op : AggregateOp} (calls : CallsAggregator tokens here op)
    (after : AfterGroup tokens here) : (scene tokens).Sees (beyond tokens) called here := by
  obtain ⟨name, found, isName⟩ := Option.map_eq_some_iff.mp calls.1
  obtain ⟨mark, found', isMark⟩ := Option.map_eq_some_iff.mp calls.2
  have inside := (List.getElem?_eq_some_iff.mp found).1
  have inside' := (List.getElem?_eq_some_iff.mp found').1
  have letter : (scene tokens).letter here = Letter.aggregator := by
    rw [letter_eq found, isName, (endsInGroup_iff (Nat.le_of_lt inside)).mpr after]
    cases op <;> decide
  have letter' : (scene tokens).letter (here + 1) = Letter.ofPunct .leftParen := by
    rw [letter_eq found', isMark]
    rfl
  have turned : (tokens.map (scene tokens).turnOf)[here]? =
      some ((Token.symbol op.word).turn Punct.turn) := by
    rw [List.getElem?_map, found, ← isName]
    rfl
  have stays : (Token.symbol op.word).turn Punct.turn ≠ .opens := by
    intro opens
    cases opens
  rw [Scene.Sees, Scene.sight, if_pos (Nat.lt_succ_of_lt inside), Scene.skip,
    Turn.skip_of_ne_opens turned stays, Scene.letterWithin, if_pos (Nat.lt_succ_of_lt inside'),
    letter, letter']
  exact Optics.testBit_spread isRanked_optics (by decide) (by decide) (by decide)

/-- Where something else is seen right after a group of events, there is no call of an
aggregator. -/
theorem not_callsAggregator (after : AfterGroup tokens here)
    (seen : (scene tokens).Sees (beyond tokens) uncalled here) (op : AggregateOp) :
    ¬CallsAggregator tokens here op := by
  intro calls
  have apart : uncalled &&& called = 0 := by
    decide +kernel
  have both := seen.and (sees_called calls after)
  rw [apart] at both
  exact Scene.not_sees_zero both

theorem uncalledBehind_of_mem {production : Production Nonterminal Terminal Leaf}
    (listed : production ∈ language.grammar.productions) (holds : production.lhs ∈ holding) :
    uncalledBehind production.rhs = true := by
  have decided := List.all_eq_true.mp decided_language.calls production listed
  simpa [holds] using decided

/-- There is no call at the end of a source. -/
theorem sees_uncalled_end (tokens : List Leaf) :
    (scene tokens).Sees (beyond tokens) uncalled tokens.length := by
  have contained : behindAll ||| uncalled = uncalled := by
    decide +kernel
  exact (sees_behindAll tokens).mono contained

end Distinction

end Krl

import Krl.Proofs.Grammar.Prefixes
import Krl.Proofs.Language.Naturality

/-!
# The token that is blamed

The guards of the language look at tokens before the end of a match only, so the token that
a rejected source is blamed for is one behind which no tokens go on. Over a grammar without
guards it is the first such token.
-/

namespace Krl

theorem contiguous_looksBack : contiguous.LooksBack := by
  intro tokens tokens' start stop _ same
  rw [contiguous, contiguous, ← List.drop_take, ← List.drop_take, same]

theorem notAfterGroup_looksBack : notAfterGroup.LooksBack := by
  intro tokens tokens' start stop covers same
  have first : tokens[start]? = tokens'[start]? := by
    rw [← List.getElem?_take_of_lt covers, same, List.getElem?_take_of_lt covers]
  rw [notAfterGroup, notAfterGroup, first,
    Grammar.take_eq_of_le same (Nat.le_of_lt covers)]

/-- The guards of the language look back. -/
theorem looksBack_language : language.grammar.LooksBack := by
  intro production listed guard carried
  obtain ⟨entry, member, rfl⟩ := List.mem_map.mp listed
  rcases (Productions.natural_of_mem entry member).guard_known guard carried with rfl | rfl
  · exact contiguous_looksBack
  · exact notAfterGroup_looksBack

namespace Grammar

variable {N T K : Type} [DecidableEq N]

/-- The blamed token is exact. If guards look back, as those of the language do, then nothing
that begins with the tokens up to the blamed one is derivable. If moreover there are no guards
and every symbol derives something, then the tokens before the blamed one can be completed,
and the end of the tokens is blamed just when these are not derivable but can be completed. -/
theorem recognize_blames_exactly (grammar : Grammar N T K) (start : N) (tokens : List K) :
    language.grammar.LooksBack ∧
      (grammar.LooksBack → ∀ here, grammar.recognize start tokens = .error (.stuck here) →
        here < tokens.length ∧ ∀ tokens', tokens.take (here + 1) <+: tokens' →
          ¬grammar.Derivable start tokens') ∧
      (grammar.Unguarded → grammar.Productive start →
        (∀ here, grammar.recognize start tokens = .error (.stuck here) →
          ∃ rest, grammar.Derivable start (tokens.take here ++ rest)) ∧
        (grammar.recognize start tokens = .error .short ↔ ¬grammar.Derivable start tokens ∧
          ∃ rest, rest ≠ [] ∧ grammar.Derivable start (tokens ++ rest))) := by
  refine ⟨looksBack_language, fun back here stuck => ?_, fun unguarded productive => ?_⟩
  · exact ⟨(passes_of_stuck stuck).1, fun tokens' => not_derivable_of_stuck back stuck⟩
  · refine ⟨fun here stuck => ?_, recognize_eq_short_iff unguarded productive⟩
    exact exists_completion_of_passes unguarded productive (passes_of_stuck stuck).2.2

/-- Groups in parentheses, any number of them one after another or inside another. -/
def groups : Grammar Bool Bool Bool where
  productions := [
    ⟨true, [], none⟩,
    ⟨true, [.nonterminal false, .nonterminal true], none⟩,
    ⟨false, [.terminal true, .nonterminal true, .terminal false], none⟩]
  accepts := fun expected token => expected == token

theorem unguarded_groups : groups.Unguarded := by
  intro production listed
  revert production
  decide

theorem productive_groups : groups.Productive true := by
  have phrase {index : Nat} {name : Bool} {symbols : List (Symbol Bool Bool)} {word : List Bool}
      (made : groups.Generates symbols word)
      (listed : groups.productions[index]? = some ⟨name, symbols, none⟩) :
      groups.Generates [.nonterminal name] word :=
    made.phrase (List.mem_of_getElem? listed)
  have nothing : groups.Generates [.nonterminal true] [] :=
    phrase .nil (show groups.productions[0]? = _ from rfl)
  have inside : groups.Generates [.terminal true, .nonterminal true, .terminal false]
      [true, false] :=
    .leaf rfl (nothing.append (.leaf rfl .nil))
  have pair : groups.Generates [.nonterminal false] [true, false] :=
    phrase inside (show groups.productions[2]? = _ from rfl)
  have derivable : ∀ name, ∃ tokens, groups.Derivable name tokens
    | true => ⟨_, (derivable_iff_generates unguarded_groups).mpr nothing⟩
    | false => ⟨_, (derivable_iff_generates unguarded_groups).mpr pair⟩
  exact ⟨derivable true, fun _ _ name _ => derivable name,
    fun _ _ expected _ => ⟨expected, beq_self_eq_true expected⟩⟩

theorem recognize_groups_blames_exactly :
    groups.LooksBack ∧ groups.Unguarded ∧ groups.Productive true ∧
      groups.recognize true [true, false, false, true] = .error (.stuck 2) ∧
      (∀ tokens', [true, false, false] <+: tokens' → ¬groups.Derivable true tokens') ∧
      (∃ rest, groups.Derivable true ([true, false] ++ rest)) ∧
      groups.recognize true [true, true, false] = .error .short ∧
      ¬groups.Derivable true [true, true, false] ∧
      ∃ rest, rest ≠ [] ∧ groups.Derivable true ([true, true, false] ++ rest) := by
  have stuck : groups.recognize true [true, false, false, true] = .error (.stuck 2) := by rfl
  have short : groups.recognize true [true, true, false] = .error .short := by rfl
  have looksBack := unguarded_groups.looksBack
  obtain ⟨_, beyond, before⟩ := recognize_blames_exactly groups true [true, false, false, true]
  obtain ⟨_, _, atEnd⟩ := recognize_blames_exactly groups true [true, true, false]
  obtain ⟨underivable, longer⟩ := (atEnd unguarded_groups productive_groups).2.mp short
  exact ⟨looksBack, unguarded_groups, productive_groups, stuck, (beyond looksBack 2 stuck).2,
    (before unguarded_groups productive_groups).1 2 stuck, short, underivable, longer⟩

end Grammar

end Krl

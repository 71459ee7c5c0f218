import Krl.Proofs.Grammar.Counting
import Krl.Proofs.Grammar.Meaning

/-!
# Judging a text

Over a ranked grammar, a text is rejected just when it has no derivation. Otherwise the
number of its derivations is told, and the value is that of one of them, which is the
fold of the actions over it.
-/

namespace Krl

theorem Tally.reported_eq_zero_iff {tally : Tally} : tally.reported = 0 ↔ tally.count = 0 := by
  have limit : 0 < wordLimit - 1 := by decide
  rw [Tally.reported]
  omega

theorem Tally.reported_eq_one_iff {tally : Tally} : tally.reported = 1 ↔ tally.count = 1 := by
  have limit : 1 < wordLimit - 1 := by decide
  rw [Tally.reported]
  omega

/-- A text that is rejected has no derivation: no item takes the token that is blamed, or
none of the items behind the last token is a match of the start symbol. -/
theorem Grammar.not_derivable_of_rejected {N T K : Type} [DecidableEq N] {grammar : Grammar N T K}
    (free : grammar.ErasesFreely) {start : N} {tokens : List K} {reason : Rejection}
    (rejected : grammar.survey start tokens = .error reason) :
    ¬∃ tree, grammar.IsDerivation tokens start 0 tokens.length tree := by
  have outcome := recognized_recognize free start tokens
  rw [survey] at rejected
  split at rejected
  next reason recognized =>
      rw [recognized] at outcome
      cases reason with
      | stuck here =>
          rintro ⟨_, derivation⟩
          exact outcome.2 (derivation.takes outcome.1)
      | short => exact outcome
  · cases rejected

theorem Tally.one_lt_reported {tally : Tally} (several : 1 < tally.count) :
    1 < tally.reported := by
  have := Tally.reported_eq_zero_iff.not.mpr (Nat.ne_of_gt (Nat.zero_lt_of_lt several))
  have := Tally.reported_eq_one_iff.not.mpr (Nat.ne_of_gt several)
  omega

/-- A tally that counts one derivation has it as its sample. -/
theorem Grammar.eq_of_count_eq_one {N T K : Type} {grammar : Grammar N T K} {tokens : List K}
    {name : N} {start stop : Nat} {tally : Tally} {tree other : Derivation}
    (counts : tally.Counts (grammar.wholes tokens name start stop)) (one : tally.count = 1)
    (sample : tally.sample = [tree])
    (derivation : grammar.IsDerivation tokens name start stop other) : other = tree := by
  have member := mem_wholes_iff.mpr derivation
  rw [counts.eq_of_count_eq_one one, sample] at member
  simpa using member

namespace Language

variable {N T K : Type} [DecidableEq N] {m : Type → Type} [Monad m] {language : Language N T K m}

/-- What judging a text tells: there is no derivation, or the derivations are counted and
one of them is evaluated. -/
theorem judged (free : language.grammar.ErasesFreely) {rank : N → Nat}
    (ranked : language.grammar.IsRanked rank) (name : N) (input : Input K) :
    (∃ reason, language.grammar.survey name input.tokens = .error reason ∧
      language.judge name input = .rejected reason ∧
        ¬∃ tree, language.grammar.IsDerivation input.tokens name 0 input.tokens.length tree) ∨
    ∃ tally tree, language.grammar.survey name input.tokens = .ok tally ∧
      tally.Counts (language.grammar.wholes input.tokens name 0 input.tokens.length) ∧
        tally.count ≠ 0 ∧ tally.sample = [tree] ∧
          language.grammar.IsDerivation input.tokens name 0 input.tokens.length tree ∧
            language.judge name input =
              .derived tally.reported (language.evaluate input name tree) := by
  cases surveyed : language.grammar.survey name input.tokens with
  | error reason =>
      exact .inl ⟨reason, rfl, by rw [judge, surveyed],
        Grammar.not_derivable_of_rejected free surveyed⟩
  | ok tally =>
      obtain ⟨some_, counts⟩ := Grammar.counts_survey free ranked surveyed
      obtain ⟨tree, derivation, sample⟩ := counts.sample some_
      refine .inr ⟨tally, tree, rfl, counts, some_, sample.symm, derivation, ?_⟩
      rw [judge, surveyed]
      simp only [← sample]

end Language

end Krl

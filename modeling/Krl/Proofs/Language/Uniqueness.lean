import Krl.Proofs.Grammar.Nullable
import Krl.Proofs.Language.Checks
import Krl.Proofs.Language.Ranks

/-!
# One derivation for each phrase

The productions of rulesets leave no choice, properties of rulesets apart. Pairs of
productions that need more than two letters are settled by the expressions that they
open with, and lists of bindings by the word between the first two.
-/

namespace Krl

namespace Distinction

open Grammar Productions

variable {tokens : List Leaf} {horizon : Nat}

theorem covered : language.grammar.Covered criteria.toView where
  ranked := isRanked_optics
  nested := by
    show language.grammar.IsNested (Terminal.turn Punct.turn)
    rw [Grammar.IsNested]
    decide +kernel
  entries := by
    intro production listed
    exact beq_iff_eq.mp (List.all_eq_true.mp decided_language.masks production listed)

theorem clashes : criteria.Clashes language.grammar := by
  intro first second leaf clash accepted
  rw [Bool.eq_false_iff]
  intro accepted'
  cases first <;> cases second <;> try cases clash
  case punct.punct mark mark' =>
      have same := Terminal.token_of_punct accepted
      rw [Terminal.token_of_punct accepted'] at same
      cases same
      exact absurd clash (by simp [criteria, Distinction.clash])
  case word.word text text' =>
      have same := Terminal.token_of_word accepted
      rw [Terminal.token_of_word accepted'] at same
      cases same
      exact absurd clash (by simp [criteria, Distinction.clash])

theorem sound : Sound criteria (scene tokens) where
  covered := covered
  heeded := heeded_scene
  clashes := clashes

/-- An expression has tokens. -/
theorem expression_nonempty {start stop : Nat} {tree : Derivation}
    (derivation : language.grammar.IsDerivation tokens .expression start stop tree) :
    start < stop := by
  rcases Nat.lt_or_ge start stop with proper | empty
  · exact proper
  · exact absurd (derivation.erases empty).mem_nullable expression_not_mem_nullable

theorem sees_expression {start : Nat} :
    (scene tokens).Sees horizon (criteria.allowed .expression) start := by
  show (scene tokens).Sees horizon (allowed .expression) start
  rw [allowed, if_neg (by decide), if_neg (by decide)]
  exact sees_all

/-- What follows an expression with a token takes up room. -/
theorem room_of_beginsWithToken {one other : List (Symbol Nonterminal Terminal)}
    {middle middle' first second : Nat} {trees trees' : List Derivation}
    (begins : beginsWithToken (one ++ other) = true)
    (rest : language.grammar.Derives tokens one middle first trees)
    (rest' : language.grammar.Derives tokens other middle' second trees') :
    middle + middle' < first + second := by
  have le := rest.le
  have le' := rest'.le
  cases one with
  | cons symbol others =>
      cases symbol with
      | nonterminal name => cases begins
      | terminal expected =>
          obtain ⟨_, _, _, _, behind, _⟩ := derives_terminal_cons_iff.mp rest
          have := behind.le
          omega
  | nil =>
      cases other with
      | nil => cases begins
      | cons symbol others =>
          cases symbol with
          | nonterminal name => cases begins
          | terminal expected =>
              obtain ⟨_, _, _, _, behind, _⟩ := derives_terminal_cons_iff.mp rest'
              have := behind.le
              omega

/-- Phrases that open with an expression from the same index are not told apart by what
stands behind it. -/
theorem not_separates {extent weight : Nat}
    (oneWay : OneWay criteria (scene tokens) horizon extent weight)
    {one other : List (Symbol Nonterminal Terminal)} {tail start first second : Nat}
    (opens : OpensWith tokens one start first) (opens' : OpensWith tokens other start second)
    (seen : (scene tokens).Sees horizon tail first)
    (seen' : (scene tokens).Sees horizon tail second)
    (first_le : first ≤ horizon) (second_le : second ≤ horizon)
    (extent_le : (first - start) + (second - start) ≤ extent) :
    separates tail one other = false := by
  obtain ⟨middle, tree, trees, expression, rest, remains⟩ := opens
  obtain ⟨middle', tree', trees', expression', rest', remains'⟩ := opens'
  rw [Bool.eq_false_iff]
  intro separate
  rw [separates, Bool.and_eq_true, Bool.and_eq_true] at separate
  obtain ⟨⟨begins, permits⟩, apart⟩ := separate
  have room := room_of_beginsWithToken begins rest rest'
  have nonempty := expression_nonempty expression
  have nonempty' := expression_nonempty expression'
  have le := rest.le
  have le' := rest'.le
  obtain ⟨limit, member, contained⟩ := permitted permits
  have behind := rest.sees covered heeded_scene remains first_le seen
  have behind' := rest'.sees covered heeded_scene remains' second_le seen'
  obtain ⟨rfl, _⟩ := oneWay .expression limit member start middle middle' tree tree' expression
    expression' (Nat.le_trans le first_le) (Nat.le_trans le' second_le) sees_expression
    ((behind.left _).mono contained) ((behind'.right _).mono contained) (.inl (by omega))
  have fewer : (first - middle) + (second - middle) < extent := by omega
  have smaller := oneWay.narrow fewer
    (Derivation.totalWeight trees + Derivation.totalWeight trees' + 1)
  rw [rest.not_apart covered heeded_scene clashes smaller rest' remains remains' seen seen'
    ⟨first_le, second_le, Nat.le_refl _, Nat.lt_succ_self _⟩] at apart
  cases apart

theorem beginnings_withSpaced :
    Criteria.beginnings language.grammar .withSpaced = [[the .withBinding]] := by
  decide

theorem beginnings_withJoined :
    Criteria.beginnings language.grammar .withJoined =
      [[the .withBinding, word "and", the .withBinding]] := by
  decide

/-- Bindings without and with a word between them do not begin at the same index. -/
theorem not_spaced_and_joined {extent weight : Nat}
    (oneWay : OneWay criteria (scene tokens) horizon extent weight) {limit : Nat}
    (member : limit ∈ limits .withOpt) {start first second : Nat} {tree tree' : Derivation}
    (spaced : language.grammar.IsDerivation tokens .withSpaced start first tree)
    (joined : language.grammar.IsDerivation tokens .withJoined start second tree')
    (seen : (scene tokens).Sees horizon (criteria.behind language.grammar .withOpt limit) first)
    (seen' : (scene tokens).Sees horizon (criteria.behind language.grammar .withOpt limit) second)
    (first_le : first ≤ horizon) (second_le : second ≤ horizon)
    (extent_lt : (first - start) + (second - start) < extent) : False := by
  have decided := List.all_eq_true.mp decided_language.bindings limit member
  simp only [Bool.and_eq_true, beq_iff_eq] at decided
  obtain ⟨permits, disjoint⟩ := decided
  obtain ⟨_, production, middle, _, listed, lhs, begins, derived, lengthened⟩ := spaced.lengthened
  obtain ⟨_, production', final, _, listed', lhs', begins', derived', lengthened'⟩ :=
    joined.lengthened
  have rightSide := mem_beginnings (List.mem_of_getElem? listed) begins
  have rightSide' := mem_beginnings (List.mem_of_getElem? listed') begins'
  have remains := remains_rhs tokens (List.mem_of_getElem? listed) start
  have remains' := remains_rhs tokens (List.mem_of_getElem? listed') start
  rw [lhs, beginnings_withSpaced, List.mem_singleton] at rightSide
  rw [lhs', beginnings_withJoined, List.mem_singleton] at rightSide'
  rw [rightSide] at derived remains
  rw [rightSide'] at derived' remains'
  obtain ⟨middle', binding', siblings', first', rest', rfl⟩ :=
    derives_nonterminal_cons_iff.mp derived'
  obtain ⟨_, binding, _, first, done, _⟩ := derives_nonterminal_cons_iff.mp derived
  obtain ⟨rfl, _⟩ := derives_nil_iff.mp done
  -- The first bindings are the same, and then a word stands behind them or not.
  have bounds := lengthened.le.1
  have bounds' := lengthened'.le.1
  have le' := rest'.le
  have behind := lengthened.sees sound first_le seen
  have behind' := rest'.sees covered heeded_scene (remains'.next first')
    (Nat.le_trans bounds' second_le) (lengthened'.sees sound second_le seen')
  obtain ⟨limit', member', contained⟩ := permitted permits
  have middle_le := Nat.le_trans bounds first_le
  obtain ⟨rfl, _⟩ := oneWay .withBinding limit' member' start _ middle' binding binding' first
    first' middle_le (by omega)
    (heeded_scene .withBinding _ start _ horizon binding remains first middle_le)
    ((behind.left _).mono contained) ((behind'.right _).mono contained) (.inl (by omega))
  have both := behind.and behind'
  rw [disjoint] at both
  exact Scene.not_sees_zero both

theorem mem_names {production : Row} (listed : production ∈ language.grammar.productions) :
    production.lhs ∈ names := by
  rw [names, List.mem_eraseDups]
  exact List.mem_map_of_mem listed

/-- Single phrases of a pair do not begin at the same index. -/
theorem not_opening_pair {extent weight : Nat}
    (oneWay : OneWay criteria (scene tokens) horizon extent weight)
    {left right : Nonterminal} (paired : (left, right) ∈ openingPairs) {tail : Nat}
    (apart : openingsApart tail left right = true) {start first second : Nat}
    {tree tree' : Derivation}
    (derivation : language.grammar.IsDerivation tokens left start first tree)
    (derivation' : language.grammar.IsDerivation tokens right start second tree')
    (remains : language.grammar.Remains tokens [.nonterminal left] start)
    (remains' : language.grammar.Remains tokens [.nonterminal right] start)
    (seen : (scene tokens).Sees horizon tail first)
    (seen' : (scene tokens).Sees horizon tail second)
    (first_le : first ≤ horizon) (second_le : second ≤ horizon)
    (extent_le : (first - start) + (second - start) ≤ extent) : False := by
  have known : ∀ pair ∈ openingPairs, pair.1 ∈ opening ∧ pair.2 ∈ opening := by
    decide
  obtain ⟨rest, member, opens⟩ := opensWith_of_opening (known _ paired).1 remains derivation
  obtain ⟨rest', member', opens'⟩ := opensWith_of_opening (known _ paired).2 remains' derivation'
  have separate := List.all_eq_true.mp (List.all_eq_true.mp apart rest member) rest' member'
  rw [not_separates oneWay opens opens' seen seen' first_le second_le extent_le] at separate
  cases separate

theorem lhs_of_bindings :
    ∀ production ∈ language.grammar.productions,
      production.rhs = [word "with", the .withSpaced] → production.lhs = .withOpt := by
  decide +kernel

theorem isDerivation_of_derives {name : Nonterminal} {start stop : Nat} {trees : List Derivation}
    (derived : language.grammar.Derives tokens [.nonterminal name] start stop trees) :
    ∃ tree, language.grammar.IsDerivation tokens name start stop tree := by
  obtain ⟨_, tree, _, derivation, done, _⟩ := derives_nonterminal_cons_iff.mp derived
  obtain ⟨rfl, _⟩ := derives_nil_iff.mp done
  exact ⟨tree, derivation⟩

/-- Whatever is excused is told apart. -/
theorem resolved : Resolved criteria (scene tokens) horizon := by
  intro extent weight oneWay name limit member left listed right listed' lhs lhs' excused start
    first second one other derived derived' seen seen' within
  have ⟨first_le, second_le, extent_le, _⟩ := within
  have pair : (left.rhs, right.rhs) ∈ excusedPairs := List.contains_iff_mem.mp excused
  rw [excusedPairs, List.mem_cons, List.mem_map] at pair
  rcases pair with bindings | ⟨⟨name', name''⟩, paired, same⟩
  · obtain ⟨same, same'⟩ := Prod.mk.inj bindings
    rw [lhs_of_bindings left listed same] at lhs
    subst lhs
    rw [same] at derived
    rw [same'] at derived'
    obtain ⟨_, _, _, _, spaced, _⟩ := derives_terminal_cons_iff.mp derived
    obtain ⟨_, _, _, _, joined, _⟩ := derives_terminal_cons_iff.mp derived'
    have le := spaced.le
    have le' := joined.le
    obtain ⟨_, spaced⟩ := isDerivation_of_derives spaced
    obtain ⟨_, joined⟩ := isDerivation_of_derives joined
    exact not_spaced_and_joined oneWay member spaced joined seen seen' first_le second_le
      (by omega)
  · obtain ⟨same, same'⟩ := Prod.mk.inj same
    have listedName := mem_names listed
    have rightSide := mem_rightSides listed
    have rightSide' := mem_rightSides listed'
    rw [lhs] at listedName rightSide
    rw [lhs'] at rightSide'
    have apart := List.all_eq_true.mp (List.all_eq_true.mp
      (List.all_eq_true.mp decided_language.openings name listedName) limit member) _ paired
    rw [← same] at rightSide
    rw [← same'] at rightSide'
    rw [List.contains_iff_mem.mpr rightSide, List.contains_iff_mem.mpr rightSide'] at apart
    have remains := remains_rhs tokens listed start
    have remains' := remains_rhs tokens listed' start
    rw [← same] at derived remains
    rw [← same'] at derived' remains'
    obtain ⟨_, derivation⟩ := isDerivation_of_derives derived
    obtain ⟨_, derivation'⟩ := isDerivation_of_derives derived'
    exact not_opening_pair oneWay paired apart derivation derivation' remains remains' seen seen'
      first_le second_le extent_le

theorem oneWay_scene (extent weight : Nat) :
    OneWay criteria (scene tokens) horizon extent weight := by
  apply oneWay sound resolved
  intro production listed limit member
  have decided := List.all_eq_true.mp decided_language.productions _ (mem_names listed)
  exact List.all_eq_true.mp decided limit member

/-- Derivations of a phrase from the same index, each followed by what one limit
permits, are the same. -/
theorem isDerivation_unique {name : Nonterminal} {limit : Nat} (member : limit ∈ limits name)
    {start first second : Nat} {one other : Derivation}
    (derivation : language.grammar.IsDerivation tokens name start first one)
    (derivation' : language.grammar.IsDerivation tokens name start second other)
    (first_le : first ≤ horizon) (second_le : second ≤ horizon)
    (allowed : (scene tokens).Sees horizon (criteria.allowed name) start)
    (seen : (scene tokens).Sees horizon limit first)
    (seen' : (scene tokens).Sees horizon limit second) : first = second ∧ one = other :=
  oneWay_scene ((first - start) + (second - start)) (one.weight + other.weight + 1) name limit
    member start first second one other derivation derivation' first_le second_le allowed seen
    seen' (.inr ⟨Nat.le_refl _, Nat.lt_succ_self _⟩)

end Distinction

end Krl

import Krl.Proofs.Language.Uniqueness

/-!
# Two readings of a ruleset

The one choice that the grammar leaves is in the properties of rulesets. In `provides
keys`, either `keys` is the name that is provided, or it announces names that are
provided to some rulesets. As properties follow one another without separators, what
stands behind may fit both, as in `provides keys errors to x`.
-/

namespace Krl

namespace Distinction

open Grammar Productions

variable {tokens : List Leaf}

/-- The horizon behind all tokens. -/
abbrev beyond (tokens : List Leaf) : Nat :=
  tokens.length + 1

theorem sees_behindAll (tokens : List Leaf) :
    (scene tokens).Sees (beyond tokens) behindAll tokens.length := by
  apply Scene.sees_sights isRanked_optics
  rw [Scene.letterWithin, if_pos (Nat.lt_succ_self _),
    letter_of_none (List.getElem?_eq_none (Nat.le_refl _))]
  exact Letter.testBit_set.mpr (List.mem_singleton_self _)

/-- A phrase that can make up a whole text has one derivation from each index up to
the end. -/
theorem whole_unique {name : Nonterminal} (permits : criteria.permits name behindAll = true)
    {start : Nat} {one other : Derivation}
    (allowed : (scene tokens).Sees (beyond tokens) (criteria.allowed name) start)
    (derivation : language.grammar.IsDerivation tokens name start tokens.length one)
    (derivation' : language.grammar.IsDerivation tokens name start tokens.length other) :
    one = other := by
  obtain ⟨limit, member, contained⟩ := permitted permits
  have seen := (sees_behindAll tokens).mono contained
  exact (isDerivation_unique member derivation derivation' (Nat.le_succ _) (Nat.le_succ _) allowed
    seen seen).2

/-- A list of tokens is one expression in at most one way. -/
theorem expression_unique {one other : Derivation}
    (derivation : language.grammar.IsDerivation tokens .expression 0 tokens.length one)
    (derivation' : language.grammar.IsDerivation tokens .expression 0 tokens.length other) :
    one = other := by
  have permitted := List.all_eq_true.mp decided_language.whole
  exact whole_unique (permitted .expression (by decide)) sees_all derivation derivation'

/-- A list of tokens is one rule in at most one way. -/
theorem rule_unique {one other : Derivation}
    (derivation : language.grammar.IsDerivation tokens .rule 0 tokens.length one)
    (derivation' : language.grammar.IsDerivation tokens .rule 0 tokens.length other) :
    one = other := by
  have permitted := List.all_eq_true.mp decided_language.whole
  exact whole_unique (permitted .rule (by decide)) sees_all derivation derivation'

/-- Some properties, one after another. -/
def Properties (tokens : List Leaf) (start stop : Nat) : Prop :=
  ∃ count trees, language.grammar.Derives tokens (List.replicate count (the .metaProperty)) start
    stop trees

theorem Properties.refl (here : Nat) : Properties tokens here here :=
  ⟨0, [], .nil⟩

theorem Properties.cons {start middle stop : Nat} {tree : Derivation}
    (derivation : language.grammar.IsDerivation tokens .metaProperty start middle tree)
    (others : Properties tokens middle stop) : Properties tokens start stop := by
  obtain ⟨count, trees, derived⟩ := others
  exact ⟨count + 1, tree :: trees,
    derives_nonterminal_cons_iff.mpr ⟨middle, tree, trees, derivation, derived, rfl⟩⟩

theorem Properties.snoc {start middle stop : Nat} {tree : Derivation}
    (others : Properties tokens start middle)
    (derivation : language.grammar.IsDerivation tokens .metaProperty middle stop tree) :
    Properties tokens start stop := by
  obtain ⟨count, trees, derived⟩ := others
  refine ⟨count + 1, trees ++ [tree], ?_⟩
  rw [List.replicate_succ']
  exact derived.append derivation

/-- From one index up to another there are properties among which names are provided
to some rulesets, while providing just the name `keys` leaves properties as well. -/
def ReadTwice (tokens : List Leaf) (start stop : Nat) : Prop :=
  ∃ key ∈ ["provides", "provide"], ∃ place behind trees,
    Properties tokens start place ∧
      language.grammar.Derives tokens
        [word key, word "keys", the .identifiers, word "to", the .rulesetIds] place behind trees ∧
        Properties tokens behind stop ∧ Properties tokens (place + 2) stop

/-- The tokens make up a ruleset with properties that can be read in two ways. -/
def RulesetReadTwice (tokens : List Leaf) : Prop :=
  ∃ start stop trees trees',
    language.grammar.Derives tokens
      [word "ruleset", the .rulesetId, mark .leftBrace, word "meta", mark .leftBrace] 0 start
      trees ∧
      ReadTwice tokens start stop ∧
        language.grammar.Derives tokens
          [mark .rightBrace, the .globalOpt, the .rules, mark .rightBrace] stop tokens.length trees'

/-- No choice is left to symbols that begin at the same index, when they end where the
same sights follow. -/
theorem derives_agree {horizon start first second tail : Nat}
    {symbols : List (Symbol Nonterminal Terminal)} {one other : List Derivation}
    (derived : language.grammar.Derives tokens symbols start first one)
    (derived' : language.grammar.Derives tokens symbols start second other)
    (remains : language.grammar.Remains tokens symbols start)
    (ends : criteria.endsSeen tail symbols = true)
    (first_le : first ≤ horizon) (second_le : second ≤ horizon)
    (seen : (scene tokens).Sees horizon tail first)
    (seen' : (scene tokens).Sees horizon tail second) : first = second ∧ one = other :=
  derived.agree covered heeded_scene (oneWay_scene ((first - start) + (second - start)) _) derived'
    remains ends seen seen' ⟨first_le, second_le, Nat.le_refl _, Nat.lt_succ_self _⟩

theorem derives_not_apart {horizon start first second tail : Nat}
    {left right : List (Symbol Nonterminal Terminal)} {one other : List Derivation}
    (derived : language.grammar.Derives tokens left start first one)
    (derived' : language.grammar.Derives tokens right start second other)
    (remains : language.grammar.Remains tokens left start)
    (remains' : language.grammar.Remains tokens right start)
    (first_le : first ≤ horizon) (second_le : second ≤ horizon)
    (seen : (scene tokens).Sees horizon tail first)
    (seen' : (scene tokens).Sees horizon tail second) :
    criteria.apart tail left right = false :=
  derived.not_apart covered heeded_scene clashes
    (oneWay_scene ((first - start) + (second - start)) _) derived' remains remains' seen seen'
    ⟨first_le, second_le, Nat.le_refl _, Nat.lt_succ_self _⟩

/-- Two derivations of a property are the same, or provide names in the two ways. -/
theorem property_agree {horizon start first second : Nat} {one other : Derivation}
    (derivation : language.grammar.IsDerivation tokens .metaProperty start first one)
    (derivation' : language.grammar.IsDerivation tokens .metaProperty start second other)
    (first_le : first ≤ horizon) (second_le : second ≤ horizon)
    (seen : (scene tokens).Sees horizon behindProperty first)
    (seen' : (scene tokens).Sees horizon behindProperty second) :
    (first = second ∧ one = other) ∨
      ∃ key ∈ ["provides", "provide"], ∃ trees trees',
        (language.grammar.Derives tokens (provision key).1 start first trees ∧
            language.grammar.Derives tokens (provision key).2 start second trees') ∨
          (language.grammar.Derives tokens (provision key).1 start second trees' ∧
            language.grammar.Derives tokens (provision key).2 start first trees) := by
  have decided := decided_language.properties
  simp only [propertiesDecide, Bool.and_eq_true] at decided
  obtain ⟨⟨pairs, ends⟩, _⟩ := decided
  have chosen : ∀ {left right}, [left, right].Sublist (language.grammar.rightSides .metaProperty) →
      criteria.apart behindProperty left right = false →
        ∃ key ∈ ["provides", "provide"], left = (provision key).1 ∧ right = (provision key).2 := by
    intro left right sublist together
    have test := List.rel_of_pairwise_cons ((holdsPairwise_iff.mp pairs).sublist sublist)
      List.mem_cons_self
    rw [together, Bool.or_false, List.contains_iff_mem, openPairs, List.mem_map] at test
    obtain ⟨key, listed, same⟩ := test
    exact ⟨key, listed, (congrArg Prod.fst same).symm, (congrArg Prod.snd same).symm⟩
  rcases derivation.same_or_pair derivation' with
    ⟨index, production, children, children', listed, lhs, derived, derived', rfl, rfl⟩ |
      ⟨left, listed, right, listed', sublist, children, children', derived, derived'⟩
  · left
    have rightSide := mem_rightSides listed
    rw [lhs] at rightSide
    obtain ⟨rfl, rfl⟩ := derives_agree derived derived' (remains_rhs tokens listed start)
      (List.all_eq_true.mp ends _ rightSide) first_le second_le seen seen'
    exact ⟨rfl, rfl⟩
  · right
    have remains := remains_rhs tokens listed start
    have remains' := remains_rhs tokens listed' start
    rcases sublist with before | after
    · obtain ⟨key, isKey, same, same'⟩ := chosen before
        (derives_not_apart derived derived' remains remains' first_le second_le seen seen')
      rw [same] at derived
      rw [same'] at derived'
      exact ⟨key, isKey, children, children', .inl ⟨derived, derived'⟩⟩
    · obtain ⟨key, isKey, same, same'⟩ := chosen after
        (derives_not_apart derived' derived remains' remains second_le first_le seen' seen)
      rw [same] at derived'
      rw [same'] at derived
      exact ⟨key, isKey, children, children', .inr ⟨derived', derived⟩⟩

theorem beginnings_identifiers :
    Criteria.beginnings language.grammar .identifiers = [[token .identifier]] := by
  decide

theorem extensions_identifiers :
    Criteria.extensions language.grammar .identifiers = [[mark .comma, token .identifier]] := by
  decide

/-- Names begin with an identifier, and with that alone where another one follows. -/
theorem identifiers_begin {start stop : Nat} {tree : Derivation}
    (derivation : language.grammar.IsDerivation tokens .identifiers start stop tree) :
    (∃ leaf, tokens[start]? = some leaf ∧
      language.grammar.accepts .identifier leaf = true) ∧
        ∀ leaf, tokens[start + 1]? = some leaf →
          language.grammar.accepts .identifier leaf = true → stop = start + 1 := by
  obtain ⟨_, production, middle, _, listed, lhs, begins, derived, lengthened⟩ :=
    derivation.lengthened
  have rightSide := mem_beginnings (List.mem_of_getElem? listed) begins
  rw [lhs, beginnings_identifiers, List.mem_singleton] at rightSide
  rw [rightSide] at derived
  obtain ⟨rfl, _, leaf, found, accepted⟩ := derives_terminal_iff.mp derived
  refine ⟨⟨leaf, found, accepted⟩, fun other next isIdentifier => ?_⟩
  cases lengthened with
  | refl => rfl
  | step listed lhs lengthens _ derived _ =>
      have extension := mem_extensions (List.mem_of_getElem? listed) lengthens
      rw [lhs, extensions_identifiers, List.mem_singleton] at extension
      rw [extension] at derived
      obtain ⟨comma, _, atComma, isComma, _, _⟩ := derives_terminal_cons_iff.mp derived
      rw [next] at atComma
      cases atComma
      have same := Terminal.token_of_punct isComma
      rcases other with ⟨⟨token, _, _⟩, _⟩
      cases same
      cases isIdentifier

/-- The name `keys` can only be provided alone where it may also announce names. -/
theorem provision_stop {key : String} {start first second : Nat} {trees trees' : List Derivation}
    (derived : language.grammar.Derives tokens (provision key).1 start first trees)
    (derived' : language.grammar.Derives tokens (provision key).2 start second trees') :
    first = start + 2 := by
  obtain ⟨_, _, _, _, derived, _⟩ := derives_terminal_cons_iff.mp derived
  obtain ⟨_, _, _, _, derived', _⟩ := derives_terminal_cons_iff.mp derived'
  obtain ⟨_, _, _, _, derived', _⟩ := derives_terminal_cons_iff.mp derived'
  obtain ⟨_, _, _, names, _, _⟩ := derives_nonterminal_cons_iff.mp derived'
  obtain ⟨_, alone⟩ := isDerivation_of_derives derived
  obtain ⟨leaf, found, accepted⟩ := (identifiers_begin names).1
  exact (identifiers_begin alone).2 leaf found accepted

theorem extensions_metaProperties :
    Criteria.extensions language.grammar .metaProperties = [[the .metaProperty]] := by
  decide

/-- What lengthens a list of properties is properties. -/
theorem properties_of_lengthened {start middle stop : Nat} {tree final : Derivation}
    (lengthened : language.grammar.Lengthened tokens .metaProperties start middle tree stop final) :
    Properties tokens middle stop := by
  induction lengthened with
  | refl => exact .refl _
  | step listed lhs lengthens _ derived _ ih =>
      have extension := mem_extensions (List.mem_of_getElem? listed) lengthens
      rw [lhs, extensions_metaProperties, List.mem_singleton] at extension
      rw [extension] at derived
      obtain ⟨_, property⟩ := isDerivation_of_derives derived
      exact .cons property ih

/-- Where a property begins, the list of properties does not end. -/
theorem not_property_and_end {horizon here stop : Nat} {tree : Derivation}
    (derivation : language.grammar.IsDerivation tokens .metaProperty here stop tree)
    (remains : language.grammar.Remains tokens [the .metaProperty] here)
    (within : stop ≤ horizon) (seen : (scene tokens).Sees horizon behindProperties here) :
    False := by
  have decided := decided_language.properties
  simp only [propertiesDecide, Bool.and_eq_true, beq_iff_eq] at decided
  have begins : (scene tokens).Sees horizon
      (criteria.mask optics.everywhere [the .metaProperty]) here :=
    Derives.sees covered heeded_scene derivation remains within sees_all
  have both := seen.and begins
  rw [decided.2] at both
  exact Scene.not_sees_zero both

/-- Behind a property comes another one or what follows all of them. -/
theorem sees_behindProperty {horizon start middle stop : Nat} {tree final : Derivation}
    (lengthened : language.grammar.Lengthened tokens .metaProperties start middle tree stop final)
    (within : stop ≤ horizon) (seen : (scene tokens).Sees horizon behindProperties stop) :
    (scene tokens).Sees horizon behindProperty middle := by
  rw [behindProperty]
  cases lengthened with
  | refl => exact seen.left _
  | step listed lhs lengthens remains derived rest =>
      have extension := mem_extensions (List.mem_of_getElem? listed) lengthens
      rw [lhs, extensions_metaProperties, List.mem_singleton] at extension
      rw [extension] at derived remains
      have begins := derived.sees covered heeded_scene remains (Nat.le_trans rest.le.1 within)
        sees_all
      exact begins.right _

/-- A property is followed by others in two ways. -/
theorem readTwice_of_provisions {start place first second stop : Nat}
    {key : String} {trees trees' : List Derivation} (isKey : key ∈ ["provides", "provide"])
    (earlier : Properties tokens start place)
    (derived : language.grammar.Derives tokens (provision key).1 place first trees)
    (derived' : language.grammar.Derives tokens (provision key).2 place second trees')
    (others : Properties tokens first stop) (others' : Properties tokens second stop) :
    ReadTwice tokens start stop := by
  rw [provision_stop derived derived'] at others
  exact ⟨key, isKey, place, second, trees', earlier, derived', others', others⟩

/-- Two lists of properties of the same extent are the same, or can be read twice. -/
theorem lengthened_agree {horizon start middle stop : Nat} {tree final final' : Derivation}
    (lengthened : language.grammar.Lengthened tokens .metaProperties start middle tree stop final)
    (lengthened' :
      language.grammar.Lengthened tokens .metaProperties start middle tree stop final')
    (earlier : Properties tokens start middle) (within : stop ≤ horizon)
    (seen : (scene tokens).Sees horizon behindProperties stop) :
    final = final' ∨ ReadTwice tokens start stop := by
  induction lengthened generalizing final' with
  | refl =>
      cases lengthened' with
      | refl => exact .inl rfl
      | step listed lhs lengthens remains derived rest =>
          have extension := mem_extensions (List.mem_of_getElem? listed) lengthens
          rw [lhs, extensions_metaProperties, List.mem_singleton] at extension
          rw [extension] at derived remains
          obtain ⟨_, property⟩ := isDerivation_of_derives derived
          exact (not_property_and_end property remains (Nat.le_trans rest.le.1 within) seen).elim
  | @step index middle next stop production tree final children listed lhs lengthens remains
      derived rest ih =>
      have extension := mem_extensions (List.mem_of_getElem? listed) lengthens
      rw [lhs, extensions_metaProperties, List.mem_singleton] at extension
      rw [extension] at derived remains
      obtain ⟨_, property, _, first, done, rfl⟩ := derives_nonterminal_cons_iff.mp derived
      obtain ⟨rfl, rfl⟩ := derives_nil_iff.mp done
      cases lengthened' with
      | refl => exact (not_property_and_end first remains (Nat.le_trans rest.le.1 within) seen).elim
      | @step index' _ next' _ production' _ _ children' listed' lhs' lengthens' _ derived' rest' =>
          have extension' := mem_extensions (List.mem_of_getElem? listed') lengthens'
          rw [lhs', extensions_metaProperties, List.mem_singleton] at extension'
          rw [extension'] at derived'
          obtain ⟨_, property', _, second, done', rfl⟩ := derives_nonterminal_cons_iff.mp derived'
          obtain ⟨rfl, rfl⟩ := derives_nil_iff.mp done'
          obtain rfl := index_eq_of_single extensions_metaProperties listed listed'
            (by rw [lhs, lengthens]; rfl) (by rw [lhs', lengthens']; rfl)
          have others := properties_of_lengthened rest
          have others' := properties_of_lengthened rest'
          rcases property_agree first second (Nat.le_trans rest.le.1 within)
            (Nat.le_trans rest'.le.1 within) (sees_behindProperty rest within seen)
            (sees_behindProperty rest' within seen) with
            ⟨rfl, rfl⟩ | ⟨key, isKey, _, _, ⟨short, long⟩ | ⟨short, long⟩⟩
          · exact ih rest' (earlier.snoc first) within seen
          · exact .inr (readTwice_of_provisions isKey earlier short long others others')
          · exact .inr (readTwice_of_provisions isKey earlier short long others' others)

/-- Groups that begin at the same index are closed at the same index. -/
theorem closing_unique {symbols : List (Symbol Nonterminal Terminal)} {start stop stop' : Nat}
    {trees trees' closing closing' : List Derivation} {first second : Nat}
    (nested : depthAfter (Terminal.turn Punct.turn) symbols 0 = some 0)
    (derived : language.grammar.Derives tokens symbols start stop trees)
    (derived' : language.grammar.Derives tokens symbols start stop' trees')
    (closes : language.grammar.Derives tokens [mark .rightBrace] stop first closing)
    (closes' : language.grammar.Derives tokens [mark .rightBrace] stop' second closing') :
    stop = stop' := by
  have leaves : ∀ {stop first trees closing},
      language.grammar.Derives tokens symbols start stop trees →
        language.grammar.Derives tokens [mark .rightBrace] stop first closing →
          Turn.leave (tokens.map fun leaf => leaf.lexeme.token.turn Punct.turn) 1 start =
            stop + 1 := by
    intro stop first trees closing derived closes
    obtain ⟨_, _, leaf, found, accepted⟩ := derives_terminal_iff.mp closes
    have turned := turn_of_accepts (Terminal.turnsAgree Punct.turn) found accepted
    have same := derived.leave_eq covered.nested (Terminal.turnsAgree Punct.turn) nested 0
    rw [Nat.zero_add] at same
    rw [same, Turn.leave_closes turned, Turn.leave_zero]
  have same := leaves derived closes
  rw [leaves derived' closes'] at same
  omega

theorem beginnings_metaProperties :
    Criteria.beginnings language.grammar .metaProperties = [[]] := by
  decide

/-- Lists of properties of the same extent are the same, or can be read twice. -/
theorem metaProperties_agree {horizon start stop : Nat} {one other : Derivation}
    (derivation : language.grammar.IsDerivation tokens .metaProperties start stop one)
    (derivation' : language.grammar.IsDerivation tokens .metaProperties start stop other)
    (within : stop ≤ horizon) (seen : (scene tokens).Sees horizon behindProperties stop) :
    one = other ∨ ReadTwice tokens start stop := by
  obtain ⟨index, production, _, _, listed, lhs, begins, derived, lengthened⟩ :=
    derivation.lengthened
  obtain ⟨index', production', _, _, listed', lhs', begins', derived', lengthened'⟩ :=
    derivation'.lengthened
  have beginning := mem_beginnings (List.mem_of_getElem? listed) begins
  have beginning' := mem_beginnings (List.mem_of_getElem? listed') begins'
  rw [lhs, beginnings_metaProperties, List.mem_singleton] at beginning
  rw [lhs', beginnings_metaProperties, List.mem_singleton] at beginning'
  rw [beginning] at derived
  rw [beginning'] at derived'
  obtain ⟨rfl, rfl⟩ := derives_nil_iff.mp derived
  obtain ⟨rfl, rfl⟩ := derives_nil_iff.mp derived'
  obtain rfl := index_eq_of_single beginnings_metaProperties listed listed'
    (by rw [lhs, begins]; rfl) (by rw [lhs', begins']; rfl)
  exact lengthened_agree lengthened lengthened' (.refl start) within seen

theorem rightSides_metaBlock :
    language.grammar.rightSides .metaBlock =
      [[word "meta", mark .leftBrace, the .metaProperties, mark .rightBrace]] := by
  decide

/-- From one index up to another there is a block of properties that can be read twice. -/
def BlockReadTwice (tokens : List Leaf) (start stop : Nat) : Prop :=
  ∃ first last trees trees',
    language.grammar.Derives tokens [word "meta", mark .leftBrace] start first trees ∧
      ReadTwice tokens first last ∧
        language.grammar.Derives tokens [mark .rightBrace] last stop trees'

theorem metaBlock_agree {horizon start first second : Nat} {one other : Derivation}
    (derivation : language.grammar.IsDerivation tokens .metaBlock start first one)
    (derivation' : language.grammar.IsDerivation tokens .metaBlock start second other)
    (within : first ≤ horizon) (seen : (scene tokens).Sees horizon behindBlock first) :
    first = second ∧ (one = other ∨ BlockReadTwice tokens start first) := by
  rcases derivation.same_or_pair derivation' with
    ⟨index, production, children, children', listed, lhs, derived, derived', rfl, rfl⟩ |
      ⟨left, _, right, _, sublist, _⟩
  · have rightSide := mem_rightSides listed
    have remains := remains_rhs tokens listed start
    rw [lhs, rightSides_metaBlock, List.mem_singleton] at rightSide
    rw [rightSide] at derived derived' remains
    obtain ⟨word, _, atWord, isWord, rest, rfl⟩ := derives_terminal_cons_iff.mp derived
    obtain ⟨_, _, _, _, rest', rfl⟩ := derives_terminal_cons_iff.mp derived'
    obtain ⟨brace, _, atBrace, isBrace, inner, rfl⟩ := derives_terminal_cons_iff.mp rest
    obtain ⟨_, _, _, _, inner', rfl⟩ := derives_terminal_cons_iff.mp rest'
    obtain ⟨stop, properties, _, some_, closing, rfl⟩ := derives_nonterminal_cons_iff.mp inner
    obtain ⟨stop', properties', _, some', closing', rfl⟩ :=
      derives_nonterminal_cons_iff.mp inner'
    obtain rfl := closing_unique rfl some_ some' closing closing'
    have opening := Derives.leaf atWord isWord (.leaf atBrace isBrace .nil)
    have behind := closing.sees covered heeded_scene
      (((remains.next (.leaf atWord isWord .nil)).next (.leaf atBrace isBrace .nil)).next some_)
      within seen
    obtain ⟨rfl, rfl, _⟩ := derives_terminal_iff.mp closing
    obtain ⟨rfl, rfl, _⟩ := derives_terminal_iff.mp closing'
    refine ⟨rfl, ?_⟩
    rcases metaProperties_agree some_ some' (Nat.le_trans closing.le within) behind with
      rfl | twice
    · exact .inl rfl
    · exact .inr ⟨_, _, _, _, opening, twice, closing⟩
  · rw [rightSides_metaBlock] at sublist
    rcases sublist with before | after
    · exact absurd before.length_le (by simp)
    · exact absurd after.length_le (by simp)

theorem rightSides_metaOpt :
    language.grammar.rightSides .metaOpt = [[], [the .metaBlock]] := by
  decide

/-- Where a block of properties begins, what follows the properties of a ruleset does
not. -/
theorem not_block_and_body {horizon here stop : Nat} {tree : Derivation}
    (derivation : language.grammar.IsDerivation tokens .metaBlock here stop tree)
    (remains : language.grammar.Remains tokens [the .metaBlock] here)
    (within : stop ≤ horizon) (seen : (scene tokens).Sees horizon behindBlock stop)
    (seen' : (scene tokens).Sees horizon behindBlock here) : False := by
  have decided := decided_language.rulesets
  simp only [rulesetsDecide, Bool.and_eq_true, beq_iff_eq] at decided
  have begins : (scene tokens).Sees horizon (criteria.mask behindBlock [the .metaBlock]) here :=
    Derives.sees covered heeded_scene derivation remains within seen
  have both := begins.and seen'
  rw [decided.1.2] at both
  exact Scene.not_sees_zero both

/-- Derivations of the properties of a ruleset are the same, or can be read twice. -/
theorem metaOpt_agree {horizon start first second : Nat} {one other : Derivation}
    (derivation : language.grammar.IsDerivation tokens .metaOpt start first one)
    (derivation' : language.grammar.IsDerivation tokens .metaOpt start second other)
    (first_le : first ≤ horizon) (second_le : second ≤ horizon)
    (seen : (scene tokens).Sees horizon behindBlock first)
    (seen' : (scene tokens).Sees horizon behindBlock second) :
    first = second ∧ (one = other ∨ BlockReadTwice tokens start first) := by
  rcases derivation.same_or_pair derivation' with
    ⟨index, production, children, children', listed, lhs, derived, derived', rfl, rfl⟩ |
      ⟨left, listed, right, listed', sublist, _, _, derived, derived'⟩
  · have rightSide := mem_rightSides listed
    simp only [lhs, rightSides_metaOpt, List.mem_cons, List.not_mem_nil, or_false] at rightSide
    rcases rightSide with same | same <;> rw [same] at derived derived'
    · obtain ⟨rfl, rfl⟩ := derives_nil_iff.mp derived
      obtain ⟨rfl, rfl⟩ := derives_nil_iff.mp derived'
      exact ⟨rfl, .inl rfl⟩
    · obtain ⟨_, block, _, property, done, rfl⟩ := derives_nonterminal_cons_iff.mp derived
      obtain ⟨_, block', _, property', done', rfl⟩ := derives_nonterminal_cons_iff.mp derived'
      obtain ⟨rfl, rfl⟩ := derives_nil_iff.mp done
      obtain ⟨rfl, rfl⟩ := derives_nil_iff.mp done'
      obtain ⟨rfl, rfl | twice⟩ := metaBlock_agree property property' first_le seen
      · exact ⟨rfl, .inl rfl⟩
      · exact ⟨rfl, .inr twice⟩
  · rw [rightSides_metaOpt] at sublist
    have remains := remains_rhs tokens listed start
    have remains' := remains_rhs tokens listed' start
    rcases sublist with before | after
    · obtain ⟨same, same'⟩ := List.cons.inj (before.eq_of_length rfl)
      obtain ⟨same', _⟩ := List.cons.inj same'
      rw [same] at derived
      rw [same'] at derived' remains'
      obtain ⟨rfl, _⟩ := derives_nil_iff.mp derived
      obtain ⟨_, block⟩ := isDerivation_of_derives derived'
      exact (not_block_and_body block remains' second_le seen' seen).elim
    · obtain ⟨same, same'⟩ := List.cons.inj (after.eq_of_length rfl)
      obtain ⟨same', _⟩ := List.cons.inj same'
      rw [same] at derived'
      rw [same'] at derived remains
      obtain ⟨rfl, _⟩ := derives_nil_iff.mp derived'
      obtain ⟨_, block⟩ := isDerivation_of_derives derived
      exact (not_block_and_body block remains first_le seen seen').elim

theorem rightSides_ruleset :
    language.grammar.rightSides .ruleset =
      [word "ruleset" :: the .rulesetId :: mark .leftBrace :: the .metaOpt :: bodyOfRuleset] := by
  decide

/-- A ruleset has one derivation, or its properties can be read in two ways. -/
theorem ruleset_agree {one other : Derivation}
    (derivation : language.grammar.IsDerivation tokens .ruleset 0 tokens.length one)
    (derivation' : language.grammar.IsDerivation tokens .ruleset 0 tokens.length other) :
    one = other ∨ RulesetReadTwice tokens := by
  have decided := decided_language.rulesets
  simp only [rulesetsDecide, Bool.and_eq_true] at decided
  obtain ⟨⟨⟨_, permits⟩, _⟩, ends⟩ := decided
  have finish := sees_behindAll tokens
  have within := Nat.le_succ tokens.length
  rcases derivation.same_or_pair derivation' with
    ⟨index, production, children, children', listed, lhs, derived, derived', rfl, rfl⟩ |
      ⟨left, _, right, _, sublist, _⟩
  · have rightSide := mem_rightSides listed
    have remains := remains_rhs tokens listed 0
    rw [lhs, rightSides_ruleset, List.mem_singleton] at rightSide
    rw [rightSide] at derived derived' remains
    obtain ⟨_, _, atWord, isWord, rest, rfl⟩ := derives_terminal_cons_iff.mp derived
    obtain ⟨_, _, _, _, rest', rfl⟩ := derives_terminal_cons_iff.mp derived'
    have remains := remains.next (.leaf atWord isWord .nil)
    obtain ⟨middle, name, _, named, inner, rfl⟩ := derives_nonterminal_cons_iff.mp rest
    obtain ⟨middle', name', _, named', inner', rfl⟩ := derives_nonterminal_cons_iff.mp rest'
    obtain ⟨rfl, rfl⟩ := (oneWay_scene _ _).first_eq covered heeded_scene named inner named' inner'
      remains remains (by rw [Nat.or_self]; exact permits) finish finish
      ⟨within, within, Nat.le_refl _, Nat.lt_succ_self _⟩
    have remains := remains.next named
    obtain ⟨_, _, atBrace, isBrace, block, rfl⟩ := derives_terminal_cons_iff.mp inner
    obtain ⟨_, _, _, _, block', rfl⟩ := derives_terminal_cons_iff.mp inner'
    have remains := remains.next (.leaf atBrace isBrace .nil)
    obtain ⟨behind, properties, _, some_, body, rfl⟩ := derives_nonterminal_cons_iff.mp block
    obtain ⟨behind', properties', _, some', body', rfl⟩ := derives_nonterminal_cons_iff.mp block'
    have seen := body.sees covered heeded_scene (remains.next some_) within finish
    have seen' := body'.sees covered heeded_scene (remains.next some') within finish
    obtain ⟨rfl, same⟩ := metaOpt_agree some_ some' (Nat.le_trans body.le within)
      (Nat.le_trans body'.le within) seen seen'
    rcases same with rfl | ⟨first, last, _, _, opening, twice, closing⟩
    · obtain ⟨_, rfl⟩ := derives_agree body body' (remains.next some_) ends within within finish
        finish
      exact .inl rfl
    · right
      have head := Derives.leaf atWord isWord
        (derives_nonterminal_cons_iff.mpr ⟨_, _, _, named, .leaf atBrace isBrace .nil, rfl⟩)
      exact ⟨first, last, _, _, head.append opening, twice, closing.append body⟩
  · rw [rightSides_ruleset] at sublist
    rcases sublist with before | after
    · exact absurd before.length_le (by simp)
    · exact absurd after.length_le (by simp)

theorem rightSides_main :
    language.grammar.rightSides .main = [[the .ruleset], [the .statements]] := by
  decide

/-- A ruleset is not a list of statements as well. -/
theorem not_ruleset_and_statements {tree tree' : Derivation}
    (ruleset : language.grammar.IsDerivation tokens .ruleset 0 tokens.length tree)
    (statements : language.grammar.IsDerivation tokens .statements 0 tokens.length tree')
    (remains : language.grammar.Remains tokens [the .ruleset] 0)
    (remains' : language.grammar.Remains tokens [the .statements] 0) : False := by
  have decided := decided_language.rulesets
  simp only [rulesetsDecide, Bool.and_eq_true, beq_iff_eq] at decided
  have within := Nat.le_succ tokens.length
  have begins : (scene tokens).Sees (beyond tokens) (criteria.mask behindAll [the .ruleset]) 0 :=
    Derives.sees covered heeded_scene ruleset remains within (sees_behindAll tokens)
  have begins' :
      (scene tokens).Sees (beyond tokens) (criteria.mask behindAll [the .statements]) 0 :=
    Derives.sees covered heeded_scene statements remains' within (sees_behindAll tokens)
  have both := begins.and begins'
  rw [decided.1.1.1] at both
  exact Scene.not_sees_zero both

/-- A source has one derivation, unless it is a ruleset with properties that can be read
in two ways. -/
theorem main_agree {one other : Derivation}
    (derivation : language.grammar.IsDerivation tokens .main 0 tokens.length one)
    (derivation' : language.grammar.IsDerivation tokens .main 0 tokens.length other) :
    one = other ∨ RulesetReadTwice tokens := by
  have permitted := List.all_eq_true.mp decided_language.whole
  rcases derivation.same_or_pair derivation' with
    ⟨index, production, children, children', listed, lhs, derived, derived', rfl, rfl⟩ |
      ⟨left, listed, right, listed', sublist, _, _, derived, derived'⟩
  · have rightSide := mem_rightSides listed
    have remains := remains_rhs tokens listed 0
    simp only [lhs, rightSides_main, List.mem_cons, List.not_mem_nil, or_false] at rightSide
    rcases rightSide with same | same <;> rw [same] at derived derived' remains
    · obtain ⟨_, ruleset, _, first, done, rfl⟩ := derives_nonterminal_cons_iff.mp derived
      obtain ⟨_, ruleset', _, second, done', rfl⟩ := derives_nonterminal_cons_iff.mp derived'
      obtain ⟨rfl, rfl⟩ := derives_nil_iff.mp done
      obtain ⟨rfl, rfl⟩ := derives_nil_iff.mp done'
      rcases ruleset_agree first second with rfl | twice
      · exact .inl rfl
      · exact .inr twice
    · left
      obtain ⟨_, statements, _, first, done, rfl⟩ := derives_nonterminal_cons_iff.mp derived
      obtain ⟨_, statements', _, second, done', rfl⟩ := derives_nonterminal_cons_iff.mp derived'
      obtain ⟨rfl, rfl⟩ := derives_nil_iff.mp done
      obtain ⟨rfl, rfl⟩ := derives_nil_iff.mp done'
      have allowed := heeded_scene .statements [] 0 tokens.length (beyond tokens) statements remains
        first (Nat.le_succ _)
      rw [whole_unique (permitted .statements List.mem_cons_self) allowed first second]
  · rw [rightSides_main] at sublist
    have remains := remains_rhs tokens listed 0
    have remains' := remains_rhs tokens listed' 0
    rcases sublist with before | after
    · obtain ⟨same, same'⟩ := List.cons.inj (before.eq_of_length rfl)
      obtain ⟨same', _⟩ := List.cons.inj same'
      rw [same] at derived remains
      rw [same'] at derived' remains'
      obtain ⟨_, ruleset⟩ := isDerivation_of_derives derived
      obtain ⟨_, statements⟩ := isDerivation_of_derives derived'
      exact (not_ruleset_and_statements ruleset statements remains remains').elim
    · obtain ⟨same, same'⟩ := List.cons.inj (after.eq_of_length rfl)
      obtain ⟨same', _⟩ := List.cons.inj same'
      rw [same] at derived' remains'
      rw [same'] at derived remains
      obtain ⟨_, ruleset⟩ := isDerivation_of_derives derived'
      obtain ⟨_, statements⟩ := isDerivation_of_derives derived
      exact (not_ruleset_and_statements ruleset statements remains' remains).elim

/-- A list of properties goes on with other properties. -/
theorem metaProperties_append {start middle stop : Nat} {tree : Derivation}
    (derivation : language.grammar.IsDerivation tokens .metaProperties start middle tree)
    (others : Properties tokens middle stop) :
    ∃ final more, language.grammar.IsDerivation tokens .metaProperties start stop final ∧
      final.spine = tree.spine ++ more := by
  obtain ⟨count, trees, derived⟩ := others
  induction count generalizing middle tree trees with
  | zero =>
      obtain ⟨rfl, _⟩ := derives_nil_iff.mp derived
      exact ⟨tree, [], derivation, (List.append_nil _).symm⟩
  | succ count ih =>
      rw [List.replicate_succ] at derived
      obtain ⟨next, property, siblings, first, rest, rfl⟩ :=
        derives_nonterminal_cons_iff.mp derived
      obtain ⟨index, longer⟩ := isDerivation_of_hasFree .metaProperties
        [the .metaProperties, the .metaProperty] (by decide) (derivation.append first)
      obtain ⟨final, more, entire, same⟩ := ih longer siblings rest
      refine ⟨final, property :: more, entire, ?_⟩
      rw [same, List.singleton_append, Derivation.spine_node, List.append_assoc,
        List.singleton_append]

theorem isDerivation_metaProperties_nil (tokens : List Leaf) (here : Nat) :
    ∃ tree, language.grammar.IsDerivation tokens .metaProperties here here tree := by
  obtain ⟨_, empty⟩ := isDerivation_of_hasFree .metaProperties []
    (by decide) (show language.grammar.Derives tokens [] here here [] from .nil)
  exact ⟨_, empty⟩

/-- The word `keys` can be provided as a name. -/
theorem short_of_long {key : String} {place stop : Nat} {trees : List Derivation}
    (long : language.grammar.Derives tokens (provision key).2 place stop trees) :
    place + 2 < stop ∧
      ∃ trees, language.grammar.Derives tokens (provision key).1 place (place + 2) trees := by
  obtain ⟨_, _, atKey, isKey, rest, _⟩ := derives_terminal_cons_iff.mp long
  obtain ⟨leaf, _, atKeys, isKeys, rest, _⟩ := derives_terminal_cons_iff.mp rest
  obtain ⟨_, _, _, names, rest, _⟩ := derives_nonterminal_cons_iff.mp rest
  obtain ⟨_, _, _, _, rest, _⟩ := derives_terminal_cons_iff.mp rest
  have name : language.grammar.accepts .identifier leaf = true :=
    accepts_operandClass (show isOperand (.word "keys") = true by decide) isKeys
  obtain ⟨_, named⟩ := isDerivation_of_hasFree .identifiers [token .identifier]
    (by decide) (.leaf atKeys name .nil)
  have names := names.le
  have rest := rest.le
  exact ⟨by omega, _, .leaf atKey isKey named⟩

theorem isDerivation_provision {key : String} (isKey : key ∈ ["provides", "provide"])
    {symbols : List (Symbol Nonterminal Terminal)}
    (form : symbols = (provision key).1 ∨ symbols = (provision key).2) {start stop : Nat}
    {trees : List Derivation}
    (derived : language.grammar.Derives tokens symbols start stop trees) :
    ∃ index, language.grammar.IsDerivation tokens .metaProperty start stop
      (.node index start stop trees) := by
  have free : ∀ key ∈ ["provides", "provide"],
      language.grammar.hasFree .metaProperty (provision key).1 = true ∧
        language.grammar.hasFree .metaProperty (provision key).2 = true := by
    decide
  rcases form with rfl | rfl
  · exact isDerivation_of_hasFree _ _ (free key isKey).1 derived
  · exact isDerivation_of_hasFree _ _ (free key isKey).2 derived

/-- Properties go on with a property and then with others. -/
theorem metaProperties_through {start place middle stop : Nat} {before property : Derivation}
    (earlier : language.grammar.IsDerivation tokens .metaProperties start place before)
    (next : language.grammar.IsDerivation tokens .metaProperty place middle property)
    (others : Properties tokens middle stop) :
    ∃ final more, language.grammar.IsDerivation tokens .metaProperties start stop final ∧
      final.spine = before.spine ++ property :: more := by
  obtain ⟨_, longer⟩ := isDerivation_of_hasFree .metaProperties
    [the .metaProperties, the .metaProperty] (by decide) (earlier.append next)
  obtain ⟨final, more, entire, same⟩ := metaProperties_append longer others
  refine ⟨final, more, entire, ?_⟩
  rw [same, List.singleton_append, Derivation.spine_node, List.append_assoc,
    List.singleton_append]

/-- Two ways of going on with a property make two lists of properties. -/
theorem metaProperties_of_readTwice {start stop : Nat} (twice : ReadTwice tokens start stop) :
    ∃ one other, one ≠ other ∧
      language.grammar.IsDerivation tokens .metaProperties start stop one ∧
        language.grammar.IsDerivation tokens .metaProperties start stop other := by
  obtain ⟨key, isKey, place, behind, trees, earlier, long, others, others'⟩ := twice
  obtain ⟨farther, trees', short⟩ := short_of_long long
  obtain ⟨_, empty⟩ := isDerivation_metaProperties_nil tokens start
  obtain ⟨before, _, earlier, _⟩ := metaProperties_append empty earlier
  obtain ⟨_, property⟩ := isDerivation_provision isKey (.inr rfl) long
  obtain ⟨_, property'⟩ := isDerivation_provision isKey (.inl rfl) short
  obtain ⟨one, more, first, spine⟩ := metaProperties_through earlier property others
  obtain ⟨other, more', second, spine'⟩ := metaProperties_through earlier property' others'
  refine ⟨one, other, ?_, first, second⟩
  -- The properties behind the common ones end at different indices.
  rintro rfl
  rw [spine] at spine'
  injection List.append_cancel_left spine' with same
  injection same with _ _ stops
  omega

/-- A phrase around two different phrases makes two different ones. -/
theorem isDerivation_two (name : Nonterminal) {inner : Nonterminal}
    (before behind : List (Symbol Nonterminal Terminal))
    (free : language.grammar.hasFree name (before ++ the inner :: behind) = true)
    {start middle middle' stop : Nat} {left right : List Derivation} {one other : Derivation}
    (opening : language.grammar.Derives tokens before start middle left)
    (closing : language.grammar.Derives tokens behind middle' stop right)
    (derivation : language.grammar.IsDerivation tokens inner middle middle' one)
    (derivation' : language.grammar.IsDerivation tokens inner middle middle' other)
    (differ : one ≠ other) :
    ∃ one other, one ≠ other ∧ language.grammar.IsDerivation tokens name start stop one ∧
      language.grammar.IsDerivation tokens name start stop other := by
  have around : ∀ {tree}, language.grammar.IsDerivation tokens inner middle middle' tree →
      language.grammar.Derives tokens (before ++ the inner :: behind) start stop
        (left ++ tree :: right) :=
    fun tree => opening.append (derives_nonterminal_cons_iff.mpr ⟨_, _, _, tree, closing, rfl⟩)
  obtain ⟨_, whole⟩ := isDerivation_of_hasFree _ _ free (around derivation)
  obtain ⟨_, whole'⟩ := isDerivation_of_hasFree _ _ free (around derivation')
  refine ⟨_, _, ?_, whole, whole'⟩
  intro same
  injection same with _ _ _ children
  injection List.append_cancel_left children with same
  exact differ same

/-- A source that is a ruleset with properties that can be read in two ways has two
derivations. -/
theorem main_of_readTwice (twice : RulesetReadTwice tokens) :
    ∃ one other, one ≠ other ∧
      language.grammar.IsDerivation tokens .main 0 tokens.length one ∧
        language.grammar.IsDerivation tokens .main 0 tokens.length other := by
  obtain ⟨start, stop, trees, trees', opening, twice, closing⟩ := twice
  obtain ⟨one, other, differ, first, second⟩ := metaProperties_of_readTwice twice
  -- The block of properties, the optional block, the ruleset, and the source.
  obtain ⟨place, head, begins, rfl, named, opening⟩ :=
    Derives.split [word "ruleset", the .rulesetId, mark .leftBrace] opening
  obtain ⟨behind, ends, body, rfl, brace, body'⟩ :=
    Derives.split [mark .rightBrace] closing
  obtain ⟨one, other, differ, first, second⟩ := isDerivation_two .metaBlock _
    [mark .rightBrace] (by decide) opening brace first second differ
  obtain ⟨one, other, differ, first, second⟩ := isDerivation_two .metaOpt [] []
    (by decide) .nil .nil first second differ
  obtain ⟨one, other, differ, first, second⟩ := isDerivation_two .ruleset _ bodyOfRuleset
    (by decide) named body' first second differ
  exact isDerivation_two .main [] [] (by decide) .nil .nil first second differ

end Distinction

end Krl

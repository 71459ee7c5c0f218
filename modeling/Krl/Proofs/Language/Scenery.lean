import Krl.Proofs.Language.Criteria

/-!
# What the tokens of a source show

The letters of tokens at their places, and what the guard of actions has to do with
them: right after a group of events stands an aggregator or something else, but not
an action that is named like an aggregator. To see this one has to find the beginning
of the group from its end.
-/

namespace Krl

theorem isNested_parenTurn : language.grammar.IsNested (Terminal.turn Punct.parenTurn) := by
  rw [Grammar.IsNested]
  decide +kernel

/-- The tokens before an index, in reverse order. -/
def tokensBefore (tokens : List Leaf) (here : Nat) : List Token :=
  (tokens.take here).reverse.map fun leaf => leaf.lexeme.token

theorem tokensBefore_succ {tokens : List Leaf} {here : Nat} {leaf : Leaf}
    (found : tokens[here]? = some leaf) :
    tokensBefore tokens (here + 1) = leaf.lexeme.token :: tokensBefore tokens here := by
  rw [tokensBefore, List.take_add_one, found, Option.toList_some, List.reverse_append]
  rfl

theorem beyondOpening_of_turn {token : Token} {others : List Token} {before behind : Nat}
    (after : (token.turn Punct.parenTurn).depthAfter before = some behind) (outer : Nat) :
    beyondOpening? (behind + outer + 1) (token :: others) =
      beyondOpening? (before + outer + 1) others := by
  have stays : ∀ other : Token, other.turn Punct.parenTurn = .stays → other = token →
      beyondOpening? (behind + outer + 1) (token :: others) =
        beyondOpening? (before + outer + 1) others := by
    rintro other still rfl
    rw [still] at after
    cases after
    cases other with
    | punct mark => cases mark <;> first | rfl | cases still
    | _ => rfl
  cases token with
  | punct mark =>
      cases mark with
      | leftParen =>
          cases after
          rw [beyondOpening?]
          · congr 1
            omega
          · omega
      | rightParen =>
          cases before with
          | zero => cases after
          | succ before =>
              cases after
              rw [beyondOpening?]
              congr 1
              omega
      | _ => exact stays _ rfl rfl
  | _ => exact stays _ rfl rfl

/-- Looking back over a derivation, one leaves the parentheses that were left before. -/
theorem beyondOpening_of_derives {tokens : List Leaf} {symbols : List (Symbol Nonterminal Terminal)}
    {start stop : Nat} {trees : List Derivation}
    (derived : language.grammar.Derives tokens symbols start stop trees) {before behind : Nat}
    (depths : Grammar.depthAfter (Terminal.turn Punct.parenTurn) symbols before = some behind)
    (outer : Nat) :
    beyondOpening? (behind + outer + 1) (tokensBefore tokens stop) =
      beyondOpening? (before + outer + 1) (tokensBefore tokens start) := by
  induction derived generalizing before behind outer with
  | nil =>
      cases depths
      rfl
  | @leaf expected others here stop siblings token found accepted rest ih =>
      rw [Grammar.depthAfter, Option.bind_eq_some_iff] at depths
      obtain ⟨between, first, depths⟩ := depths
      rw [ih depths outer, tokensBefore_succ found]
      apply beyondOpening_of_turn
      rw [← first]
      exact congrArg (Turn.depthAfter · before)
        (Terminal.turnsAgree Punct.parenTurn expected token accepted)
  | @node index production others start middle stop children siblings listed _ inner rest
      innerIh restIh =>
      have nested := isNested_parenTurn production (List.mem_of_getElem? listed)
      rw [Grammar.depthAfter] at depths
      rw [restIh depths outer]
      have same := innerIh nested (before + outer)
      rw [Nat.zero_add] at same
      exact same

namespace Distinction

/-- The tokens of a source as they are seen. -/
def scene (tokens : List Leaf) : Scene view language.grammar tokens where
  letter := fun here =>
    match tokens[here]? with
    | none => Letter.finish
    | some leaf => Letter.ofToken (endsInGroup (tokensBefore tokens here)) leaf.lexeme.token
  turnOf := fun leaf => leaf.lexeme.token.turn Punct.turn
  turns_agree := Terminal.turnsAgree Punct.turn
  letter_pos := by
    intro here
    split
    · decide
    · exact Letter.ofToken_pos _ _
  letter_lt := by
    intro here
    split
    · exact of_decide_eq_true rfl
    · exact Letter.ofToken_lt _ _
  letter_of_accepts := by
    intro here leaf expected found accepted
    rw [found]
    exact Terminal.letters_of_read _ accepted

theorem isRanked_optics : optics.IsRanked := by
  intro letter bound
  have ranked : (List.range Letter.count).all fun letter =>
      optics.blocks.any fun block => block.testBit letter := by
    decide
  exact List.all_eq_true.mp ranked letter (List.mem_range.mpr bound)

variable {tokens : List Leaf} {horizon here : Nat}

theorem sees_all : (scene tokens).Sees horizon optics.everywhere here :=
  Scene.sees_everywhere isRanked_optics

/-- Where the next letter is not a certain one, one sees a sight that does not begin
with it. -/
theorem sees_without {other : Nat} (proper : 0 < other)
    (bounded : Letter.set [other] < 2 ^ Letter.count)
    (differs : (scene tokens).letter here ≠ other) :
    (scene tokens).Sees horizon (optics.sights (optics.anything - Letter.set [other])) here := by
  apply Scene.sees_sights isRanked_optics
  have differs : (scene tokens).letterWithin horizon here ≠ other := by
    rw [Scene.letterWithin]
    split
    · exact differs
    · exact Nat.ne_of_lt proper
  rw [Optics.testBit_anything_sub bounded, Bool.and_eq_true, decide_eq_true_eq, Bool.not_eq_true']
  refine ⟨Scene.letterWithin_lt, ?_⟩
  rw [Bool.eq_false_iff]
  intro member
  rw [Letter.testBit_set, List.mem_singleton] at member
  exact differs member

theorem letter_eq {leaf : Leaf} (found : tokens[here]? = some leaf) :
    (scene tokens).letter here =
      Letter.ofToken (endsInGroup (tokensBefore tokens here)) leaf.lexeme.token := by
  rw [scene]
  simp only [found]

theorem letter_of_none (missing : tokens[here]? = none) :
    (scene tokens).letter here = Letter.finish := by
  rw [scene]
  simp only [missing]

open Productions in
set_option maxRecDepth 20000 in
theorem actionCore_productions :
    (language.grammar.productions.filter fun production => production.lhs = .actionCore) =
      [⟨.actionCore, [the .actionName, the .arguments, the .settingOpt], some notAfterGroup⟩] :=
  rfl

theorem notAfterGroup_of_actionCore {stop : Nat} {tree : Derivation}
    (derivation : language.grammar.IsDerivation tokens .actionCore here stop tree) :
    notAfterGroup tokens here stop = true := by
  obtain ⟨index, production, _, listed, lhs, admitted, _⟩ :=
    Grammar.derives_nonterminal_iff.mp derivation
  have member : production ∈ language.grammar.productions.filter fun production =>
      production.lhs = .actionCore :=
    List.mem_filter.mpr ⟨List.mem_of_getElem? listed, decide_eq_true lhs⟩
  rw [actionCore_productions, List.mem_singleton] at member
  cases member
  exact admitted notAfterGroup rfl

/-- An action does not begin with the name of an aggregator after a group of events. -/
theorem letter_ne_aggregator {stop : Nat} {tree : Derivation}
    (derivation : language.grammar.IsDerivation tokens .actionCore here stop tree) :
    (scene tokens).letter here ≠ Letter.aggregator := by
  have confirmed := notAfterGroup_of_actionCore derivation
  intro same
  cases found : tokens[here]? with
  | none =>
      rw [letter_of_none found] at same
      cases same
  | some leaf =>
      rw [letter_eq found] at same
      obtain ⟨named, after⟩ := Letter.of_ofToken_eq_aggregator same
      rw [tokensBefore] at after
      rw [notAfterGroup, found] at confirmed
      simp only [named, after] at confirmed
      cases confirmed

open Productions in
/-- What stands before the aggregator of a group of events. -/
def groupOpening (text : String) : List (Symbol Nonterminal Terminal) :=
  [word text, token .number, mark .leftParen, the .eventBase, mark .rightParen]

/-- After a group of events one finds it by looking back. -/
theorem endsInGroup_of_derives {text : String} (counts : text = "count" ∨ text = "repeat")
    {origin : Nat} {trees : List Derivation}
    (derived : language.grammar.Derives tokens (groupOpening text) origin here trees) :
    endsInGroup (tokensBefore tokens here) = true := by
  obtain ⟨counter, _, first, isCounter, derived, _⟩ := Grammar.derives_terminal_cons_iff.mp derived
  obtain ⟨number, _, second, isNumber, derived, _⟩ := Grammar.derives_terminal_cons_iff.mp derived
  obtain ⟨opening, _, third, isOpening, derived, _⟩ := Grammar.derives_terminal_cons_iff.mp derived
  obtain ⟨close, _, _, event, derived, _⟩ := Grammar.derives_nonterminal_cons_iff.mp derived
  obtain ⟨rfl, _, closing, last, isClosing⟩ := Grammar.derives_terminal_iff.mp derived
  have even : Grammar.depthAfter (Terminal.turn Punct.parenTurn)
      [.nonterminal Nonterminal.eventBase] 0 = some 0 := rfl
  have back := beyondOpening_of_derives event even 0
  rw [tokensBefore_succ last, Terminal.token_of_punct isClosing, endsInGroup, back,
    tokensBefore_succ third, Terminal.token_of_punct isOpening, beyondOpening?,
    tokensBefore_succ second, tokensBefore_succ first, Terminal.token_of_word isCounter]
  rcases number with ⟨⟨token, _, _⟩, _⟩
  cases token <;> try cases isNumber
  show (text == "count" || text == "repeat") = true
  rw [Bool.or_eq_true, beq_iff_eq, beq_iff_eq]
  exact counts

/-- An aggregator is called for after a group of events only. -/
theorem before_aggregatorOpt :
    ∀ production ∈ language.grammar.productions, ∀ dot < production.rhs.length,
      production.rhs[dot]? = some (.nonterminal .aggregatorOpt) →
        production.rhs.take dot ∈ [groupOpening "count", groupOpening "repeat"] := by
  decide +kernel

/-- After a group of events, the name of an aggregator is seen to be one. -/
theorem letter_ne_aggregatorName {others : List (Symbol Nonterminal Terminal)}
    (remains : language.grammar.Remains tokens (.nonterminal .aggregatorOpt :: others) here) :
    (scene tokens).letter here ≠ Letter.aggregatorName := by
  obtain ⟨production, listed, dot, origin, behind, _, derived⟩ := remains
  have called := (Grammar.of_drop_eq_cons behind).1
  have inside := (List.getElem?_eq_some_iff.mp called).1
  have after : endsInGroup (tokensBefore tokens here) = true := by
    have opening := before_aggregatorOpt production listed dot inside called
    simp only [List.mem_cons, List.not_mem_nil, or_false] at opening
    rcases opening with same | same <;> rw [same] at derived
    · exact endsInGroup_of_derives (.inl rfl) derived
    · exact endsInGroup_of_derives (.inr rfl) derived
  intro same
  cases found : tokens[here]? with
  | none =>
      rw [letter_of_none found] at same
      cases same
  | some leaf =>
      rw [letter_eq found] at same
      rw [Letter.of_ofToken_eq_aggregatorName same] at after
      cases after

theorem heeded_scene : Grammar.Heeded (scene tokens) := by
  intro name others here stop horizon tree remains derivation within
  show (scene tokens).Sees horizon (allowed name) here
  rw [allowed]
  split
  next same =>
      rw [same] at derivation
      exact sees_without (Nat.succ_pos 8) (of_decide_eq_true rfl) (letter_ne_aggregator derivation)
  next =>
      split
      next same =>
          rw [same] at remains
          exact sees_without (Nat.succ_pos 9) (of_decide_eq_true rfl)
            (letter_ne_aggregatorName remains)
      next => exact sees_all

end Distinction

end Krl

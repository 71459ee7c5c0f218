import Krl.Proofs.Language.Scenery
import Mathlib.Data.Nat.Init

/-!
# The group before an action

Whether a group of events ends before an index is found out by going back to the parenthesis that
matches the last one. This never goes astray, whatever the tokens are, and finds the nearest index
from which there are as many opening as closing parentheses.
-/

namespace Krl

/-- The token at an index, without its place. -/
def tokenAt? (tokens : List Leaf) (index : Nat) : Option Token :=
  (tokens[index]?).map fun leaf => leaf.lexeme.token

namespace Token

/-- Whether a token is a certain mark. -/
def isMark (mark : Punct) : Token → Bool
  | .punct other => other = mark
  | _ => false

/-- One for a certain mark, and nothing for other tokens. -/
def counts (mark : Punct) (token : Token) : Nat :=
  if token.isMark mark then 1 else 0

def isNumber : Token → Bool
  | .number _ => true
  | _ => false

/-- Whether a token is a word that a group of events begins with. -/
def isCounter : Token → Bool
  | .symbol text => text == "count" || text == "repeat"
  | _ => false

theorem isMark_iff {mark : Punct} {token : Token} :
    token.isMark mark = true ↔ token = .punct mark := by
  cases token <;> simp [isMark]

theorem counts_le_one (mark : Punct) (token : Token) : token.counts mark ≤ 1 := by
  rw [counts]
  split <;> decide

theorem isNumber_iff {token : Token} : token.isNumber = true ↔ ∃ value, token = .number value := by
  cases token <;> simp [isNumber]

theorem isCounter_iff {token : Token} :
    token.isCounter = true ↔ ∃ text ∈ ["count", "repeat"], token = .symbol text := by
  cases token <;> simp [isCounter, or_and_right, exists_or]

end Token

section Counting

/-- How many of the tokens from one index up to another are a certain mark. -/
def countMarks (tokens : List Leaf) (mark : Punct) (first last : Nat) : Nat :=
  ((tokens.take last).drop first).countP fun leaf => leaf.lexeme.token.isMark mark

/-- At an index stands the parenthesis that is closed right before the other index: it is the
nearest one from which there are as many opening as closing parentheses. -/
structure OpensBefore (tokens : List Leaf) (opening here : Nat) : Prop where
  before : opening < here
  even : countMarks tokens .leftParen opening here = countMarks tokens .rightParen opening here
  nearest : ∀ index, opening < index → index < here →
    countMarks tokens .leftParen index here ≠ countMarks tokens .rightParen index here

variable {tokens : List Leaf} {mark : Punct} {first here : Nat} {leaf : Leaf}

theorem countMarks_self (tokens : List Leaf) (mark : Punct) (here : Nat) :
    countMarks tokens mark here here = 0 := by
  rw [countMarks, List.drop_take, Nat.sub_self, List.take_zero, List.countP_nil]

/-- One more token behind. -/
theorem countMarks_succ (found : tokens[here]? = some leaf) (ordered : first ≤ here) :
    countMarks tokens mark first (here + 1) =
      countMarks tokens mark first here + leaf.lexeme.token.counts mark := by
  have long : first ≤ (tokens.take here).length := by
    have := (List.getElem?_eq_some_iff.mp found).1
    rw [List.length_take]
    omega
  rw [countMarks, List.take_add_one, found, Option.toList_some, List.drop_append_of_le_length long,
    List.countP_append, List.countP_singleton]
  rfl

/-- One more token before. -/
theorem countMarks_step (found : tokens[first]? = some leaf) (ordered : first < here) :
    countMarks tokens mark first here =
      countMarks tokens mark (first + 1) here + leaf.lexeme.token.counts mark := by
  obtain ⟨bound, same⟩ := List.getElem?_eq_some_iff.mp found
  have inside : first < (tokens.take here).length := by
    rw [List.length_take]
    omega
  rw [countMarks, List.drop_eq_getElem_cons inside, List.getElem_take, same, List.countP_cons]
  rfl

/-- Going back from an index, so many closing parentheses being open, one leaves them at another
index. -/
def LeadsBack (tokens : List Leaf) (depth here opening : Nat) : Prop :=
  opening < here ∧ countMarks tokens .leftParen opening here =
      countMarks tokens .rightParen opening here + depth ∧
    ∀ index, opening < index → index ≤ here →
      countMarks tokens .leftParen index here < countMarks tokens .rightParen index here + depth

/-- What a token does to the number of closing parentheses that are open. -/
theorem leadsBack_succ_iff {depth opening : Nat} (found : tokens[here]? = some leaf)
    (positive : 0 < depth) :
    let lefts := leaf.lexeme.token.counts .leftParen
    let rights := leaf.lexeme.token.counts .rightParen
    LeadsBack tokens depth (here + 1) opening ↔
      opening = here ∧ lefts = rights + depth ∨
        lefts < rights + depth ∧ LeadsBack tokens (rights + depth - lefts) here opening := by
  intro lefts rights
  have left {index : Nat} (below : index ≤ here) : countMarks tokens .leftParen index (here + 1) =
      countMarks tokens .leftParen index here + lefts := countMarks_succ found below
  have right {index : Nat} (below : index ≤ here) : countMarks tokens .rightParen index (here + 1) =
      countMarks tokens .rightParen index here + rights := countMarks_succ found below
  have none_ (mark : Punct) := countMarks_self tokens mark here
  constructor
  · rintro ⟨before, even, above⟩
    rcases Nat.lt_or_eq_of_le (Nat.le_of_lt_succ before) with earlier | rfl
    · have here_ := above here earlier (Nat.le_succ _)
      rw [left (Nat.le_refl _), right (Nat.le_refl _), none_, none_] at here_
      rw [left (Nat.le_of_lt earlier), right (Nat.le_of_lt earlier)] at even
      refine .inr ⟨by omega, earlier, by omega, fun index behind below => ?_⟩
      have further := above index behind (Nat.le_succ_of_le below)
      rw [left below, right below] at further
      omega
    · rw [left (Nat.le_refl _), right (Nat.le_refl _), none_, none_] at even
      exact .inl ⟨rfl, by omega⟩
  · rintro (⟨rfl, closes⟩ | ⟨open_, before, even, above⟩)
    · refine ⟨Nat.lt_succ_self _, ?_, fun index behind below => ?_⟩
      · rw [left (Nat.le_refl _), right (Nat.le_refl _), none_, none_]
        omega
      · obtain rfl : index = opening + 1 := by omega
        rw [countMarks_self, countMarks_self]
        omega
    · refine ⟨Nat.lt_succ_of_lt before, ?_, fun index behind below => ?_⟩
      · rw [left (Nat.le_of_lt before), right (Nat.le_of_lt before)]
        omega
      · rcases Nat.lt_or_eq_of_le below with inside | rfl
        · have further := above index behind (Nat.le_of_lt_succ inside)
          rw [left (Nat.le_of_lt_succ inside), right (Nat.le_of_lt_succ inside)]
          omega
        · rw [countMarks_self, countMarks_self]
          omega

/-- Going back over a token one leaves the parentheses, or goes on with so many open. -/
theorem beyondOpening_cons {depth : Nat} (positive : 0 < depth) (token : Token)
    (others : List Token) :
    let lefts := token.counts .leftParen
    let rights := token.counts .rightParen
    beyondOpening? depth (token :: others) =
      if lefts < rights + depth then beyondOpening? (rights + depth - lefts) others
      else some others := by
  have stays : token.isMark .leftParen = false → token.isMark .rightParen = false →
      beyondOpening? depth (token :: others) = beyondOpening? depth others := by
    intro notLeft notRight
    cases token with
    | punct mark => cases mark <;> first | rfl | (cases notLeft; done) | cases notRight
    | _ => rfl
  by_cases left : token.isMark .leftParen
  · obtain rfl := Token.isMark_iff.mp left
    match depth, positive with
    | 1, _ => rfl
    | depth + 2, _ => simp [Token.counts, Token.isMark, beyondOpening?]
  · by_cases right : token.isMark .rightParen
    · obtain rfl := Token.isMark_iff.mp right
      simp [Token.counts, Token.isMark, beyondOpening?, Nat.add_comm]
    · simp [Token.counts, left, right, stays, positive]

/-- Going back over the tokens one finds where the parentheses are left. The induction is on the
index from where one goes. -/
theorem beyondOpening_eq_some_iff {depth : Nat} (positive : 0 < depth)
    (bound : here ≤ tokens.length) {rest : List Token} :
    beyondOpening? depth (tokensBefore tokens here) = some rest ↔
      ∃ opening, rest = tokensBefore tokens opening ∧ LeadsBack tokens depth here opening := by
  induction here generalizing depth with
  | zero =>
      constructor
      · rw [tokensBefore, List.take_zero, List.reverse_nil, List.map_nil, beyondOpening?]
        intro found
        cases found
      · rintro ⟨_, _, before, _⟩
        exact absurd before (Nat.not_lt_zero _)
  | succ here ih =>
      have found := List.getElem?_eq_getElem (show here < tokens.length from bound)
      have bound := Nat.le_of_succ_le bound
      generalize tokens[here] = leaf at found
      rw [tokensBefore_succ found, beyondOpening_cons positive]
      simp only [leadsBack_succ_iff found positive]
      have one := leaf.lexeme.token.counts_le_one .leftParen
      by_cases open_ : leaf.lexeme.token.counts .leftParen <
          leaf.lexeme.token.counts .rightParen + depth
      · rw [if_pos open_, ih (Nat.sub_pos_of_lt open_) bound]
        simp only [open_, true_and, Nat.ne_of_lt open_, and_false, false_or]
      · have closes : leaf.lexeme.token.counts .leftParen =
            leaf.lexeme.token.counts .rightParen + depth := by omega
        simp [closes, eq_comm]

/-- Where there are as many opening as closing parentheses from no index in between, there are
fewer from all of them. The induction goes back from the last one. -/
theorem lt_of_forall_ne {close opening : Nat}
    (found : tokens[close]? = some leaf) (closes : leaf.lexeme.token = .punct .rightParen)
    (differ : ∀ index, opening < index → index < close + 1 →
      countMarks tokens .leftParen index (close + 1) ≠
        countMarks tokens .rightParen index (close + 1)) {index : Nat} (behind : opening < index)
    (before : index ≤ close) : countMarks tokens .leftParen index (close + 1) <
      countMarks tokens .rightParen index (close + 1) := by
  induction before using Nat.decreasingInduction with
  | self =>
      rw [countMarks_step found (Nat.lt_succ_self _), countMarks_step found (Nat.lt_succ_self _),
        countMarks_self, countMarks_self, closes]
      decide
  | of_succ index before ih =>
      have bound := (List.getElem?_eq_some_iff.mp found).1
      have fewer := ih (Nat.lt_succ_of_lt behind)
      have unequal := differ index behind (Nat.lt_succ_of_lt before)
      have here := List.getElem?_eq_getElem (Nat.lt_trans before bound)
      have onward : index < close + 1 := Nat.lt_succ_of_lt before
      rw [countMarks_step here onward, countMarks_step here onward] at unequal ⊢
      have one := tokens[index].lexeme.token.counts_le_one .leftParen
      omega

/-- One leaves the last closing parenthesis where it is opened. -/
theorem leadsBack_iff_opensBefore {close opening : Nat} (found : tokens[close]? = some leaf)
    (closes : leaf.lexeme.token = .punct .rightParen) :
    LeadsBack tokens 1 close opening ↔ OpensBefore tokens opening (close + 1) := by
  have left {index : Nat} (below : index ≤ close) : countMarks tokens .leftParen index (close + 1) =
      countMarks tokens .leftParen index close := by
    rw [countMarks_succ found below, closes]
    rfl
  have right {index : Nat} (below : index ≤ close) :
      countMarks tokens .rightParen index (close + 1) =
        countMarks tokens .rightParen index close + 1 := by
    rw [countMarks_succ found below, closes]
    rfl
  constructor
  · rintro ⟨before, even, above⟩
    refine ⟨Nat.lt_succ_of_lt before, ?_, fun index behind below => ?_⟩
    · rw [left (Nat.le_of_lt before), right (Nat.le_of_lt before), even]
    · have fewer := above index behind (Nat.le_of_lt_succ below)
      rw [left (Nat.le_of_lt_succ below), right (Nat.le_of_lt_succ below)]
      exact Nat.ne_of_lt fewer
  · rintro ⟨before, even, nearest⟩
    rcases Nat.lt_or_eq_of_le (Nat.le_of_lt_succ before) with earlier | rfl
    · rw [left (Nat.le_of_lt earlier), right (Nat.le_of_lt earlier)] at even
      refine ⟨earlier, even, fun index behind below => ?_⟩
      have fewer := lt_of_forall_ne found closes nearest behind below
      rwa [left below, right below] at fewer
    · rw [left (Nat.le_refl _), right (Nat.le_refl _), countMarks_self, countMarks_self] at even
      cases even

theorem tokensBefore_length (bound : here ≤ tokens.length) :
    (tokensBefore tokens here).length = here := by
  rw [tokensBefore, List.length_map, List.length_reverse, List.length_take, Nat.min_eq_left bound]

theorem tokensBefore_cons (inside : here < tokens.length) :
    ∃ token, tokenAt? tokens here = some token ∧
      tokensBefore tokens (here + 1) = token :: tokensBefore tokens here := by
  have found := List.getElem?_eq_getElem inside
  exact ⟨_, congrArg (Option.map _) found, tokensBefore_succ found⟩

theorem opensGroup_cons_cons (number counter : Token) (others : List Token) :
    opensGroup (number :: counter :: others) = (number.isNumber && counter.isCounter) := by
  cases number <;> first | rfl | (cases counter <;> rfl)

/-- What stands before the parentheses of a group of events, seen from their opening. -/
theorem opensGroup_iff {opening : Nat} (bound : opening ≤ tokens.length) :
    opensGroup (tokensBefore tokens opening) = true ↔
      ∃ counter, opening = counter + 2 ∧
        (∃ value, tokenAt? tokens (counter + 1) = some (.number value)) ∧
          ∃ text ∈ ["count", "repeat"], tokenAt? tokens counter = some (.symbol text) := by
  match opening with
  | 0 => exact iff_of_false nofun (by simp)
  | 1 =>
      obtain ⟨token, _, same⟩ := tokensBefore_cons (show 0 < tokens.length from bound)
      refine iff_of_false ?_ (by simp)
      rw [same]
      cases token <;> exact nofun
  | counter + 2 =>
      obtain ⟨number, atNumber, same⟩ :=
        tokensBefore_cons (show counter + 1 < tokens.length from bound)
      obtain ⟨word, atWord, same'⟩ := tokensBefore_cons (show counter < tokens.length by omega)
      rw [same, same', opensGroup_cons_cons, Bool.and_eq_true, Token.isNumber_iff,
        Token.isCounter_iff]
      simp [atNumber, atWord]

/-- A group of events ends before an index: the parenthesis that matches the last one stands behind
a number and a word that counts. -/
def AfterGroup (tokens : List Leaf) (here : Nat) : Prop :=
  ∃ close counter, here = close + 1 ∧ tokenAt? tokens close = some (.punct .rightParen) ∧
    OpensBefore tokens (counter + 2) here ∧
      (∃ value, tokenAt? tokens (counter + 1) = some (.number value)) ∧
        ∃ text ∈ ["count", "repeat"], tokenAt? tokens counter = some (.symbol text)

theorem endsInGroup_cons (token : Token) (others : List Token) :
    endsInGroup (token :: others) = true ↔ token = .punct .rightParen ∧
      ∃ rest, beyondOpening? 1 others = some rest ∧ opensGroup rest = true := by
  cases token with
  | punct mark =>
      cases mark with
      | rightParen => cases found : beyondOpening? 1 others <;> simp [endsInGroup, found]
      | _ => simp [endsInGroup]
  | _ => simp [endsInGroup]

theorem endsInGroup_iff (bound : here ≤ tokens.length) :
    endsInGroup (tokensBefore tokens here) = true ↔ AfterGroup tokens here := by
  match here with
  | 0 => exact iff_of_false nofun (by simp [AfterGroup])
  | close + 1 =>
      have found := List.getElem?_eq_getElem (show close < tokens.length from bound)
      generalize tokens[close] = leaf at found
      have atClose : tokenAt? tokens close = some leaf.lexeme.token := congrArg (Option.map _) found
      rw [tokensBefore_succ found, endsInGroup_cons]
      constructor
      · rintro ⟨closes, rest, beyond, opens⟩
        obtain ⟨opening, rfl, leads⟩ := (beyondOpening_eq_some_iff Nat.one_pos
          (Nat.le_of_succ_le bound)).mp beyond
        have before := (leadsBack_iff_opensBefore found closes).mp leads
        have inside : opening ≤ tokens.length := Nat.le_trans (Nat.le_of_lt before.before) bound
        obtain ⟨counter, rfl, number, word⟩ := (opensGroup_iff inside).mp opens
        exact ⟨close, counter, rfl, atClose.trans (congrArg some closes), before, number, word⟩
      · rintro ⟨_, counter, same, closes, before, number, word⟩
        obtain rfl := Nat.succ.inj same
        have closes := Option.some.inj (atClose.symm.trans closes)
        have inside : counter + 2 ≤ tokens.length :=
          Nat.le_trans (Nat.le_of_lt before.before) bound
        exact ⟨closes, _, (beyondOpening_eq_some_iff Nat.one_pos (Nat.le_of_succ_le bound)).mpr
          ⟨_, rfl, (leadsBack_iff_opensBefore found closes).mpr before⟩,
          (opensGroup_iff inside).mpr ⟨counter, rfl, number, word⟩⟩

theorem isAggregatorName_iff {token : Token} : isAggregatorName token = true ↔
    ∃ text ∈ ["min", "max", "sum", "avg", "push"], token = .symbol text := by
  have words : ["min", "max", "sum", "avg", "push"] = AggregateOp.all.map AggregateOp.word := rfl
  rw [words]
  cases token with
  | symbol text =>
      rw [isAggregatorName, List.any_eq_true]
      constructor
      · rintro ⟨op, member, same⟩
        exact ⟨op.word, List.mem_map_of_mem member, congrArg Token.symbol (beq_iff_eq.mp same).symm⟩
      · rintro ⟨_, member, ⟨⟩⟩
        obtain ⟨op, member, same⟩ := List.mem_map.mp member
        exact ⟨op, member, beq_iff_eq.mpr same⟩
  | _ => simp [isAggregatorName]

/-- Where the guard does not let an action begin. -/
theorem notAfterGroup_eq_false_iff (tokens : List Leaf) (start stop : Nat) :
    notAfterGroup tokens start stop = false ↔
      (∃ text ∈ ["min", "max", "sum", "avg", "push"],
        tokenAt? tokens start = some (.symbol text)) ∧ AfterGroup tokens start := by
  rw [notAfterGroup, tokenAt?]
  cases found : tokens[start]? with
  | none => simp
  | some leaf =>
      have bound := (List.getElem?_eq_some_iff.mp found).1
      have after := endsInGroup_iff (Nat.le_of_lt bound)
      rw [tokensBefore] at after
      simp only [Option.map_some, Option.some.injEq, ← isAggregatorName_iff, ← after,
        Bool.not_eq_false', Bool.and_eq_true]

/-- A phrase in parentheses, around which they are even, is opened where they begin. -/
theorem opensBefore_of_derives {symbols : List (Symbol Nonterminal Terminal)}
    {trees : List Derivation} {opening close : Nat}
    (opens : tokenAt? tokens opening = some (.punct .leftParen))
    (derived : language.grammar.Derives tokens symbols (opening + 1) close trees)
    (even : Grammar.depthAfter (Terminal.turn Punct.parenTurn) symbols 0 = some 0)
    (closes : tokenAt? tokens close = some (.punct .rightParen)) :
    OpensBefore tokens opening (close + 1) := by
  obtain ⟨first, found, isLeft⟩ := Option.map_eq_some_iff.mp opens
  obtain ⟨last, found', isRight⟩ := Option.map_eq_some_iff.mp closes
  have inside := (List.getElem?_eq_some_iff.mp found).1
  have bound := (List.getElem?_eq_some_iff.mp found').1
  have back := beyondOpening_of_derives derived even 0
  rw [tokensBefore_succ found, isLeft, beyondOpening?] at back
  obtain ⟨other, same, leads⟩ :=
    (beyondOpening_eq_some_iff Nat.one_pos (Nat.le_of_lt bound)).mp back
  have long := congrArg List.length same
  rw [tokensBefore_length (Nat.le_of_lt inside),
    tokensBefore_length (Nat.le_of_lt (Nat.lt_trans leads.1 bound))] at long
  rw [long]
  exact (leadsBack_iff_opensBefore found' isRight).mp leads

end Counting

section Checking

/-- How many closing parentheses are open before a token, given how many are open behind it. There
is no answer if more are opened than are closed. -/
def depthBefore? : Token → (depth : Nat) → Option Nat
  | .punct .rightParen, depth => some (depth + 1)
  | .punct .leftParen, 0 => none
  | .punct .leftParen, depth + 1 => some depth
  | _, depth => some depth

/-- The search for the parenthesis that matches the last one, from index to index, with so many
tokens left. There is no answer if it looks for a token where there is none, or if more parentheses
are opened than are closed. -/
def search? (tokens : List Leaf) : (left depth : Nat) → Option (Option Nat)
  | 0, _ => some none
  | place + 1, depth =>
      (tokenAt? tokens place).bind fun token =>
        (depthBefore? token depth).bind fun depth =>
          if token.isMark .leftParen && depth == 0 then
            some (some place)
          else
            search? tokens place depth

/-- Whether a parenthesis opens a group of events. There is no answer if there are no tokens where
it looks for them. -/
def opensGroupAt? (tokens : List Leaf) (opening : Nat) : Option Bool :=
  if 2 ≤ opening then
    (tokenAt? tokens (opening - 1)).bind fun number =>
      if number.isNumber then
        (tokenAt? tokens (opening - 2)).map Token.isCounter
      else
        some false
  else
    some false

/-- The guard of actions, from index to index. -/
def notAfterGroup? (tokens : List Leaf) (start : Nat) : Option Bool :=
  match tokenAt? tokens start with
  | none => some true
  | some first =>
      if !isAggregatorName first || start == 0 then
        some true
      else
        (tokenAt? tokens (start - 1)).bind fun last =>
          if last.isMark .rightParen then
            (search? tokens start 0).bind fun
              | none => some true
              | some opening => (opensGroupAt? tokens opening).map (!·)
          else
            some true

variable {tokens : List Leaf} {here depth : Nat}

/-- The number of open parentheses does not fall below zero in between. -/
theorem depthBefore_eq (positive : 0 < depth) (token : Token) :
    depthBefore? token depth =
      some (token.counts .rightParen + depth - token.counts .leftParen) := by
  obtain ⟨depth, rfl⟩ := Nat.exists_eq_add_of_le' positive
  cases token with
  | punct mark => cases mark <;> simp [depthBefore?, Token.counts, Token.isMark, Nat.add_comm]
  | _ => simp [depthBefore?, Token.counts, Token.isMark]

/-- The search ends where the parentheses are left, or goes on with so many open. -/
theorem search_succ (positive : 0 < depth) {token : Token}
    (found : tokenAt? tokens here = some token) :
    let lefts := token.counts .leftParen
    let rights := token.counts .rightParen
    search? tokens (here + 1) depth =
      if lefts < rights + depth then search? tokens here (rights + depth - lefts)
      else some (some here) := by
  intro lefts rights
  have leaves : (token.isMark .leftParen && rights + depth - lefts == 0) =
      !decide (lefts < rights + depth) := by
    by_cases left : token.isMark .leftParen
    · rw [left, Bool.true_and, Bool.eq_iff_iff, beq_iff_eq, Bool.not_eq_true',
        decide_eq_false_iff_not, Nat.sub_eq_zero_iff_le, Nat.not_lt]
    · have some_ : lefts < rights + depth := by
        simp only [lefts, Token.counts, left]
        exact Nat.lt_of_lt_of_le positive (Nat.le_add_left _ _)
      simp [left, some_]
  rw [search?, found, Option.bind_some, depthBefore_eq positive, Option.bind_some, leaves]
  by_cases open_ : lefts < rights + depth
  · simp [open_, lefts, rights]
  · simp [open_]

/-- The search ends, and finds what is found by going back over the list. The induction is on the
number of tokens left. -/
theorem search_eq (positive : 0 < depth) (bound : here ≤ tokens.length) :
    search? tokens here depth =
      some ((beyondOpening? depth (tokensBefore tokens here)).map List.length) := by
  induction here generalizing depth with
  | zero => rfl
  | succ here ih =>
      obtain ⟨token, found, same⟩ := tokensBefore_cons bound
      rw [search_succ positive found, same, beyondOpening_cons positive]
      split
      next open_ => exact ih (Nat.sub_pos_of_lt open_) (Nat.le_of_succ_le bound)
      next => rw [Option.map_some, tokensBefore_length (Nat.le_of_succ_le bound)]

theorem opensGroupAt_eq (bound : here ≤ tokens.length) :
    opensGroupAt? tokens here = some (opensGroup (tokensBefore tokens here)) := by
  match here with
  | 0 => rfl
  | 1 =>
      obtain ⟨token, _, same⟩ := tokensBefore_cons (show 0 < tokens.length from bound)
      rw [same]
      cases token <;> rfl
  | counter + 2 =>
      obtain ⟨number, atNumber, same⟩ :=
        tokensBefore_cons (show counter + 1 < tokens.length from bound)
      obtain ⟨word, atWord, same'⟩ := tokensBefore_cons (show counter < tokens.length by omega)
      rw [opensGroupAt?, if_pos (Nat.le_add_left _ _), same, same', opensGroup_cons_cons,
        show counter + 2 - 1 = counter + 1 from rfl, show counter + 2 - 2 = counter from rfl,
        atNumber, atWord, Option.bind_some, Option.map_some]
      cases number.isNumber <;> rfl

/-- Behind a closing parenthesis, the guard looks for a group. -/
theorem search_close {close : Nat} (found : tokenAt? tokens close = some (.punct .rightParen))
    (bound : close < tokens.length) :
    ((search? tokens (close + 1) 0).bind fun
      | none => some true
      | some opening => (opensGroupAt? tokens opening).map (!·)) =
        some (!endsInGroup (tokensBefore tokens (close + 1))) := by
  obtain ⟨token, found', same⟩ := tokensBefore_cons bound
  cases found.symm.trans found'
  have first : search? tokens (close + 1) 0 = search? tokens close 1 := by
    rw [search?, found]
    rfl
  rw [first, search_eq Nat.one_pos (Nat.le_of_lt bound), same, endsInGroup, Option.bind_some]
  cases beyond : beyondOpening? 1 (tokensBefore tokens close) with
  | none => rfl
  | some rest =>
      obtain ⟨opening, rfl, before, _⟩ :=
        (beyondOpening_eq_some_iff Nat.one_pos (Nat.le_of_lt bound)).mp beyond
      have inside := Nat.le_of_lt (Nat.lt_trans before bound)
      rw [Option.map_some, tokensBefore_length inside]
      exact congrArg (Option.map _) (opensGroupAt_eq inside)

/-- The guard has an answer for every list of tokens and every index. -/
theorem notAfterGroup?_eq (tokens : List Leaf) (start stop : Nat) :
    notAfterGroup? tokens start = some (notAfterGroup tokens start stop) := by
  rw [notAfterGroup?, notAfterGroup, tokenAt?]
  cases found : tokens[start]? with
  | none => rfl
  | some first =>
      have bound := (List.getElem?_eq_some_iff.mp found).1
      show (if _ then _ else _) = some (!(_ && endsInGroup (tokensBefore tokens start)))
      cases isAggregatorName first.lexeme.token with
      | false => rfl
      | true =>
          cases start with
          | zero => rfl
          | succ close =>
              obtain ⟨last, atClose, same⟩ := tokensBefore_cons (Nat.lt_of_succ_lt bound)
              show ((tokenAt? tokens close).bind fun last => _) = _
              rw [atClose, Option.bind_some, Bool.true_and]
              by_cases closes : last.isMark .rightParen
              · rw [Token.isMark_iff.mp closes] at atClose
                rw [if_pos closes]
                exact search_close atClose (Nat.lt_of_succ_lt bound)
              · rw [if_neg closes, same]
                have none_ : endsInGroup (last :: tokensBefore tokens close) = false := by
                  rw [Bool.eq_false_iff, ne_eq, endsInGroup_cons]
                  rintro ⟨mark, _⟩
                  exact closes (Token.isMark_iff.mpr mark)
                rw [none_]
                rfl

end Checking

end Krl

import Krl.Proofs.Grammar.Derivation

/-!
# Nesting

Some classes of tokens open groups and others close them. When every production
closes what it opens, and nothing else, the end of a group can be found without
knowing a derivation: it is where the groups that have been opened since are closed
again.
-/

namespace Krl

/-- What a token does to the nesting of groups. -/
inductive Turn where
  | opens
  | closes
  | stays
  deriving DecidableEq, Repr

namespace Turn

/-- How many tokens it takes to leave a number of groups, or all tokens if they are
never left. -/
def reach : List Turn → (depth : Nat) → Nat
  | _, 0 => 0
  | [], _ + 1 => 0
  | .opens :: others, depth + 1 => reach others (depth + 2) + 1
  | .closes :: others, depth + 1 => reach others depth + 1
  | .stays :: others, depth + 1 => reach others (depth + 1) + 1

/-- How many groups are open behind a token, given how many are before it. -/
def depthAfter : Turn → Nat → Option Nat
  | .opens, depth => some (depth + 1)
  | .closes, 0 => none
  | .closes, depth + 1 => some depth
  | .stays, depth => some depth

/-- The index behind the token that leaves a number of groups, for one who stands
before the token at an index. -/
def leave (turns : List Turn) (depth here : Nat) : Nat :=
  here + reach (turns.drop here) depth

/-- The index behind a token, or behind the group that the token opens. -/
def skip (turns : List Turn) (here : Nat) : Nat :=
  match turns[here]? with
  | some .opens => leave turns 1 (here + 1)
  | _ => here + 1

variable {turns : List Turn} {here : Nat}

@[simp] theorem leave_zero : leave turns 0 here = here := by
  rw [leave, reach]
  rfl

theorem drop_eq_cons {turn : Turn} (found : turns[here]? = some turn) :
    turns.drop here = turn :: turns.drop (here + 1) := by
  obtain ⟨inside, rfl⟩ := List.getElem?_eq_some_iff.mp found
  exact List.drop_eq_getElem_cons inside

theorem leave_opens (found : turns[here]? = some .opens) (depth : Nat) :
    leave turns (depth + 1) here = leave turns (depth + 2) (here + 1) := by
  rw [leave, drop_eq_cons found, reach, leave]
  omega

theorem leave_closes (found : turns[here]? = some .closes) (depth : Nat) :
    leave turns (depth + 1) here = leave turns depth (here + 1) := by
  rw [leave, drop_eq_cons found, reach, leave]
  omega

theorem leave_stays (found : turns[here]? = some .stays) (depth : Nat) :
    leave turns (depth + 1) here = leave turns (depth + 1) (here + 1) := by
  rw [leave, drop_eq_cons found, reach, leave]
  omega

/-- Taking a token into account does not change where groups are left. -/
theorem leave_after {turn : Turn} (found : turns[here]? = some turn) {before behind : Nat}
    (after : turn.depthAfter before = some behind) (outer : Nat) :
    leave turns (before + outer + 1) here = leave turns (behind + outer + 1) (here + 1) := by
  cases turn with
  | opens =>
      cases after
      rw [leave_opens found, Nat.add_right_comm before 1 outer]
  | closes =>
      cases before with
      | zero => cases after
      | succ depth =>
          cases after
          rw [leave_closes found, Nat.add_right_comm _ 1 outer]
  | stays =>
      cases after
      exact leave_stays found _

theorem skip_opens (found : turns[here]? = some .opens) :
    skip turns here = leave turns 1 (here + 1) := by
  rw [skip, found]

theorem skip_of_ne_opens {turn : Turn} (found : turns[here]? = some turn)
    (other : turn ≠ .opens) : skip turns here = here + 1 := by
  rw [skip, found]
  cases turn with
  | opens => exact absurd rfl other
  | closes => rfl
  | stays => rfl

end Turn

namespace Grammar

variable {N T K : Type}

/-- How many groups are open behind some symbols, given how many are before them.
There is no answer when they close a group that is not open. -/
def depthAfter (turn : T → Turn) : List (Symbol N T) → Nat → Option Nat
  | [], depth => some depth
  | .nonterminal _ :: others, depth => depthAfter turn others depth
  | .terminal expected :: others, depth =>
      ((turn expected).depthAfter depth).bind (depthAfter turn others)

/-- Every production closes the groups that it opens. -/
def IsNested (grammar : Grammar N T K) (turn : T → Turn) : Prop :=
  ∀ production ∈ grammar.productions, depthAfter turn production.rhs 0 = some 0

/-- The turns of classes and of tokens agree. -/
def TurnsAgree (grammar : Grammar N T K) (turn : T → Turn) (turnOf : K → Turn) : Prop :=
  ∀ expected token, grammar.accepts expected token = true → turnOf token = turn expected

section Nested

variable {grammar : Grammar N T K} {tokens : List K} {turn : T → Turn} {turnOf : K → Turn}
  {symbols : List (Symbol N T)} {start stop : Nat} {trees : List Derivation}

theorem turn_of_accepts (agree : grammar.TurnsAgree turn turnOf) {here : Nat} {token : K}
    {expected : T} (found : tokens[here]? = some token)
    (accepted : grammar.accepts expected token = true) :
    (tokens.map turnOf)[here]? = some (turn expected) := by
  rw [List.getElem?_map, found, Option.map_some, agree expected token accepted]

/-- To leave groups from the beginning of a derivation is to leave them from its
end, up to the groups that the symbols open or close. -/
theorem Derives.leave_eq (nested : grammar.IsNested turn)
    (agree : grammar.TurnsAgree turn turnOf)
    (derived : grammar.Derives tokens symbols start stop trees) {before behind : Nat}
    (depths : depthAfter turn symbols before = some behind) (outer : Nat) :
    Turn.leave (tokens.map turnOf) (before + outer + 1) start =
      Turn.leave (tokens.map turnOf) (behind + outer + 1) stop := by
  induction derived generalizing before behind outer with
  | nil =>
      cases depths
      rfl
  | @leaf expected others here stop siblings token found accepted rest ih =>
      have turned := turn_of_accepts agree found accepted
      obtain ⟨depth, after, depths⟩ := Option.bind_eq_some_iff.mp depths
      rw [← ih depths, Turn.leave_after turned after]
  | node listed _ _ _ innerIh restIh =>
      have inner := innerIh (nested _ (List.mem_of_getElem? listed)) (before + outer)
      simp only [Nat.zero_add] at inner
      rw [inner]
      exact restIh depths outer

/-- Groups that the symbols close are left within their derivation. -/
theorem Derives.leave_le (nested : grammar.IsNested turn)
    (agree : grammar.TurnsAgree turn turnOf)
    (derived : grammar.Derives tokens symbols start stop trees) {before behind depth : Nat}
    (depths : depthAfter turn symbols before = some behind) (closed : behind + depth ≤ before) :
    Turn.leave (tokens.map turnOf) depth start ≤ stop := by
  induction derived generalizing before behind depth with
  | nil =>
      cases depths
      obtain rfl : depth = 0 := by omega
      exact Nat.le_of_eq Turn.leave_zero
  | @leaf expected others here stop siblings token found accepted rest ih =>
      have turned := turn_of_accepts agree found accepted
      cases depth with
      | zero =>
          rw [Turn.leave_zero]
          exact Nat.le_trans (Nat.le_succ here) rest.le
      | succ depth =>
          obtain ⟨middle, after, remaining⟩ := Option.bind_eq_some_iff.mp depths
          cases effect : turn expected with
          | opens =>
              rw [effect] at turned after
              cases after
              rw [Turn.leave_opens turned]
              exact ih remaining (by omega)
          | closes =>
              rw [effect] at turned after
              obtain ⟨outer, rfl⟩ : ∃ outer, before = outer + 1 := ⟨before - 1, by omega⟩
              cases after
              rw [Turn.leave_closes turned]
              exact ih remaining (by omega)
          | stays =>
              rw [effect] at turned after
              cases after
              rw [Turn.leave_stays turned]
              exact ih remaining closed
  | node listed _ inner rest _ restIh =>
      cases depth with
      | zero =>
          rw [Turn.leave_zero]
          exact Nat.le_trans inner.le rest.le
      | succ depth =>
          have same := inner.leave_eq nested agree
            (nested _ (List.mem_of_getElem? listed)) depth
          simp only [Nat.zero_add] at same
          rw [same]
          exact restIh depths closed

/-- The group that the first token of a derivation may open ends in the derivation. -/
theorem Derives.skip_le (nested : grammar.IsNested turn)
    (agree : grammar.TurnsAgree turn turnOf)
    (derived : grammar.Derives tokens symbols start stop trees) {before behind : Nat}
    (depths : depthAfter turn symbols before = some behind) (closed : behind ≤ before)
    (nonempty : start < stop) : Turn.skip (tokens.map turnOf) start ≤ stop := by
  induction derived generalizing before behind with
  | nil => omega
  | @leaf expected others here stop siblings token found accepted rest ih =>
      have turned := turn_of_accepts agree found accepted
      obtain ⟨depth, after, depths⟩ := Option.bind_eq_some_iff.mp depths
      by_cases opens : turn expected = .opens
      · rw [opens] at turned after
        cases after
        rw [Turn.skip_opens turned]
        exact rest.leave_le nested agree depths (by omega)
      · rw [Turn.skip_of_ne_opens turned opens]
        exact rest.le
  | node listed _ inner rest innerIh restIh =>
      rcases Nat.lt_or_eq_of_le inner.le with shorter | rfl
      · have within := innerIh (nested _ (List.mem_of_getElem? listed)) (Nat.le_refl 0) shorter
        exact Nat.le_trans within rest.le
      · exact restIh depths closed nonempty

end Nested

end Grammar

end Krl

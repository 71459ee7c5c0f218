/-!
# Precedence climbing

The usual way to give a chain of operands and infix operators its tree. An operator takes all
that is tighter than itself as its right side, and what has been read so far as its left side,
so operators of one precedence group to the left. What phrases of a layered grammar are made of
chains is shown to be the tree that climbing answers.
-/

namespace Krl

/-- Infix operators with their precedences, the loosest first, and what they make of two
sides. -/
structure Infixes (Op Value : Type) where
  precedence : Op → Nat
  join : Value → Op → Value → Value

namespace Infixes

variable {Op Value : Type} (infixes : Infixes Op Value)

/-- Read on from a left side as long as the operators have at least the precedence `level`. What
is left of the chain is not longer than it was. -/
def climbBounded (level : Nat) (left : Value) (chain : List (Op × Value)) :
    { answer : Value × List (Op × Value) // answer.2.length ≤ chain.length } :=
  match chain with
  | [] => ⟨(left, []), Nat.le_refl _⟩
  | (op, operand) :: others =>
      if infixes.precedence op < level then
        ⟨(left, (op, operand) :: others), Nat.le_refl _⟩
      else
        let right := climbBounded (infixes.precedence op + 1) operand others
        let whole := climbBounded level (infixes.join left op right.1.1) right.1.2
        ⟨whole.1, Nat.le_trans whole.2 (Nat.le_trans right.2 (Nat.le_succ _))⟩
termination_by chain.length
decreasing_by
  · exact Nat.lt_succ_self _
  · exact Nat.lt_succ_of_le right.2

/-- The tree that operators of at least the precedence `level` make of a left side and the chain
behind it, and what is left of the chain. -/
def climb (level : Nat) (left : Value) (chain : List (Op × Value)) : Value × List (Op × Value) :=
  (infixes.climbBounded level left chain).1

theorem length_climb_le (level : Nat) (left : Value) (chain : List (Op × Value)) :
    (infixes.climb level left chain).2.length ≤ chain.length :=
  (infixes.climbBounded level left chain).2

@[simp] theorem climb_nil (level : Nat) (left : Value) :
    infixes.climb level left [] = (left, []) := by
  rw [climb, climbBounded]

@[simp] theorem climb_cons (level : Nat) (left value : Value) (op : Op)
    (others : List (Op × Value)) :
    infixes.climb level left ((op, value) :: others) =
      if infixes.precedence op < level then (left, (op, value) :: others)
      else
        let right := infixes.climb (infixes.precedence op + 1) value others
        infixes.climb level (infixes.join left op right.1) right.2 := by
  rw [climb, climbBounded]
  split <;> rfl

/-- The tree of a chain that begins with an operand. -/
def tree (first : Value) (chain : List (Op × Value)) : Value :=
  (infixes.climb 0 first chain).1

/-- Operators and operands stand one after another between two places. -/
inductive Strung (operator : Nat → Op → Prop) (operand : Nat → Nat → Value → Prop) :
    Nat → List (Op × Value) → Nat → Prop where
  | nil {here : Nat} : Strung operator operand here [] here
  | cons {here next last : Nat} {op : Op} {value : Value} {others : List (Op × Value)}
      (sign : operator here op) (side : operand (here + 1) next value)
      (rest : Strung operator operand next others last) :
      Strung operator operand here ((op, value) :: others) last

/-- Phrases have layers, one for each precedence: a phrase of a layer is one of the layer below
as well, and an operator joins a phrase of its own layer with one of the next. Operands belong
to the layer `top`, which no operator reaches. -/
structure Layered (operator : Nat → Op → Prop) (operand : Nat → Nat → Value → Prop)
    (phrase : Nat → Nat → Nat → Value → Prop) (top : Nat) : Prop where
  looser : ∀ {level first last : Nat} {value : Value},
    phrase (level + 1) first last value → phrase level first last value
  joined : ∀ {op : Op} {first middle last : Nat} {left right : Value}, operator middle op →
    phrase (infixes.precedence op) first middle left →
      phrase (infixes.precedence op + 1) (middle + 1) last right →
        phrase (infixes.precedence op) first last (infixes.join left op right)
  tightest : ∀ {first last : Nat} {value : Value}, operand first last value →
    phrase top first last value
  below : ∀ op, infixes.precedence op < top

namespace Layered

variable {infixes} {operator : Nat → Op → Prop} {operand : Nat → Nat → Value → Prop}
  {phrase : Nat → Nat → Nat → Value → Prop} {top : Nat}
  (layered : infixes.Layered operator operand phrase top)

include layered

theorem of_le {level tighter first last : Nat} {value : Value} (le : level ≤ tighter)
    (known : phrase tighter first last value) : phrase level first last value := by
  induction le with
  | refl => exact known
  | step _ ih => exact ih (layered.looser known)

/-- Climbing makes a phrase of the layer that it climbs from, up to an operator that is looser.
The induction is on the length of the chain. -/
theorem exists_climbed {level own first here last : Nat} {left : Value} {chain : List (Op × Value)}
    (strung : Strung operator operand here chain last) (known : phrase own first here left)
    (le : level ≤ own) (next : ∀ item ∈ chain.head?, infixes.precedence item.1 ≤ own) :
    ∃ middle, phrase level first middle (infixes.climb level left chain).1 ∧
      Strung operator operand middle (infixes.climb level left chain).2 last ∧
      ∀ item ∈ (infixes.climb level left chain).2.head?, infixes.precedence item.1 < level := by
  induction size : chain.length using Nat.strongRecOn generalizing level own first here left chain
    with
  | ind size ih =>
  subst size
  cases strung with
  | nil =>
      rw [climb_nil]
      exact ⟨_, layered.of_le le known, .nil, fun _ none_ => nomatch none_⟩
  | @cons _ _ _ op value others sign side rest =>
      rw [climb_cons]
      split
      next looser =>
        refine ⟨_, layered.of_le le known, .cons sign side rest, ?_⟩
        intro item same
        cases same
        exact looser
      next tighter =>
        -- An operand begins at the top, so any operator may follow it.
        obtain ⟨middle, rightSide, behind, outside⟩ :=
          ih others.length (Nat.lt_succ_self _) rest (layered.tightest side) (layered.below op)
            (fun item _ => Nat.le_of_lt (layered.below item.1)) rfl
        have leftSide := layered.of_le (next _ rfl) known
        have shorter := infixes.length_climb_le (infixes.precedence op + 1) value others
        exact ih _ (Nat.lt_succ_of_le shorter) behind (layered.joined sign leftSide rightSide)
          (Nat.le_of_not_lt tighter) (fun item same => Nat.le_of_lt_succ (outside item same)) rfl

/-- A chain is a phrase of the loosest layer, and its value is the tree of the chain. -/
theorem tree {first here last : Nat} {left : Value} {chain : List (Op × Value)}
    (begins : operand first here left) (strung : Strung operator operand here chain last) :
    phrase 0 first last (infixes.tree left chain) := by
  obtain ⟨middle, known, behind, outside⟩ :=
    layered.exists_climbed strung (layered.tightest begins) (Nat.zero_le _)
      fun item _ => Nat.le_of_lt (layered.below item.1)
  cases rest : (infixes.climb 0 left chain).2 with
  | nil =>
      rw [rest] at behind
      cases behind
      exact known
  | cons item others =>
      rw [rest] at outside
      exact absurd (outside item rfl) (Nat.not_lt_zero _)

end Layered

end Infixes

end Krl

import Krl.Proofs.Grammar.Nesting
import Mathlib.Algebra.Group.Nat.Defs

/-!
# What can be seen from a boundary

Tokens are told apart by letters. From a boundary one sees the letter of the next
token and, less exactly, the letter of the token behind it, where a token that opens
a group is followed by the one behind the whole group. A sight is such a pair, and a
mask is a set of sights, kept as the bits of a number. With each nonterminal comes a
mask for the boundaries where its phrases begin. Phrases are looked at up to their
end only: what lies behind this horizon counts as the letter zero, which no token
has, so that one mask serves a phrase in every context.
-/

namespace Krl

/-- How tokens are looked at. -/
structure Optics (T : Type) where
  /-- All letters are below this number. -/
  width : Nat
  /-- Sets of letters that are not told apart in the second place of a sight. -/
  groups : List Nat
  /-- The letters that tokens of a class may have. -/
  letters : T → Nat
  turn : T → Turn

namespace Optics

variable {T : Type} (optics : Optics T)

/-- The sets of letters that share a place in masks. The letter zero stands alone. -/
def blocks : List Nat :=
  1 :: optics.groups

/-- The number of the set that a letter belongs to. -/
def rank (letter : Nat) : Nat :=
  optics.blocks.findIdx fun block => block.testBit letter

/-- The bit of a sight. -/
def code (first second : Nat) : Nat :=
  optics.rank second * optics.width + first

/-- The sights whose first letter is one of some letters and whose second letter
shares a set of the list with one of others. -/
def spreadOver (letters seconds : Nat) : List Nat → Nat
  | [] => 0
  | block :: blocks =>
      match block &&& seconds with
      | 0 => spreadOver letters seconds blocks <<< optics.width
      | _ + 1 => letters ||| spreadOver letters seconds blocks <<< optics.width

/-- The sights whose first letter is one of some letters and whose second letter is
not told apart from one of others. -/
def spread (letters seconds : Nat) : Nat :=
  optics.spreadOver letters seconds optics.blocks

/-- The first letters of the sights in the first blocks of a mask, as many as a power
of two. -/
def firstsIn : (exponent : Nat) → Nat → Nat
  | 0, mask => mask
  | exponent + 1, mask => firstsIn exponent (mask ||| mask >>> (2 ^ exponent * optics.width))

/-- The first letters of the sights of a mask. -/
def firsts (mask : Nat) : Nat :=
  optics.firstsIn (optics.blocks.length.log2 + 1) mask

/-- All letters. -/
def anything : Nat :=
  2 ^ optics.width - 1

/-- All sights. -/
def everywhere : Nat :=
  2 ^ (optics.blocks.length * optics.width) - 1

/-- The sights whose first letter is one of some letters. -/
def sights (letters : Nat) : Nat :=
  optics.spread letters optics.anything

section Bits

variable {optics}

theorem testBit_spreadOver {letters seconds first second : Nat}
    (isFirst : letters.testBit first = true) (isSecond : seconds.testBit second = true)
    {blocks : List Nat} (known : blocks.any (fun block => block.testBit second) = true) :
    (optics.spreadOver letters seconds blocks).testBit
      ((blocks.findIdx fun block => block.testBit second) * optics.width + first) = true := by
  induction blocks with
  | nil => cases known
  | cons block blocks ih =>
      rw [spreadOver, List.findIdx_cons]
      cases member : block.testBit second with
      | true =>
          split
          next none =>
              have bit : (block &&& seconds).testBit second = true := by
                rw [Nat.testBit_and, member, isSecond, Bool.and_self]
              rw [none, Nat.zero_testBit] at bit
              cases bit
          next =>
              rw [cond_true, Nat.zero_mul, Nat.zero_add, Nat.testBit_or, isFirst, Bool.true_or]
      | false =>
          rw [List.any_cons, member, Bool.false_or] at known
          have later : (optics.spreadOver letters seconds blocks <<< optics.width).testBit
              ((blocks.findIdx (fun block => block.testBit second) + 1) * optics.width + first) =
                true := by
            rw [Nat.testBit_shiftLeft, Nat.add_mul, Nat.one_mul, Bool.and_eq_true,
              decide_eq_true_eq]
            refine ⟨by omega, ?_⟩
            rw [← ih known]
            congr 1
            omega
          rw [cond_false]
          split
          · exact later
          · rw [Nat.testBit_or, later, Bool.or_true]

theorem testBit_firstsIn {mask first block exponent : Nat} (inside : block < 2 ^ exponent)
    (member : mask.testBit (block * optics.width + first) = true) :
    (optics.firstsIn exponent mask).testBit first = true := by
  induction exponent generalizing mask block with
  | zero =>
      obtain rfl : block = 0 := by omega
      rw [Nat.zero_mul, Nat.zero_add] at member
      exact member
  | succ exponent ih =>
      rw [firstsIn]
      rw [Nat.pow_succ] at inside
      rcases Nat.lt_or_ge block (2 ^ exponent) with lower | upper
      · apply ih lower
        rw [Nat.testBit_or, member, Bool.true_or]
      · refine @ih _ (block - 2 ^ exponent) (by omega) ?_
        rw [Nat.testBit_or, Nat.testBit_shiftRight, Bool.or_eq_true]
        right
        rw [← member, Nat.sub_mul]
        congr 1
        have := Nat.mul_le_mul_right optics.width upper
        omega

/-- Every letter has its place in masks. -/
def IsRanked (optics : Optics T) : Prop :=
  ∀ letter < optics.width, optics.blocks.any (fun block => block.testBit letter) = true

theorem rank_zero : optics.rank 0 = 0 := by
  rw [rank, blocks, List.findIdx_cons]
  rfl

theorem rank_pos {letter : Nat} (proper : 0 < letter) : 0 < optics.rank letter := by
  have other : Nat.testBit 1 letter = false := by
    rw [Bool.eq_false_iff, Ne, Nat.testBit_one_eq_true_iff_self_eq_zero]
    exact Nat.ne_of_gt proper
  rw [rank, blocks, List.findIdx_cons, other]
  exact Nat.succ_pos _

theorem rank_lt (ranked : optics.IsRanked) {letter : Nat} (bound : letter < optics.width) :
    optics.rank letter < optics.blocks.length := by
  rw [rank, List.findIdx_lt_length]
  exact List.any_eq_true.mp (ranked letter bound)

theorem testBit_spread (ranked : optics.IsRanked) {letters seconds first second : Nat}
    (isFirst : letters.testBit first = true) (isSecond : seconds.testBit second = true)
    (bound : second < optics.width) :
    (optics.spread letters seconds).testBit (optics.code first second) = true :=
  testBit_spreadOver isFirst isSecond (ranked second bound)

theorem testBit_firsts (ranked : optics.IsRanked) {mask first second : Nat}
    (bound : second < optics.width) (member : mask.testBit (optics.code first second) = true) :
    (optics.firsts mask).testBit first = true :=
  testBit_firstsIn (Nat.lt_trans (rank_lt ranked bound) Nat.lt_log2_self) member

theorem testBit_sights (ranked : optics.IsRanked) {letters first second : Nat}
    (isFirst : letters.testBit first = true) (bound : second < optics.width) :
    (optics.sights letters).testBit (optics.code first second) = true := by
  apply testBit_spread ranked isFirst _ bound
  rw [anything, Nat.testBit_two_pow_sub_one, decide_eq_true_eq]
  exact bound

theorem testBit_anything_sub {letters letter : Nat} (bounded : letters < 2 ^ optics.width) :
    (optics.anything - letters).testBit letter =
      (decide (letter < optics.width) && !letters.testBit letter) := by
  rw [anything, Nat.sub_sub, Nat.add_comm 1]
  exact Nat.testBit_two_pow_sub_succ bounded letter

end Bits

end Optics

/-- What is to be seen where phrases begin. -/
structure View (N T : Type) extends Optics T where
  /-- The sights that a phrase may begin with where it is called for. -/
  allowed : N → Nat
  /-- The sights that a phrase may begin with, seen up to its end. -/
  entry : N → Nat

namespace View

variable {N T : Type} (view : View N T)

/-- The letters that some symbols begin with, given those that may follow, and the
letters behind the groups that the symbols close but do not open, the innermost
first. -/
def look (follow : Nat) : List (Symbol N T) → Nat × List Nat
  | [] => (follow, [])
  | .nonterminal name :: others =>
      match look follow others with
      | (letters, outer) =>
          (view.firsts (view.entry name) >>> 1 <<< 1 |||
            (if (view.entry name).testBit 0 then letters else 0), outer)
  | .terminal expected :: others =>
      match view.turn expected, look follow others with
      | .closes, (letters, outer) => (view.letters expected, letters :: outer)
      | .opens, (_, outer) => (view.letters expected, outer.tail)
      | .stays, (_, outer) => (view.letters expected, outer)

/-- The letters that may come second where a token of a class comes first. -/
def seconds (follow : Nat) (expected : T) (others : List (Symbol N T)) : Nat :=
  match view.turn expected, look view follow others with
  | .opens, (_, after :: _) => after
  | .opens, (_, []) => view.anything
  | _, (letters, _) => letters

/-- The mask of a phrase in front of something. Sights past the end of the phrase are
completed with the letters that may follow, and a phrase without tokens lets one
see what follows. -/
def before (entry letters mask : Nat) : Nat :=
  entry >>> view.width <<< view.width |||
    view.spread ((entry % 2 ^ view.width) >>> 1 <<< 1) letters |||
      if entry.testBit 0 then mask else 0

/-- The mask of some symbols in front of something. -/
def mask (tail : Nat) : List (Symbol N T) → Nat
  | [] => tail
  | .nonterminal name :: others =>
      view.before (view.entry name) (view.look (view.firsts tail) others).1 (mask tail others) &&&
        view.allowed name
  | .terminal expected :: others =>
      view.spread (view.letters expected) (view.seconds (view.firsts tail) expected others)

variable {view}

open Optics

/-- A sight within a phrase remains in front of anything. -/
theorem testBit_before_of_within {entry letters mask first second : Nat} (proper : 0 < second)
    (member : entry.testBit (view.code first second) = true) :
    (view.before entry letters mask).testBit (view.code first second) = true := by
  have far : view.width ≤ view.code first second := by
    have positive := Nat.mul_le_mul_right view.width (view.rank_pos proper)
    rw [Nat.succ_mul, Nat.zero_mul, Nat.zero_add] at positive
    rw [code]
    omega
  rw [before, Nat.testBit_or, Nat.testBit_or, Bool.or_eq_true, Bool.or_eq_true]
  left
  left
  rw [Nat.testBit_shiftLeft, Nat.testBit_shiftRight, Bool.and_eq_true, decide_eq_true_eq]
  refine ⟨far, ?_⟩
  rw [← member]
  congr 1
  omega

/-- A sight at the end of a phrase is completed by what follows. -/
theorem testBit_before_of_last (ranked : view.IsRanked) {entry letters mask first second : Nat}
    (proper : 0 < first) (bound : first < view.width) (secondBound : second < view.width)
    (member : entry.testBit (view.code first 0) = true)
    (follows : letters.testBit second = true) :
    (view.before entry letters mask).testBit (view.code first second) = true := by
  rw [before, Nat.testBit_or, Nat.testBit_or, Bool.or_eq_true, Bool.or_eq_true]
  left
  right
  apply testBit_spread ranked _ follows secondBound
  rw [code, rank_zero, Nat.zero_mul, Nat.zero_add] at member
  rw [Nat.testBit_shiftLeft, Nat.testBit_shiftRight, Nat.testBit_mod_two_pow]
  simp only [Bool.and_eq_true, decide_eq_true_eq]
  have same : 1 + (first - 1) = first := by omega
  rw [same]
  exact ⟨proper, bound, member⟩

/-- A phrase without tokens shows what follows. -/
theorem testBit_before_of_empty {entry letters mask sight : Nat}
    (empty : entry.testBit 0 = true) (member : mask.testBit sight = true) :
    (view.before entry letters mask).testBit sight = true := by
  rw [before, if_pos empty, Nat.testBit_or, member, Bool.or_true]

end View

/-- Tokens as they are seen at their places. The letter of a token may depend on the
tokens around it. -/
structure Scene {N T K : Type} (view : View N T) (grammar : Grammar N T K)
    (tokens : List K) where
  letter : Nat → Nat
  turnOf : K → Turn
  turns_agree : grammar.TurnsAgree view.turn turnOf
  letter_pos : ∀ here, 0 < letter here
  letter_lt : ∀ here, letter here < view.width
  letter_of_accepts : ∀ (here : Nat) (token : K) (expected : T), tokens[here]? = some token →
    grammar.accepts expected token = true → (view.letters expected).testBit (letter here) = true

namespace Scene

variable {N T K : Type} {view : View N T} {grammar : Grammar N T K} {tokens : List K}
  (scene : Scene view grammar tokens)

/-- The letter at a place, as far as the horizon. -/
def letterWithin (horizon here : Nat) : Nat :=
  if here < horizon then scene.letter here else 0

/-- The place behind a token or a group. -/
def skip (here : Nat) : Nat :=
  Turn.skip (tokens.map scene.turnOf) here

/-- The sight from a boundary, as far as the horizon. -/
def sight (horizon here : Nat) : Nat :=
  if here < horizon then
    view.code (scene.letter here) (scene.letterWithin horizon (scene.skip here))
  else
    0

/-- The sight from a boundary is one of a mask. -/
def Sees (horizon mask here : Nat) : Prop :=
  mask.testBit (scene.sight horizon here) = true

variable {scene} {horizon here mask : Nat}

theorem letterWithin_lt : scene.letterWithin horizon here < view.width := by
  rw [letterWithin]
  split
  · exact scene.letter_lt here
  · exact Nat.lt_of_le_of_lt (Nat.zero_le _) (scene.letter_lt here)

theorem Sees.left (seen : scene.Sees horizon mask here) (other : Nat) :
    scene.Sees horizon (mask ||| other) here := by
  rw [Sees, Nat.testBit_or, seen, Bool.true_or]

theorem Sees.right (seen : scene.Sees horizon mask here) (other : Nat) :
    scene.Sees horizon (other ||| mask) here := by
  rw [Sees, Nat.testBit_or, seen, Bool.or_true]

theorem Sees.mono {larger : Nat} (seen : scene.Sees horizon mask here)
    (contained : mask ||| larger = larger) : scene.Sees horizon larger here := by
  rw [← contained]
  exact seen.left larger

theorem Sees.and {other : Nat} (seen : scene.Sees horizon mask here)
    (also : scene.Sees horizon other here) : scene.Sees horizon (mask &&& other) here := by
  rw [Sees, Nat.testBit_and, seen, also, Bool.and_self]

theorem not_sees_zero : ¬scene.Sees horizon 0 here := by
  intro seen
  rw [Sees, Nat.zero_testBit] at seen
  cases seen

theorem Sees.firsts (ranked : view.IsRanked) (seen : scene.Sees horizon mask here) :
    (view.firsts mask).testBit (scene.letterWithin horizon here) = true := by
  rw [Sees, sight] at seen
  split at seen
  next near =>
      rw [letterWithin, if_pos near]
      exact Optics.testBit_firsts ranked letterWithin_lt seen
  next far =>
      rw [letterWithin, if_neg far]
      have bound : 0 < view.width := Nat.lt_of_le_of_lt (Nat.zero_le _) (scene.letter_lt here)
      apply Optics.testBit_firsts ranked bound
      rw [Optics.code, Optics.rank_zero, Nat.zero_mul]
      exact seen

theorem sees_everywhere (ranked : view.IsRanked) : scene.Sees horizon view.everywhere here := by
  rw [Sees, Optics.everywhere, Nat.testBit_two_pow_sub_one, decide_eq_true_eq, sight]
  have positive : 0 < view.width := Nat.lt_of_le_of_lt (Nat.zero_le _) (scene.letter_lt here)
  split
  · have bound : scene.letterWithin horizon (scene.skip here) < view.width :=
      scene.letterWithin_lt
    have rank := Optics.rank_lt ranked bound
    have room := Nat.mul_le_mul_right view.width (Nat.succ_le_of_lt rank)
    have letter := scene.letter_lt here
    rw [Nat.succ_mul] at room
    rw [Optics.code]
    omega
  · exact Nat.mul_pos (Nat.succ_pos _) positive

/-- The next letter alone tells whether one sees a sight that begins with it. -/
theorem sees_sights (ranked : view.IsRanked) {letters : Nat}
    (first : letters.testBit (scene.letterWithin horizon here) = true) :
    scene.Sees horizon (view.sights letters) here := by
  rw [Sees, sight]
  split
  next near =>
      rw [letterWithin, if_pos near] at first
      exact Optics.testBit_sights ranked first letterWithin_lt
  next far =>
      rw [letterWithin, if_neg far] at first
      have bit := Optics.testBit_sights ranked first
        (Nat.lt_of_le_of_lt (Nat.zero_le _) (scene.letter_lt here))
      rw [Optics.code, Optics.rank_zero, Nat.zero_mul, Nat.zero_add] at bit
      exact bit

/-- The letter at a place is one of some letters. -/
def Shows (scene : Scene view grammar tokens) (horizon letters here : Nat) : Prop :=
  letters.testBit (scene.letterWithin horizon here) = true

/-- Up to its end, a phrase is seen to begin with one of its letters. -/
theorem Sees.shows (ranked : view.IsRanked) {entry letters stop : Nat}
    (seen : scene.Sees stop entry here) (start_le : here ≤ stop) (within : stop ≤ horizon)
    (follows : scene.Shows horizon letters stop) :
    scene.Shows horizon
      (view.firsts entry >>> 1 <<< 1 ||| (if entry.testBit 0 then letters else 0)) here := by
  rw [Shows, Nat.testBit_or, Bool.or_eq_true]
  rcases Nat.lt_or_eq_of_le start_le with nonempty | rfl
  · left
    have near : here < horizon := Nat.lt_of_lt_of_le nonempty within
    have first := seen.firsts ranked
    have proper := scene.letter_pos here
    rw [letterWithin, if_pos nonempty] at first
    rw [letterWithin, if_pos near, Nat.testBit_shiftLeft, Nat.testBit_shiftRight,
      Bool.and_eq_true, decide_eq_true_eq]
    refine ⟨proper, ?_⟩
    rw [← first]
    congr 1
    omega
  · right
    rw [Sees, sight, if_neg (Nat.lt_irrefl here)] at seen
    rw [if_pos seen]
    exact follows

/-- One sees the mask of a phrase and what follows it. -/
theorem Sees.before (ranked : view.IsRanked) {entry letters stop : Nat}
    (seen : scene.Sees stop entry here) (start_le : here ≤ stop) (within : stop ≤ horizon)
    (skips : here < stop → scene.skip here ≤ stop) (next : scene.Shows horizon letters stop)
    (follows : scene.Sees horizon mask stop) :
    scene.Sees horizon (view.before entry letters mask) here := by
  rcases Nat.lt_or_eq_of_le start_le with nonempty | rfl
  · have near : here < horizon := Nat.lt_of_lt_of_le nonempty within
    rw [Sees, sight, if_pos nonempty] at seen
    rw [Sees, sight, if_pos near]
    rcases Nat.lt_or_eq_of_le (skips nonempty) with inside | atEnd
    · -- The second letter lies within the phrase.
      have farther : scene.skip here < horizon := Nat.lt_of_lt_of_le inside within
      rw [letterWithin, if_pos inside] at seen
      rw [letterWithin, if_pos farther]
      exact View.testBit_before_of_within (scene.letter_pos _) seen
    · rw [atEnd, letterWithin, if_neg (Nat.lt_irrefl stop)] at seen
      rw [atEnd]
      exact View.testBit_before_of_last ranked (scene.letter_pos here) (scene.letter_lt here)
        letterWithin_lt seen next
  · rw [Sees, sight, if_neg (Nat.lt_irrefl here)] at seen
    exact View.testBit_before_of_empty seen follows

end Scene

namespace Grammar

variable {N T K : Type} {view : View N T} {grammar : Grammar N T K} {tokens : List K}

/-- Some symbols are what is left of a production at an index. -/
def Remains (grammar : Grammar N T K) (tokens : List K) (symbols : List (Symbol N T))
    (here : Nat) : Prop :=
  ∃ production ∈ grammar.productions, ∃ dot origin, production.rhs.drop dot = symbols ∧
    ∃ before, grammar.Derives tokens (production.rhs.take dot) origin here before

theorem remains_rhs (tokens : List K) {production : Production N T K}
    (listed : production ∈ grammar.productions) (here : Nat) :
    grammar.Remains tokens production.rhs here :=
  ⟨production, listed, 0, here, rfl, [], .nil⟩

theorem Remains.next {symbol : Symbol N T} {others : List (Symbol N T)} {here stop : Nat}
    {trees : List Derivation} (remains : grammar.Remains tokens (symbol :: others) here)
    (derived : grammar.Derives tokens [symbol] here stop trees) :
    grammar.Remains tokens others stop := by
  obtain ⟨production, listed, dot, origin, behind, before⟩ := remains
  obtain ⟨atDot, rfl⟩ := of_drop_eq_cons behind
  exact ⟨production, listed, dot + 1, origin, rfl, derives_take_succ atDot before derived⟩

/-- The masks of nonterminals cover what their productions begin with. -/
structure Covered (view : View N T) (grammar : Grammar N T K) : Prop where
  ranked : view.IsRanked
  nested : grammar.IsNested view.turn
  entries : ∀ production ∈ grammar.productions,
    view.mask 1 production.rhs ||| view.entry production.lhs = view.entry production.lhs

/-- Where a production calls for a phrase, the phrase begins with what is allowed. -/
def Heeded (scene : Scene view grammar tokens) : Prop :=
  ∀ (name : N) (others : List (Symbol N T)) (here stop horizon : Nat) (tree : Derivation),
    grammar.Remains tokens (.nonterminal name :: others) here →
      grammar.IsDerivation tokens name here stop tree → stop ≤ horizon →
        scene.Sees horizon (view.allowed name) here

/-- The letters of some symbols are shown where a derivation of them begins, and the
other letters behind the groups that the symbols close but do not open. -/
def LooksRight (scene : Scene view grammar tokens) (symbols : List (Symbol N T))
    (start stop : Nat) : Prop :=
  ∀ horizon follow, stop ≤ horizon → scene.Shows horizon follow stop →
    scene.Shows horizon (view.look follow symbols).1 start ∧
      ∀ depth outer, (view.look follow symbols).2[depth]? = some outer →
        scene.Shows horizon outer (Turn.leave (tokens.map scene.turnOf) (depth + 1) start)

/-- A token of a class, with the letters that may follow it. -/
theorem LooksRight.leaf {scene : Scene view grammar tokens} {others : List (Symbol N T)}
    {here stop : Nat} {expected : T} {token : K} (found : tokens[here]? = some token)
    (accepted : grammar.accepts expected token = true) (near : here < stop)
    (rest : LooksRight scene others (here + 1) stop) :
    LooksRight scene (.terminal expected :: others) here stop := by
  intro horizon follow within follows
  obtain ⟨behind, outside⟩ := rest horizon follow within follows
  have turned := turn_of_accepts scene.turns_agree found accepted
  have letter : scene.Shows horizon (view.letters expected) here := by
    rw [Scene.Shows, Scene.letterWithin, if_pos (Nat.lt_of_lt_of_le near within)]
    exact scene.letter_of_accepts here token expected found accepted
  rw [View.look]
  rcases same : view.look follow others with ⟨letters, groups⟩
  rw [same] at behind outside
  cases effect : view.turn expected with
  | stays =>
      rw [effect] at turned
      refine ⟨letter, fun depth outer found => ?_⟩
      rw [Turn.leave_stays turned]
      exact outside depth outer found
  | closes =>
      rw [effect] at turned
      refine ⟨letter, fun depth outer found => ?_⟩
      rw [Turn.leave_closes turned]
      cases depth with
      | zero =>
          cases found
          rw [Turn.leave_zero]
          exact behind
      | succ depth => exact outside depth outer found
  | opens =>
      rw [effect] at turned
      refine ⟨letter, fun depth outer found => ?_⟩
      rw [Turn.leave_opens turned]
      apply outside (depth + 1) outer
      rw [← found, List.getElem?_tail]

/-- Behind a token of a class, or behind the group that it opens, comes one of the
letters that may come second. -/
theorem LooksRight.seconds {scene : Scene view grammar tokens} {others : List (Symbol N T)}
    {here stop horizon follow : Nat} {expected : T} {token : K}
    (found : tokens[here]? = some token) (accepted : grammar.accepts expected token = true)
    (rest : LooksRight scene others (here + 1) stop) (within : stop ≤ horizon)
    (follows : scene.Shows horizon follow stop) :
    scene.Shows horizon (view.seconds follow expected others) (scene.skip here) := by
  obtain ⟨behind, outside⟩ := rest horizon follow within follows
  have turned := turn_of_accepts scene.turns_agree found accepted
  rw [View.seconds]
  rcases same : view.look follow others with ⟨letters, groups⟩
  rw [same] at behind outside
  cases effect : view.turn expected with
  | stays =>
      rw [effect] at turned
      rw [Scene.skip, Turn.skip_of_ne_opens turned (by simp)]
      exact behind
  | closes =>
      rw [effect] at turned
      rw [Scene.skip, Turn.skip_of_ne_opens turned (by simp)]
      exact behind
  | opens =>
      rw [effect] at turned
      rw [Scene.skip, Turn.skip_opens turned]
      cases groups with
      | nil =>
          show view.anything.testBit _ = true
          rw [Optics.anything, Nat.testBit_two_pow_sub_one, decide_eq_true_eq]
          exact Scene.letterWithin_lt
      | cons inner groups => exact outside 0 inner rfl

/-- Where a derivation begins, one sees the mask of its symbols in front of whatever
follows it, and its letters are right. -/
theorem Derives.looks_sees (covered : grammar.Covered view) {scene : Scene view grammar tokens}
    (heeded : Heeded scene) {symbols : List (Symbol N T)} {start stop : Nat}
    {trees : List Derivation} (derived : grammar.Derives tokens symbols start stop trees)
    (remains : grammar.Remains tokens symbols start) :
    LooksRight scene symbols start stop ∧
      ∀ horizon tail, stop ≤ horizon → scene.Sees horizon tail stop →
        scene.Sees horizon (view.mask tail symbols) start := by
  induction derived with
  | nil =>
      refine ⟨fun horizon follow _ follows => ⟨follows, ?_⟩, fun _ _ _ seen => seen⟩
      intro depth outer found
      cases found
  | @leaf expected others here stop siblings token found accepted rest ih =>
      obtain ⟨looks, _⟩ := ih (remains.next (.leaf found accepted .nil))
      have near : here < stop := rest.le
      refine ⟨looks.leaf found accepted near, ?_⟩
      intro horizon tail within seen
      have second := looks.seconds found accepted within (seen.firsts covered.ranked)
      rw [Scene.Sees, Scene.sight, if_pos (Nat.lt_of_lt_of_le near within), View.mask]
      exact Optics.testBit_spread covered.ranked
        (scene.letter_of_accepts here token expected found accepted) second
        Scene.letterWithin_lt
  | @node index production others start middle stop children siblings listed admitted inner rest
      innerIh restIh =>
      have member := List.mem_of_getElem? listed
      have tree := Derives.node listed admitted inner .nil
      obtain ⟨looks, sees⟩ := restIh (remains.next tree)
      -- Up to its own end, the phrase shows what its production begins with.
      have unseen : scene.Sees middle 1 middle := by
        rw [Scene.Sees, Scene.sight, if_neg (Nat.lt_irrefl middle)]
        rfl
      have phrase := ((innerIh (remains_rhs tokens member start)).2 middle 1 (Nat.le_refl middle)
        unseen).mono (covered.entries production member)
      have skips := inner.skip_le covered.nested scene.turns_agree (covered.nested _ member)
        (Nat.le_refl 0)
      constructor
      · intro horizon follow within follows
        obtain ⟨behind, outside⟩ := looks horizon follow within follows
        have inside : middle ≤ horizon := Nat.le_trans rest.le within
        refine ⟨phrase.shows covered.ranked inner.le inside behind, ?_⟩
        intro depth outer found
        have same := inner.leave_eq covered.nested scene.turns_agree (covered.nested _ member)
          depth
        rw [Nat.zero_add] at same
        rw [same]
        exact outside depth outer found
      · intro horizon tail within seen
        have inside : middle ≤ horizon := Nat.le_trans rest.le within
        have allowed := heeded _ _ _ _ horizon _ remains tree inside
        have behind := (looks horizon _ within (seen.firsts covered.ranked)).1
        exact (phrase.before covered.ranked inner.le inside skips behind
          (sees horizon tail within seen)).and allowed

theorem Derives.sees (covered : grammar.Covered view) {scene : Scene view grammar tokens}
    (heeded : Heeded scene) {symbols : List (Symbol N T)} {start stop : Nat}
    {trees : List Derivation} (derived : grammar.Derives tokens symbols start stop trees)
    (remains : grammar.Remains tokens symbols start) {horizon tail : Nat}
    (within : stop ≤ horizon) (seen : scene.Sees horizon tail stop) :
    scene.Sees horizon (view.mask tail symbols) start :=
  (derived.looks_sees covered heeded remains).2 horizon tail within seen

end Grammar

end Krl

import Krl.Proofs.Diagnostic.Excerpts

/-!
# Excerpts computed with words

The bounds of an excerpt are line numbers and sums of these, and its lines are slices between such
bounds. On words all of this goes well, except that the last line asked for may be numbered past the
largest word. Then there is no excerpt, whether the sum is refused or wraps around: wrapped around,
it lies before the line that it should lie behind.
-/

namespace Krl

/-- What becomes of a sum or a difference that is no word: it is refused, or it wraps around. -/
inductive WordArithmetic where
  | refusing
  | wrapping

namespace WordArithmetic

def sum? : WordArithmetic → (left right : Nat) → Option Nat
  | refusing, left, right => if left + right < wordLimit then some (left + right) else none
  | wrapping, left, right => some ((left + right) % wordLimit)

def difference? : WordArithmetic → (left right : Nat) → Option Nat
  | refusing, left, right => if right ≤ left then some (left - right) else none
  | wrapping, left, right => some ((left + wordLimit - right) % wordLimit)

variable {arithmetic : WordArithmetic} {left right : Nat}

theorem sum?_of_lt (small : left + right < wordLimit) :
    arithmetic.sum? left right = some (left + right) := by
  cases arithmetic with
  | refusing => rw [sum?, if_pos small]
  | wrapping => rw [sum?, Nat.mod_eq_of_lt small]

theorem difference?_of_le (ordered : right ≤ left) (small : left < wordLimit) :
    arithmetic.difference? left right = some (left - right) := by
  cases arithmetic with
  | refusing => rw [difference?, if_pos ordered]
  | wrapping =>
      rw [difference?, Nat.sub_add_comm ordered, Nat.add_mod_right,
        Nat.mod_eq_of_lt (Nat.lt_of_le_of_lt (Nat.sub_le _ _) small)]

/-- A sum that is too large is less than its parts, if there is one at all. -/
theorem lt_of_sum? {sum : Nat} (large : wordLimit ≤ left + right) (word : left < wordLimit)
    (word' : right < wordLimit) (added : arithmetic.sum? left right = some sum) : sum < left := by
  cases arithmetic with
  | refusing =>
      rw [sum?, if_neg (Nat.not_lt.mpr large)] at added
      cases added
  | wrapping =>
      cases added
      rw [Nat.mod_eq_sub_mod large, Nat.mod_eq_of_lt (by omega)]
      omega

end WordArithmetic

theorem Text.length_le_byteLength (chars : List Char) : chars.length ≤ byteLength chars := by
  induction chars with
  | nil => exact Nat.le_refl 0
  | cons first others ih =>
      have := first.utf8Size_pos
      rw [List.length_cons, byteLength_cons]
      omega

namespace Excerpt

/-- The items from one index to another, both included. There is no slice that reaches past the end,
and none that ends before its beginning by more than one. -/
def slice? {Item : Type} (items : List Item) (first last : Nat) : Option (List Item) :=
  if first ≤ last + 1 ∧ last < items.length then
    some ((items.drop first).take (last + 1 - first))
  else
    none

/-- The excerpt, where each step that adds, subtracts, or slices may go wrong. The number of lines
shown is computed to set memory aside. -/
def onWords? (arithmetic : WordArithmetic) (source : String) (line column context : Nat) :
    Option String := do
  let lines := sourceLines source
  let target := min (line - 1) (lines.length - 1)
  let first := target - context
  let reach ← arithmetic.sum? target context
  let last := min reach (lines.length - 1)
  let others ← arithmetic.difference? last first
  let _size ← arithmetic.sum? others 2
  let above ← slice? lines first target
  let next ← arithmetic.sum? target 1
  let below ← slice? lines next last
  return String.ofList (Text.unlines (above ++ caret column :: below))

/-- All numbers that are added up stay words, and all bounds are in order. -/
structure InBounds (count line context : Nat) : Prop where
  reach_lt : (window count line context).target + context < wordLimit
  next_lt : (window count line context).target + 1 < wordLimit
  size_lt : (window count line context).last - (window count line context).first + 2 < wordLimit
  first_le : (window count line context).first ≤ (window count line context).target
  target_le : (window count line context).target ≤ (window count line context).last
  last_lt : (window count line context).last < count

variable {source : String} {context : Nat}

/-- A source has at most one line more than it has bytes. -/
theorem length_sourceLines_le (source : String) :
    (sourceLines source).length ≤ Text.byteLength source.toList + 1 := by
  rw [sourceLines, List.length_map, Text.length_lines]
  exact Nat.succ_le_succ (Nat.le_trans List.count_le_length (Text.length_le_byteLength _))

theorem targetLine_eq (source : String) (line : Nat) :
    targetLine (sourceLines source).length line = min (line - 1) (source.toList.count '\n') := by
  rw [targetLine, sourceLines, List.length_map, Text.length_lines, Nat.add_sub_cancel]

theorem inBounds_iff (short : Text.byteLength source.toList < wordLimit / 2) (line : Nat) :
    InBounds (sourceLines source).length line context ↔
      reach (sourceLines source).length line context < wordLimit := by
  constructor
  · exact InBounds.reach_lt
  · intro small
    have few := length_sourceLines_le source
    obtain ⟨first, last, inside⟩ := window_ordered (sourceLines_pos source) line context
    have limit : wordLimit = 18446744073709551616 := rfl
    exact ⟨small, by omega, by omega, first, last, inside⟩

theorem slice?_of_le {Item : Type} {items : List Item} {first last : Nat}
    (ordered : first ≤ last + 1) (inside : last < items.length) :
    slice? items first last = some ((items.drop first).take (last + 1 - first)) :=
  if_pos ⟨ordered, inside⟩

/-- If all numbers are words, each step goes well. -/
theorem onWords?_of_lt (short : Text.byteLength source.toList < wordLimit / 2)
    (arithmetic : WordArithmetic) {line : Nat}
    (small : reach (sourceLines source).length line context < wordLimit) (column : Nat) :
    onWords? arithmetic source line column context = some (excerpt source line column context) := by
  obtain ⟨reachLt, nextLt, sizeLt, first, last, inside⟩ := (inBounds_iff short line).mpr small
  have lastLt : (window (sourceLines source).length line context).last < wordLimit :=
    Nat.lt_of_le_of_lt (Nat.min_le_left _ _) small
  have above := slice?_of_le (Nat.le_succ_of_le first) (Nat.lt_of_le_of_lt last inside)
  have below := slice?_of_le (Nat.add_le_add_right last 1) inside
  rw [Nat.add_sub_add_right] at below
  simp only [window, reach, targetLine] at reachLt nextLt sizeLt first last lastLt above below
  simp only [onWords?, Option.bind_eq_bind]
  rw [WordArithmetic.sum?_of_lt reachLt, Option.bind_some,
    WordArithmetic.difference?_of_le (Nat.le_trans first last) lastLt, Option.bind_some,
    WordArithmetic.sum?_of_lt sizeLt, Option.bind_some, above, Option.bind_some,
    WordArithmetic.sum?_of_lt nextLt, Option.bind_some, below]
  rfl

/-- If the last line asked for has no word for its number, there is no slice up to it. -/
theorem onWords?_of_le (short : Text.byteLength source.toList < wordLimit / 2)
    (word : context < wordLimit) (arithmetic : WordArithmetic) {line : Nat}
    (large : wordLimit ≤ reach (sourceLines source).length line context) (column : Nat) :
    onWords? arithmetic source line column context = none := by
  have few := length_sourceLines_le source
  have some_ := sourceLines_pos source
  have limit : wordLimit = 18446744073709551616 := rfl
  simp only [reach, targetLine] at large
  simp only [onWords?, Option.bind_eq_bind, Option.bind_eq_none_iff]
  intro reach added others _ size _ above _ next counted
  have before := WordArithmetic.lt_of_sum? large (by omega) word added
  rw [WordArithmetic.sum?_of_lt (by omega)] at counted
  cases counted
  intro below sliced
  rw [slice?, if_neg (by omega)] at sliced
  cases sliced

end Excerpt

/-- On words, an excerpt stays in bounds just if the number of its last line is a word: that of the
line asked for, but at most that of the last line of the source, with the context added. Just then
there is an excerpt, whatever becomes of a sum that is too large. A source in memory takes less than
half as many bytes as there are words. -/
theorem excerpt?_inBounds_iff {source : String}
    (short : Text.byteLength source.toList < wordLimit / 2) {context : Nat}
    (word : context < wordLimit) (arithmetic : WordArithmetic) (line column : Nat) :
    (Excerpt.InBounds (Excerpt.sourceLines source).length line context ↔
      min (line - 1) (source.toList.count '\n') + context < wordLimit) ∧
    ((∃ text, Excerpt.onWords? arithmetic source line column context = some text) ↔
      min (line - 1) (source.toList.count '\n') + context < wordLimit) ∧
    Excerpt.onWords? arithmetic source line column context =
      excerpt? source line column context := by
  rw [← Excerpt.targetLine_eq source line, ← Excerpt.reach, excerpt?]
  refine ⟨Excerpt.inBounds_iff short line, ?_⟩
  split
  next small =>
    rw [Excerpt.onWords?_of_lt short arithmetic small column]
    exact ⟨⟨fun _ => small, fun _ => ⟨_, rfl⟩⟩, rfl⟩
  next large =>
    rw [Excerpt.onWords?_of_le short word arithmetic (Nat.not_lt.mp large) column]
    refine ⟨⟨?_, fun small => absurd small large⟩, rfl⟩
    rintro ⟨text, absent⟩
    cases absent

/-- The largest context that there is room for on the second line, and an excerpt with it. -/
theorem excerpt?_inBounds_secondLine :
    Text.byteLength "a\nb".toList < wordLimit / 2 ∧ 18446744073709551614 < wordLimit ∧
      min (2 - 1) ("a\nb".toList.count '\n') + 18446744073709551614 < wordLimit ∧
      Excerpt.InBounds (Excerpt.sourceLines "a\nb").length 2 18446744073709551614 ∧
      Excerpt.onWords? .refusing "a\nb" 2 1 18446744073709551614 = some "a\nb\n^" := by
  have short : Text.byteLength "a\nb".toList < wordLimit / 2 := by decide
  have word : 18446744073709551614 < wordLimit := by decide
  have small : min (2 - 1) ("a\nb".toList.count '\n') + 18446744073709551614 < wordLimit := by decide
  obtain ⟨inBounds, _, same⟩ := excerpt?_inBounds_iff short word .refusing 2 1
  refine ⟨short, word, small, inBounds.mpr small, ?_⟩
  rw [same]
  decide +kernel

/-- One line more than that is too much, whatever becomes of the sum. -/
theorem excerpt?_outOfBounds :
    ¬Excerpt.InBounds (Excerpt.sourceLines "a\nb").length 2 18446744073709551615 ∧
      Excerpt.onWords? .refusing "a\nb" 2 1 18446744073709551615 = none ∧
      Excerpt.onWords? .wrapping "a\nb" 2 1 18446744073709551615 = none ∧
      excerpt? "a\nb" 2 1 18446744073709551615 = none := by
  refine ⟨fun inBounds => absurd inBounds.reach_lt (by decide), ?_, ?_, ?_⟩ <;> decide +kernel

end Krl

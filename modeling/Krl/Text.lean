/-!
# Text as characters and as bytes

Scanning works on the characters of a text, while every reported position is a
byte offset into its UTF-8 form. This module holds the passage between the two,
the class of blank characters with the trims built on it, and the split of a
text into lines.
-/

namespace Krl.Text

/-- Number of bytes the characters take in UTF-8. -/
def byteLength : List Char → Nat
  | [] => 0
  | char :: rest => char.utf8Size + byteLength rest

@[simp] theorem byteLength_nil : byteLength [] = 0 := rfl

@[simp] theorem byteLength_cons (char : Char) (rest : List Char) :
    byteLength (char :: rest) = char.utf8Size + byteLength rest := rfl

@[simp] theorem byteLength_append (left right : List Char) :
    byteLength (left ++ right) = byteLength left + byteLength right := by
  induction left with
  | nil => simp
  | cons char rest ih => simp [ih, Nat.add_assoc]

/-- The characters in the first `count` bytes, or nothing when the text is
shorter or the cut falls inside a character. -/
def takeBytes? : Nat → List Char → Option (List Char)
  | 0, _ => some []
  | _ + 1, [] => none
  | count + 1, char :: rest =>
      if char.utf8Size ≤ count + 1 then
        (takeBytes? (count + 1 - char.utf8Size) rest).map (char :: ·)
      else
        none

/-- The characters after the first `count` bytes, or nothing when the text is
shorter or the cut falls inside a character. -/
def dropBytes? : Nat → List Char → Option (List Char)
  | 0, chars => some chars
  | _ + 1, [] => none
  | count + 1, char :: rest =>
      if char.utf8Size ≤ count + 1 then
        dropBytes? (count + 1 - char.utf8Size) rest
      else
        none

/-- A cut that succeeds leaves nothing out: both halves make up the text. -/
theorem takeBytes?_append_dropBytes? {count : Nat} {chars taken left : List Char}
    (isTaken : takeBytes? count chars = some taken)
    (isLeft : dropBytes? count chars = some left) : taken ++ left = chars := by
  fun_induction takeBytes? count chars generalizing taken left with
  | case1 chars =>
      simp only [dropBytes?, Option.some.injEq] at isTaken isLeft
      subst isTaken isLeft
      rfl
  | case2 => simp at isTaken
  | case3 count char rest fits ih =>
      obtain ⟨tail, isTail, rfl⟩ := Option.map_eq_some_iff.mp isTaken
      rw [dropBytes?, if_pos fits] at isLeft
      simp [ih isTail isLeft]
  | case4 => simp at isTaken

/-- The characters with the Unicode property White_Space. -/
def isBlank (char : Char) : Bool :=
  let code := char.toNat
  (0x09 ≤ code && code ≤ 0x0D) || code == 0x20 || code == 0x85 || code == 0xA0 ||
    code == 0x1680 || (0x2000 ≤ code && code ≤ 0x200A) || code == 0x2028 ||
    code == 0x2029 || code == 0x202F || code == 0x205F || code == 0x3000

/-- The text without its leading blanks. -/
def trimStart (chars : List Char) : List Char :=
  chars.dropWhile isBlank

/-- The text without the longest ending whose characters all satisfy `drop`. -/
def dropEndWhile (drop : Char → Bool) (chars : List Char) : List Char :=
  (chars.reverse.dropWhile drop).reverse

/-- The text without its trailing blanks. -/
def trimEnd (chars : List Char) : List Char :=
  dropEndWhile isBlank chars

/-- The text without blanks at either end. -/
def trim (chars : List Char) : List Char :=
  trimEnd (trimStart chars)

/-- The text after `start`, if it begins with it. -/
def after? : (start chars : List Char) → Option (List Char)
  | [], chars => some chars
  | _ :: _, [] => none
  | expected :: start, char :: rest => if expected = char then after? start rest else none

theorem append_of_after?_eq_some {start chars rest : List Char}
    (found : after? start chars = some rest) : start ++ rest = chars := by
  fun_induction after? start chars with
  | case1 => simpa using found.symm
  | case2 => simp at found
  | case3 expected start rest ih => rw [List.cons_append, ih found]
  | case4 => simp at found

/-- The pieces of the text between newlines; a text has one line more than it
has newlines. -/
def lines : List Char → List (List Char)
  | [] => [[]]
  | char :: rest =>
      if char = '\n' then
        [] :: lines rest
      else
        match lines rest with
        | [] => [[char]]
        | line :: others => (char :: line) :: others

/-- The number of lines exceeds the number of newlines by one. -/
theorem length_lines (chars : List Char) :
    (lines chars).length = chars.count '\n' + 1 := by
  induction chars with
  | nil => rfl
  | cons char rest ih =>
      by_cases newline : char = '\n'
      · simp [lines, newline, ih]
      · have other : (char == '\n') = false := by simp [newline]
        rw [lines, if_neg newline, List.count_cons, other]
        cases split : lines rest with
        | nil => simp [split] at ih
        | cons line others => simpa [split] using ih

/-- The lines joined by newlines, the inverse of `lines`. -/
def unlines (parts : List (List Char)) : List Char :=
  ['\n'].intercalate parts

end Krl.Text

import Krl.Text

/-!
# Messages for readers

A raw message may carry labels in front, annotations that repeat a position, and
final punctuation. None of these is shown.
-/

namespace Krl.Message

/-- The label that a message may start with, with its first letter in either
case. -/
def label (initial : Char) : List Char :=
  [initial, 'r', 'r', 'o', 'r', ':']

theorem length_trimStart_lt_of_label {initial : Char} {chars rest : List Char}
    (found : Text.after? (label initial) chars = some rest) :
    (Text.trimStart rest).length < chars.length := by
  have whole := congrArg List.length (Text.append_of_after?_eq_some found)
  have trimmed := (List.dropWhile_sublist Text.isBlank (l := rest)).length_le
  simp only [List.length_append, label, List.length_cons] at whole
  rw [Text.trimStart]
  omega

/-- The message without the labels in front of it and the blanks after each. -/
def dropLabels (initial : Char) (chars : List Char) : List Char :=
  match found : Text.after? (label initial) chars with
  | some rest =>
      have := length_trimStart_lt_of_label found
      dropLabels initial (Text.trimStart rest)
  | none => chars
termination_by chars.length

/-- The text before and after the first place where a mark stands. -/
def splitAtFirst? (mark : List Char) : List Char → Option (List Char × List Char)
  | [] => none
  | char :: rest =>
      match Text.after? mark (char :: rest) with
      | some tail => some ([], tail)
      | none => (splitAtFirst? mark rest).map fun (before, tail) => (char :: before, tail)

/-- The text after the last place where a character stands. -/
def afterLast? (mark : Char) : List Char → Option (List Char)
  | [] => none
  | char :: rest =>
      match afterLast? mark rest with
      | some tail => some tail
      | none => if char = mark then some rest else none

/-- The message without its annotations, which `(@` opens. An annotation may
quote a parenthesis, so the first one runs up to the last parenthesis of the
message; one after that is not closed and runs to the end. -/
def dropAnnotations (chars : List Char) : List Char :=
  match splitAtFirst? ['(', '@'] chars with
  | none => chars
  | some (before, annotation) =>
      match afterLast? ')' annotation with
      | none => before
      | some rest =>
          match splitAtFirst? ['(', '@'] rest with
          | none => before ++ rest
          | some (between, _) => before ++ between

/-- Whether the character is punctuation that ends a sentence. -/
def endsSentence (char : Char) : Bool :=
  char == '.' || char == '!'

/-- The message without labels, annotations, final punctuation, and outer blanks. -/
def clean (raw : String) : String :=
  let unlabelled := dropLabels 'e' (dropLabels 'E' (Text.trim raw.toList))
  let plain := Text.trim (dropAnnotations unlabelled)
  String.ofList (Text.trimEnd (Text.dropEndWhile endsSentence plain))

end Krl.Message

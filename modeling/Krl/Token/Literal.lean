import Krl.Token.Pattern

/-!
# Literals with escapes

The rest of a comment, a string, a regular expression, or a run of template text
after its opening delimiter. Each reader returns what the text denotes together
with the number of characters it takes, closing delimiter included.
-/

namespace Krl.Token.Literal

/-- Length of the rest of a block comment: comments do not nest. -/
def comment? : List Char → Option Nat
  | [] => none
  | '*' :: '/' :: _ => some 2
  | _ :: rest => (comment? rest).map (· + 1)

/-- The rest of a string, up to an unescaped quote. Only a quote and a backslash
can be escaped; before any other character a backslash stands for itself. -/
def string? : List Char → Option (List Char × Nat)
  | [] => none
  | '"' :: _ => some ([], 1)
  | '\\' :: escaped :: rest =>
      (string? rest).map fun (value, length) =>
        if escaped = '"' ∨ escaped = '\\' then (escaped :: value, length + 2)
        else ('\\' :: escaped :: value, length + 2)
  | char :: rest => (string? rest).map fun (value, length) => (char :: value, length + 1)

/-- The rest of a regular expression, up to an unescaped `#`. Only `#` can be
escaped; any other backslash belongs to the expression, along with the character
after it. -/
def regexp? : List Char → Option (List Char × Nat)
  | [] => none
  | '#' :: _ => some ([], 1)
  | '\\' :: escaped :: rest =>
      (regexp? rest).map fun (pattern, length) =>
        if escaped = '#' then ('#' :: pattern, length + 2)
        else ('\\' :: escaped :: pattern, length + 2)
  | char :: rest => (regexp? rest).map fun (pattern, length) => (char :: pattern, length + 1)

/-- The text of a template up to `>>`, to `#{`, or to the end of the source. A
backslash can escape `#{`, `>`, `<`, and itself, and stands for itself elsewhere. -/
def template : List Char → List Char × Nat
  | [] => ([], 0)
  | '>' :: '>' :: _ => ([], 0)
  | '#' :: '{' :: _ => ([], 0)
  | '\\' :: '#' :: '{' :: rest =>
      let (value, length) := template rest
      ('#' :: '{' :: value, length + 3)
  | '\\' :: '>' :: rest =>
      let (value, length) := template rest
      ('>' :: value, length + 2)
  | '\\' :: '<' :: rest =>
      let (value, length) := template rest
      ('<' :: value, length + 2)
  | '\\' :: '\\' :: rest =>
      let (value, length) := template rest
      ('\\' :: value, length + 2)
  | char :: rest =>
      let (value, length) := template rest
      (char :: value, length + 1)

/-- The double that the digits of a number literal denote, with or without a
point. -/
def number (chars : List Char) : Binary64 :=
  let whole := chars.takeWhile isDigit
  let fraction := (chars.dropWhile isDigit).drop 1
  .ofDecimal (digitsValue (whole ++ fraction)) (-(fraction.length : Int))
where
  /-- The number that decimal digits write. -/
  digitsValue (digits : List Char) : Nat :=
    digits.foldl (fun value digit => 10 * value + (digit.toNat - '0'.toNat)) 0

end Krl.Token.Literal

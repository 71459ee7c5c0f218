import Krl.Token

/-!
# Token patterns

Each kind of token has a pattern for the text that writes it, or for the text
that opens it when the rest follows rules of its own. The longest text that
matches any pattern decides which token comes next.
-/

namespace Krl.Token

/-- Spaces, tabs, line ends, and form feeds. -/
def isSpace (char : Char) : Bool :=
  char == ' ' || char == '\t' || char == '\r' || char == '\n' || char == '\x0c'

/-- The decimal digits. -/
def isDigit (char : Char) : Bool :=
  '0' ≤ char && char ≤ '9'

/-- The letters of the Latin alphabet, without accents. -/
def isLetter (char : Char) : Bool :=
  ('a' ≤ char && char ≤ 'z') || ('A' ≤ char && char ≤ 'Z')

/-- The characters that begin a word. -/
def isWordStart (char : Char) : Bool :=
  isLetter char || char == '_' || char == '$'

/-- The characters that continue a word. -/
def isWordPart (char : Char) : Bool :=
  isWordStart char || isDigit char

/-- The tokens that a pattern matches in full. Numbers have two patterns, as they
can begin with a digit or with the point of a fraction. -/
inductive PlainToken where
  | spaces | lineComment | number | fraction | word | domainWord | punct (mark : Punct)
  deriving DecidableEq, Repr

/-- The tokens of which a pattern matches only the opening delimiter. What follows
has rules of its own. -/
inductive OpenedToken where
  | blockComment | string | regexp | chevron
  deriving DecidableEq, Repr

/-- What can begin at a place in the source. -/
inductive Pattern where
  | plain (token : PlainToken)
  | opened (token : OpenedToken)
  deriving DecidableEq, Repr

namespace Pattern

/-- Every pattern. -/
def all : List Pattern :=
  [plain .spaces, plain .lineComment, plain .number, plain .fraction, plain .word,
    plain .domainWord, opened .blockComment, opened .string, opened .regexp,
    opened .chevron] ++ Punct.all.map fun mark => plain (.punct mark)

theorem mem_all (pattern : Pattern) : pattern ∈ all := by
  cases pattern with
  | plain token =>
      cases token with
      | punct mark => simp [all, Punct.mem_all]
      | _ => simp [all]
  | opened token => cases token <;> simp [all]

/-- Length of the longest beginning whose characters all satisfy `accept`. -/
def run (accept : Char → Bool) (chars : List Char) : Nat :=
  (chars.takeWhile accept).length

/-- Length of the word at the beginning of the text. -/
def wordLength : List Char → Nat
  | [] => 0
  | char :: rest => if isWordStart char then 1 + run isWordPart rest else 0

/-- Length of `.` and the digits after it, or zero unless there are some. -/
def fractionLength : List Char → Nat
  | '.' :: rest => if run isDigit rest = 0 then 0 else 1 + run isDigit rest
  | _ => 0

/-- Length of the longest beginning of the text that matches the pattern, in
characters; zero when none does, since no pattern matches the empty text. -/
def extent (pattern : Pattern) (chars : List Char) : Nat :=
  match pattern with
  | plain .spaces => run isSpace chars
  | plain .lineComment => opening ['/', '/'] fun rest => run (· != '\n') rest
  | plain .number =>
      let whole := run isDigit chars
      if whole = 0 then 0 else whole + fractionLength (chars.drop whole)
  | plain .fraction => fractionLength chars
  | plain .word => wordLength chars
  | plain .domainWord =>
      let domain := wordLength chars
      match chars.drop domain with
      | ':' :: rest =>
          if domain = 0 ∨ wordLength rest = 0 then 0 else domain + 1 + wordLength rest
      | _ => 0
  | plain (.punct mark) => opening mark.chars fun _ => 0
  | opened .blockComment => opening ['/', '*'] fun _ => 0
  | opened .string => opening ['"'] fun _ => 0
  | opened .regexp => opening ['r', 'e', '#'] fun _ => 0
  | opened .chevron => opening ['<', '<'] fun _ => 0
where
  /-- Length of a fixed beginning and of what `more` adds to it. -/
  opening (start : List Char) (more : List Char → Nat) : Nat :=
    match Text.after? start chars with
    | some rest => start.length + more rest
    | none => 0

theorem run_le (accept : Char → Bool) (chars : List Char) : run accept chars ≤ chars.length :=
  (List.takeWhile_sublist accept).length_le

theorem wordLength_le (chars : List Char) : wordLength chars ≤ chars.length := by
  cases chars with
  | nil => simp [wordLength]
  | cons char rest =>
      have := run_le isWordPart rest
      simp only [wordLength, List.length_cons]
      split <;> omega

theorem fractionLength_le (chars : List Char) : fractionLength chars ≤ chars.length := by
  fun_cases fractionLength chars with
  | case1 => simp
  | case2 rest =>
      have := run_le isDigit rest
      simp only [List.length_cons]
      omega
  | case3 => simp

theorem extent_opening_le {chars : List Char} (start : List Char) {more : List Char → Nat}
    (within : ∀ rest, more rest ≤ rest.length) :
    extent.opening chars start more ≤ chars.length := by
  unfold extent.opening
  split
  next rest found =>
    rw [← Text.append_of_after?_eq_some found, List.length_append]
    exact Nat.add_le_add_left (within rest) _
  next => exact Nat.zero_le _

/-- A match never reaches past the text. -/
theorem extent_le (pattern : Pattern) (chars : List Char) :
    pattern.extent chars ≤ chars.length := by
  match pattern with
  | plain .spaces => exact run_le _ _
  | plain .lineComment => exact extent_opening_le _ fun rest => run_le _ rest
  | plain .number =>
      have whole := run_le isDigit chars
      have fraction := fractionLength_le (chars.drop (run isDigit chars))
      rw [List.length_drop] at fraction
      simp only [extent]
      split <;> omega
  | plain .fraction => exact fractionLength_le chars
  | plain .word => exact wordLength_le chars
  | plain .domainWord =>
      simp only [extent]
      split
      next rest remaining =>
        have length := congrArg List.length remaining
        have name := wordLength_le rest
        simp only [List.length_drop, List.length_cons] at length
        split <;> omega
      next => exact Nat.zero_le _
  | plain (.punct _) | opened .blockComment | opened .string | opened .regexp
  | opened .chevron =>
      exact extent_opening_le _ fun _ => Nat.zero_le _

/-- The pattern with the longest match, and the length of that match. -/
def longest? (chars : List Char) : Option (Pattern × Nat) :=
  all.foldl
    (fun best pattern =>
      let length := pattern.extent chars
      if (best.elim 0 Prod.snd) < length then some (pattern, length) else best)
    none

/-- The longest match is not empty and lies within the text. -/
theorem longest?_bounds {chars : List Char} {pattern : Pattern} {length : Nat}
    (found : longest? chars = some (pattern, length)) : 0 < length ∧ length ≤ chars.length := by
  let Bounded (best : Option (Pattern × Nat)) : Prop :=
    ∀ pattern length, best = some (pattern, length) → 0 < length ∧ length ≤ chars.length
  suffices every : ∀ (patterns : List Pattern) best, Bounded best →
      Bounded (patterns.foldl
        (fun best pattern =>
          let length := pattern.extent chars
          if (best.elim 0 Prod.snd) < length then some (pattern, length) else best)
        best) from
    every all none (by simp [Bounded]) pattern length found
  intro patterns
  induction patterns with
  | nil => exact fun _ bounded => bounded
  | cons candidate others ih =>
      intro best bounded
      refine ih _ ?_
      intro pattern length chosen
      simp only at chosen
      split at chosen
      next longer =>
        simp only [Option.some.injEq, Prod.mk.injEq] at chosen
        obtain ⟨rfl, rfl⟩ := chosen
        exact ⟨Nat.zero_lt_of_lt longer, extent_le candidate chars⟩
      next => exact bounded pattern length chosen

end Pattern

end Krl.Token

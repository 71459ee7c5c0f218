import Krl.Proofs.Token.Locality
import Mathlib.Data.List.TakeWhile

/-!
# Patterns as regular expressions

Every pattern is a regular expression. The length that the tokenizer counts for it is that of the
longest beginning of a text that the expression matches. No two patterns match the same text, so
the longest match of all belongs to one of them.
-/

namespace Krl.Token

/-- Regular expressions over classes of characters. -/
inductive Regex where
  /-- One character that is accepted. -/
  | one (accept : Char → Bool)
  /-- Just these characters. -/
  | text (chars : List Char)
  /-- What the inner expression matches, or nothing. -/
  | optional (inner : Regex)
  /-- What the inner expression matches, any number of times. -/
  | many (inner : Regex)
  /-- What the one expression matches, and behind it what the other one does. -/
  | join (first second : Regex)

namespace Regex

/-- What the inner expression matches, once or more often. -/
def repeated (inner : Regex) : Regex :=
  .join inner (.many inner)

/-- The expression matches the text in full. -/
inductive Matches : Regex → List Char → Prop where
  | one {accept : Char → Bool} {char : Char} (accepted : accept char = true) :
      Matches (.one accept) [char]
  | text {chars : List Char} : Matches (.text chars) chars
  | absent {inner : Regex} : Matches (.optional inner) []
  | present {inner : Regex} {chars : List Char} (matched : Matches inner chars) :
      Matches (.optional inner) chars
  | none {inner : Regex} : Matches (.many inner) []
  | more {inner : Regex} {chars others : List Char} (first : Matches inner chars)
      (rest : Matches (.many inner) others) : Matches (.many inner) (chars ++ others)
  | join {first second : Regex} {chars others : List Char} (left : Matches first chars)
      (right : Matches second others) : Matches (.join first second) (chars ++ others)

variable {accept : Char → Bool} {inner first second : Regex} {word : List Char}

theorem matches_text_iff {chars : List Char} : (text chars).Matches word ↔ word = chars := by
  constructor
  · intro matched
    cases matched
    rfl
  · rintro rfl
    exact .text

theorem matches_optional_iff : (optional inner).Matches word ↔ word = [] ∨ inner.Matches word := by
  constructor
  · intro matched
    cases matched with
    | absent => exact .inl rfl
    | present matched => exact .inr matched
  · rintro (rfl | matched)
    · exact .absent
    · exact .present matched

theorem matches_join_iff : (join first second).Matches word ↔
    ∃ chars others, first.Matches chars ∧ second.Matches others ∧ word = chars ++ others := by
  constructor
  · intro matched
    cases matched with
    | join left right => exact ⟨_, _, left, right, rfl⟩
  · rintro ⟨chars, others, left, right, rfl⟩
    exact .join left right

theorem matches_one_iff :
    (one accept).Matches word ↔ ∃ char, accept char = true ∧ word = [char] := by
  constructor
  · intro matched
    cases matched with
    | one accepted => exact ⟨_, accepted, rfl⟩
  · rintro ⟨char, accepted, rfl⟩
    exact .one accepted

theorem matches_many_one_iff :
    (many (.one accept)).Matches word ↔ ∀ char ∈ word, accept char = true := by
  constructor
  · generalize same : many (.one accept) = regex
    intro matched
    induction matched with
    | none => exact List.forall_mem_nil _
    | more first _ _ ih =>
        cases same
        obtain ⟨char, accepted, rfl⟩ := matches_one_iff.mp first
        exact List.forall_mem_cons.mpr ⟨accepted, ih rfl⟩
    | _ => cases same
  · intro accepted
    induction word with
    | nil => exact .none
    | cons char others ih =>
        obtain ⟨first, rest⟩ := List.forall_mem_cons.mp accepted
        exact .more (.one first) (ih rest)

theorem matches_repeated_one_iff : (repeated (.one accept)).Matches word ↔
    ∃ char others, accept char = true ∧ (∀ char ∈ others, accept char = true) ∧
      word = char :: others := by
  rw [repeated, matches_join_iff]
  constructor
  · rintro ⟨chars, others, first, rest, rfl⟩
    obtain ⟨char, accepted, rfl⟩ := matches_one_iff.mp first
    exact ⟨char, others, accepted, matches_many_one_iff.mp rest, rfl⟩
  · rintro ⟨char, others, accepted, rest, rfl⟩
    exact ⟨[char], others, .one accepted, matches_many_one_iff.mpr rest, rfl⟩

/-- The point and the digits of a fraction. -/
def fraction : Regex :=
  .join (.text ['.']) (.repeated (.one isDigit))

/-- A name or a keyword. -/
def name : Regex :=
  .join (.one isWordStart) (.many (.one isWordPart))

theorem matches_fraction_iff {chars : List Char} : fraction.Matches chars ↔
    ∃ digits, digits ≠ [] ∧ (∀ char ∈ digits, isDigit char = true) ∧ chars = '.' :: digits := by
  rw [fraction, matches_join_iff]
  constructor
  · rintro ⟨point, digits, left, right, rfl⟩
    obtain rfl := matches_text_iff.mp left
    obtain ⟨char, others, accepted, rest, rfl⟩ := matches_repeated_one_iff.mp right
    exact ⟨_, List.cons_ne_nil _ _, List.forall_mem_cons.mpr ⟨accepted, rest⟩, rfl⟩
  · rintro ⟨digits, nonempty, accepted, rfl⟩
    obtain ⟨char, others, rfl⟩ := List.exists_cons_of_ne_nil nonempty
    obtain ⟨first, rest⟩ := List.forall_mem_cons.mp accepted
    exact ⟨['.'], _, .text, matches_repeated_one_iff.mpr ⟨char, others, first, rest, rfl⟩, rfl⟩

theorem matches_name_iff {chars : List Char} : name.Matches chars ↔
    ∃ char others, isWordStart char = true ∧ (∀ char ∈ others, isWordPart char = true) ∧
      chars = char :: others := by
  rw [name, matches_join_iff]
  constructor
  · rintro ⟨chars, others, first, rest, rfl⟩
    obtain ⟨char, accepted, rfl⟩ := matches_one_iff.mp first
    exact ⟨char, others, accepted, matches_many_one_iff.mp rest, rfl⟩
  · rintro ⟨char, others, accepted, rest, rfl⟩
    exact ⟨[char], others, .one accepted, matches_many_one_iff.mpr rest, rfl⟩

end Regex

namespace Pattern

/-- The expression that a token is, or that its opening delimiter is. -/
def regex : Pattern → Regex
  | plain .spaces => .repeated (.one isSpace)
  | plain .lineComment => .join (.text ['/', '/']) (.many (.one (· != '\n')))
  | plain .number => .join (.repeated (.one isDigit)) (.optional .fraction)
  | plain .fraction => .fraction
  | plain .word => .name
  | plain .domainWord => .join .name (.join (.text [':']) .name)
  | plain (.punct mark) => .text mark.chars
  | opened .blockComment => .text ['/', '*']
  | opened .string => .text ['"']
  | opened .regexp => .text ['r', 'e', '#']
  | opened .chevron => .text ['<', '<']

/-- The length is that of the longest beginning of the text that the expression matches, or zero
if there is none. -/
structure Measures (regex : Regex) (text : List Char) (length : Nat) : Prop where
  matched : 0 < length → regex.Matches (text.take length)
  longest : ∀ {word : List Char}, word <+: text → regex.Matches word → word.length ≤ length

section Measures

variable {text : List Char}

theorem run_eq_length {accept : Char → Bool} {inside behind : List Char}
    (accepted : ∀ char ∈ inside, accept char = true)
    (ends : ∀ char ∈ behind.head?, accept char = false) :
    run accept (inside ++ behind) = inside.length := by
  have outside : behind.takeWhile accept = [] := by
    cases behind with
    | nil => rfl
    | cons char others => rw [List.takeWhile_cons, ends char rfl, if_neg Bool.false_ne_true]
  rw [run, List.takeWhile_append_of_pos accepted, outside, List.append_nil]

theorem le_run {accept : Char → Bool} {word : List Char} (begins : word <+: text)
    (accepted : ∀ char ∈ word, accept char = true) : word.length ≤ run accept text := by
  obtain ⟨behind, rfl⟩ := begins
  rw [run, List.takeWhile_append_of_pos accepted, List.length_append]
  exact Nat.le_add_right _ _

theorem measures_spaces : Measures (plain .spaces).regex text ((plain .spaces).extent text) := by
  refine ⟨fun positive => ?_, fun begins matched => ?_⟩
  · rw [extent, take_run]
    obtain ⟨char, others, same⟩ := List.exists_cons_of_length_pos positive
    have accepted : ∀ char ∈ text.takeWhile isSpace, isSpace char = true :=
      fun char member => List.mem_takeWhile_imp member
    rw [same] at accepted ⊢
    obtain ⟨first, rest⟩ := List.forall_mem_cons.mp accepted
    exact Regex.matches_repeated_one_iff.mpr ⟨char, others, first, rest, rfl⟩
  · obtain ⟨char, others, first, rest, rfl⟩ := Regex.matches_repeated_one_iff.mp matched
    exact le_run begins (List.forall_mem_cons.mpr ⟨first, rest⟩)

/-- A name is measured by the characters that begin and continue words. -/
theorem measures_name : Measures .name text (wordLength text) := by
  refine ⟨?_, fun begins matched => ?_⟩
  · fun_cases wordLength text with
    | case1 => exact fun positive => absurd positive (Nat.lt_irrefl 0)
    | case2 char others starts =>
        intro _
        rw [Nat.add_comm, List.take_succ_cons, take_run]
        exact Regex.matches_name_iff.mpr
          ⟨char, _, starts, fun char member => List.mem_takeWhile_imp member, rfl⟩
    | case3 => exact fun positive => absurd positive (Nat.lt_irrefl 0)
  · obtain ⟨char, others, starts, accepted, rfl⟩ := Regex.matches_name_iff.mp matched
    obtain ⟨behind, rfl⟩ := begins
    have := le_run (List.prefix_append others behind) accepted
    rw [List.cons_append, wordLength, if_pos starts, List.length_cons]
    omega

theorem measures_fraction : Measures .fraction text (fractionLength text) := by
  refine ⟨?_, fun begins matched => ?_⟩
  · fun_cases fractionLength text with
    | case1 => exact fun positive => absurd positive (Nat.lt_irrefl 0)
    | case2 rest some_ =>
        intro _
        rw [Nat.add_comm, List.take_succ_cons, take_run]
        refine Regex.matches_fraction_iff.mpr
          ⟨_, ?_, fun char member => List.mem_takeWhile_imp member, rfl⟩
        exact List.ne_nil_of_length_pos (Nat.pos_of_ne_zero some_)
    | case3 => exact fun positive => absurd positive (Nat.lt_irrefl 0)
  · obtain ⟨digits, nonempty, accepted, rfl⟩ := Regex.matches_fraction_iff.mp matched
    obtain ⟨behind, rfl⟩ := begins
    have := le_run (List.prefix_append digits behind) accepted
    have := List.length_pos_iff.mpr nonempty
    rw [List.cons_append, fractionLength, if_neg (by omega), List.length_cons]
    omega

theorem measures_number : Measures (plain .number).regex text ((plain .number).extent text) := by
  refine ⟨fun positive => ?_, fun begins matched => ?_⟩
  · simp only [extent] at positive ⊢
    split
    next none_ =>
      rw [if_pos none_] at positive
      cases positive
    next some_ =>
      rw [List.take_add]
      refine .join ?_ (Regex.matches_optional_iff.mpr ?_)
      · have accepted : ∀ char ∈ text.takeWhile isDigit, isDigit char = true :=
          fun char member => List.mem_takeWhile_imp member
        rw [take_run]
        obtain ⟨char, others, same⟩ := List.exists_cons_of_length_pos (Nat.pos_of_ne_zero some_)
        rw [same] at accepted ⊢
        obtain ⟨first, rest⟩ := List.forall_mem_cons.mp accepted
        exact Regex.matches_repeated_one_iff.mpr ⟨char, others, first, rest, rfl⟩
      · by_cases whole : fractionLength (text.drop (run isDigit text)) = 0
        · rw [whole]
          exact .inl List.take_zero
        · exact .inr (measures_fraction.matched (Nat.pos_of_ne_zero whole))
  · obtain ⟨digits, places, left, right, rfl⟩ := Regex.matches_join_iff.mp matched
    obtain ⟨char, others, first, rest, rfl⟩ := Regex.matches_repeated_one_iff.mp left
    have accepted : ∀ digit ∈ char :: others, isDigit digit = true :=
      List.forall_mem_cons.mpr ⟨first, rest⟩
    have whole := le_run ((List.prefix_append _ places).trans begins) accepted
    have some_ : run isDigit text ≠ 0 := by
      rw [List.length_cons] at whole
      omega
    simp only [extent, if_neg some_]
    rcases Regex.matches_optional_iff.mp right with rfl | fraction
    · rw [List.append_nil]
      exact Nat.le_add_right_of_le whole
    · -- The point ends the run of digits, so the fraction is looked for where it stands.
      obtain ⟨decimals, _, _, rfl⟩ := Regex.matches_fraction_iff.mp fraction
      obtain ⟨behind, rfl⟩ := begins
      have exact_ : run isDigit (char :: others ++ '.' :: decimals ++ behind) =
          (char :: others).length := by
        rw [List.append_assoc]
        exact run_eq_length accepted (by simp [isDigit])
      have further := measures_fraction.longest (List.prefix_append _ behind) fraction
      rw [exact_, List.append_assoc, List.drop_left, List.length_append]
      exact Nat.add_le_add_left further _

theorem measures_domainWord :
    Measures (plain .domainWord).regex text ((plain .domainWord).extent text) := by
  rw [extent_domainWord]
  refine ⟨?_, fun begins matched => ?_⟩
  · generalize behind : text.drop (wordLength text) = rest
    fun_cases qualifiedLength (wordLength text) rest with
    | case1 => exact fun positive => absurd positive (Nat.lt_irrefl 0)
    | case2 rest nonempty =>
        intro _
        rw [not_or] at nonempty
        rw [Nat.add_assoc, List.take_add, behind, Nat.add_comm 1, List.take_succ_cons]
        exact .join (measures_name.matched (Nat.pos_of_ne_zero nonempty.1))
          (.join .text (measures_name.matched (Nat.pos_of_ne_zero nonempty.2)))
    | case3 => exact fun positive => absurd positive (Nat.lt_irrefl 0)
  · obtain ⟨domain, _, left, right, rfl⟩ := Regex.matches_join_iff.mp matched
    obtain ⟨_, name, colon, named, rfl⟩ := Regex.matches_join_iff.mp right
    obtain rfl := Regex.matches_text_iff.mp colon
    obtain ⟨char, others, starts, accepted, rfl⟩ := Regex.matches_name_iff.mp left
    obtain ⟨behind, rfl⟩ := begins
    -- The colon ends the word before it, so the name is looked for where it stands.
    have exact_ : wordLength (char :: others ++ ([':'] ++ name) ++ behind) =
        (char :: others).length := by
      rw [List.append_assoc, List.cons_append, wordLength, if_pos starts,
        run_eq_length accepted (by simp [isWordPart, isWordStart, isLetter, isDigit]),
        List.length_cons, Nat.add_comm]
    have further := measures_name.longest (List.prefix_append name behind) named
    have nonempty : wordLength (name ++ behind) ≠ 0 := by
      obtain ⟨_, _, _, _, rfl⟩ := Regex.matches_name_iff.mp named
      rw [List.length_cons] at further
      omega
    have counted : qualifiedLength (char :: others).length (':' :: (name ++ behind)) =
        (char :: others).length + 1 + wordLength (name ++ behind) := by
      rw [qualifiedLength, if_neg (by simp [nonempty])]
    rw [exact_, List.append_assoc, List.drop_left, List.append_assoc]
    refine Nat.le_trans ?_ (Nat.le_of_eq counted.symm)
    simp only [List.length_append, List.length_cons, List.length_nil]
    omega

theorem after?_eq_some_iff {start rest : List Char} :
    Text.after? start text = some rest ↔ text = start ++ rest := by
  refine ⟨fun found => (Text.append_of_after?_eq_some found).symm, ?_⟩
  rintro rfl
  induction start with
  | nil => rfl
  | cons expected start ih => rw [List.cons_append, Text.after?, if_pos rfl, ih]

theorem measures_fixed {start : List Char} (nonempty : start ≠ []) :
    Measures (.text start) text (extent.opening text start fun _ => 0) := by
  rw [extent.opening]
  refine ⟨fun positive => ?_, fun begins matched => ?_⟩
  · split
    next rest found =>
      rw [after?_eq_some_iff.mp found, Nat.add_zero, List.take_left]
      exact .text
    next missing =>
      rw [missing] at positive
      cases positive
  · obtain rfl := Regex.matches_text_iff.mp matched
    obtain ⟨behind, rfl⟩ := begins
    rw [after?_eq_some_iff.mpr rfl]
    exact Nat.le_refl _

theorem measures_lineComment :
    Measures (plain .lineComment).regex text ((plain .lineComment).extent text) := by
  rw [extent, extent.opening]
  refine ⟨fun positive => ?_, fun begins matched => ?_⟩
  · split
    next rest found =>
      rw [after?_eq_some_iff.mp found, List.take_length_add_append, take_run]
      exact .join .text (Regex.matches_many_one_iff.mpr
        fun char member => @List.mem_takeWhile_imp _ (· != '\n') rest char member)
    next missing =>
      rw [missing] at positive
      cases positive
  · obtain ⟨slashes, comment, left, right, rfl⟩ := Regex.matches_join_iff.mp matched
    obtain rfl := Regex.matches_text_iff.mp left
    obtain ⟨behind, rfl⟩ := begins
    have further := le_run (List.prefix_append comment behind) (Regex.matches_many_one_iff.mp right)
    rw [List.append_assoc, after?_eq_some_iff.mpr rfl, List.length_append]
    exact Nat.add_le_add_left further _

/-- The extent of a pattern is the length of the longest beginning of the text that it
matches. -/
theorem measures_extent : (pattern : Pattern) → Measures pattern.regex text (pattern.extent text)
  | plain .spaces => measures_spaces
  | plain .lineComment => measures_lineComment
  | plain .number => measures_number
  | plain .fraction => measures_fraction
  | plain .word => measures_name
  | plain .domainWord => measures_domainWord
  | plain (.punct mark) => measures_fixed mark.chars_ne_nil
  | opened .blockComment | opened .string | opened .regexp | opened .chevron =>
      measures_fixed (List.cons_ne_nil _ _)

end Measures

section Sorts

/-- The patterns that are fixed texts. -/
def fixedTexts : List (Pattern × List Char) :=
  [(opened .blockComment, ['/', '*']), (opened .string, ['"']), (opened .chevron, ['<', '<'])] ++
    Punct.all.map fun mark => (plain (.punct mark), mark.chars)

/-- The only pattern that can match the text in full, told by its first characters and by the
marks behind them. -/
def ofText? : List Char → Option Pattern
  | [] => none
  | first :: others =>
      if isSpace first then some (plain .spaces)
      else if isDigit first then some (plain .number)
      else if isWordStart first then
        if '#' ∈ others then some (opened .regexp)
        else if ':' ∈ others then some (plain .domainWord)
        else some (plain .word)
      else if first = '.' ∧ others ≠ [] then some (plain .fraction)
      else if first = '/' ∧ others.head? = some '/' then some (plain .lineComment)
      else (fixedTexts.find? fun entry => entry.2 == first :: others).map Prod.fst

theorem isSpace_of_isDigit {char : Char} (digit : isDigit char = true) : isSpace char = false := by
  refine Bool.eq_false_iff.mpr fun space => ?_
  rcases eq_of_isSpace space with rfl | rfl | rfl | rfl | rfl <;> cases digit

theorem isSpace_of_isWordStart {char : Char} (starts : isWordStart char = true) :
    isSpace char = false := by
  refine Bool.eq_false_iff.mpr fun space => ?_
  rcases eq_of_isSpace space with rfl | rfl | rfl | rfl | rfl <;> cases starts

theorem isDigit_of_isWordStart {char : Char} (starts : isWordStart char = true) :
    isDigit char = false := by
  simp only [isWordStart, isLetter, Bool.or_eq_true, Bool.and_eq_true, decide_eq_true_eq,
    beq_iff_eq] at starts
  refine Bool.eq_false_iff.mpr fun digit => ?_
  rw [isDigit, Bool.and_eq_true, decide_eq_true_eq, decide_eq_true_eq] at digit
  rcases starts with ((⟨low, _⟩ | ⟨low, _⟩) | rfl) | rfl
  · exact absurd (Char.le_trans low digit.2) (by decide)
  · exact absurd (Char.le_trans low digit.2) (by decide)
  · exact absurd digit.2 (by decide)
  · exact absurd digit.1 (by decide)

theorem isWordPart_of_isWordStart {char : Char} (starts : isWordStart char = true) :
    isWordPart char = true := by
  rw [isWordPart, starts, Bool.true_or]

theorem not_mem_of_isWordPart {mark : Char} {others : List Char}
    (accepted : ∀ char ∈ others, isWordPart char = true) (other : isWordPart mark = false) :
    mark ∉ others :=
  fun member => Bool.false_ne_true (other.symm.trans (accepted mark member))

theorem ofText?_name {first : Char} {others : List Char} (starts : isWordStart first = true) :
    ofText? (first :: others) =
      if '#' ∈ others then some (opened .regexp)
      else if ':' ∈ others then some (plain .domainWord)
      else some (plain .word) := by
  rw [ofText?, isSpace_of_isWordStart starts, isDigit_of_isWordStart starts, starts]
  rfl

/-- A pattern is told by any text that it matches. -/
theorem ofText?_of_matches {word : List Char} : (pattern : Pattern) → pattern.regex.Matches word →
    ofText? word = some pattern
  | plain .spaces, matched => by
      obtain ⟨char, others, first, _, rfl⟩ := Regex.matches_repeated_one_iff.mp matched
      rw [ofText?, if_pos first]
  | plain .lineComment, matched => by
      obtain ⟨slashes, comment, left, _, rfl⟩ := Regex.matches_join_iff.mp matched
      obtain rfl := Regex.matches_text_iff.mp left
      rfl
  | plain .number, matched => by
      obtain ⟨digits, places, left, _, rfl⟩ := Regex.matches_join_iff.mp matched
      obtain ⟨char, others, first, _, rfl⟩ := Regex.matches_repeated_one_iff.mp left
      rw [List.cons_append, ofText?, isSpace_of_isDigit first, if_neg Bool.false_ne_true,
        if_pos first]
  | plain .fraction, matched => by
      obtain ⟨digits, nonempty, _, rfl⟩ := Regex.matches_fraction_iff.mp matched
      obtain ⟨char, others, rfl⟩ := List.exists_cons_of_ne_nil nonempty
      rfl
  | plain .word, matched => by
      obtain ⟨char, others, starts, accepted, rfl⟩ := Regex.matches_name_iff.mp matched
      rw [ofText?_name starts, if_neg (not_mem_of_isWordPart accepted rfl),
        if_neg (not_mem_of_isWordPart accepted rfl)]
  | plain .domainWord, matched => by
      obtain ⟨domain, _, left, right, rfl⟩ := Regex.matches_join_iff.mp matched
      obtain ⟨_, name, colon, named, rfl⟩ := Regex.matches_join_iff.mp right
      obtain rfl := Regex.matches_text_iff.mp colon
      obtain ⟨char, others, starts, accepted, rfl⟩ := Regex.matches_name_iff.mp left
      obtain ⟨char', others', starts', accepted', rfl⟩ := Regex.matches_name_iff.mp named
      have noHash : '#' ∉ others ++ ([':'] ++ char' :: others') := by
        have inDomain : '#' ∉ others := not_mem_of_isWordPart accepted rfl
        have inName : '#' ∉ char' :: others' := not_mem_of_isWordPart
          (List.forall_mem_cons.mpr ⟨isWordPart_of_isWordStart starts', accepted'⟩) rfl
        rw [List.mem_append, List.singleton_append, List.mem_cons]
        simp [inDomain, inName]
      rw [List.cons_append, ofText?_name starts, if_neg noHash, if_pos (by simp)]
  | plain (.punct mark), matched => by
      obtain rfl := Regex.matches_text_iff.mp matched
      cases mark <;> rfl
  | opened token, matched => by
      cases token <;>
        · obtain rfl := Regex.matches_text_iff.mp matched
          rfl

/-- No two patterns match the same text. -/
theorem eq_of_matches {word : List Char} {left right : Pattern}
    (matched : left.regex.Matches word) (matched' : right.regex.Matches word) : left = right :=
  Option.some.inj ((ofText?_of_matches left matched).symm.trans (ofText?_of_matches right matched'))

theorem ne_nil_of_matches {pattern : Pattern} {word : List Char}
    (matched : pattern.regex.Matches word) : word ≠ [] := by
  rintro rfl
  cases ofText?_of_matches pattern matched

end Sorts

/-- The pattern matches a beginning of the text, and no pattern matches more of it. -/
structure Longest (text : List Char) (pattern : Pattern) (word : List Char) : Prop where
  begins : word <+: text
  matched : pattern.regex.Matches word
  longest : ∀ (other : Pattern) (further : List Char), further <+: text →
    other.regex.Matches further → further.length ≤ word.length

section Longest

variable {text word : List Char} {pattern : Pattern} {length : Nat}

/-- There is only one longest match, of only one pattern. -/
theorem Longest.unique {pattern' : Pattern} {word' : List Char}
    (longest : Longest text pattern word)
    (longest' : Longest text pattern' word') : pattern' = pattern ∧ word' = word := by
  have same : word'.length = word.length :=
    Nat.le_antisymm (longest.longest _ _ longest'.begins longest'.matched)
      (longest'.longest _ _ longest.begins longest.matched)
  obtain rfl := (List.prefix_of_prefix_length_le longest'.begins longest.begins
    (Nat.le_of_eq same)).eq_of_length same
  exact ⟨eq_of_matches longest'.matched longest.matched, rfl⟩

/-- The pattern that the tokenizer finds is the one with the longest match. -/
theorem longest_of_longest? (found : longest? text = some (pattern, length)) :
    Longest text pattern (text.take length) := by
  have bounds := longest?_bounds found
  have extent := extent_eq_of_longest? found
  refine ⟨List.take_prefix _ _, ?_, fun other further begins matched => ?_⟩
  · rw [← extent]
    exact (measures_extent pattern).matched (extent ▸ bounds.1)
  · rw [List.length_take_of_le bounds.2]
    exact Nat.le_trans ((measures_extent other).longest begins matched)
      (extent_le_of_longest? found other)

/-- The tokenizer finds a pattern as soon as one matches a beginning of the text. -/
theorem longest?_ne_none (begins : word <+: text) (matched : pattern.regex.Matches word) :
    longest? text ≠ none := by
  intro missing
  have measured := (measures_extent pattern).longest begins matched
  have nothing := extent_le_longest? text pattern
  rw [missing, Option.elim_none] at nothing
  have := List.length_pos_iff.mpr (ne_nil_of_matches matched)
  omega

theorem longest?_eq_none_iff :
    longest? text = none ↔
      ∀ word, word <+: text → ∀ pattern : Pattern, ¬pattern.regex.Matches word := by
  constructor
  · exact fun missing word begins pattern matched => longest?_ne_none begins matched missing
  · intro nothing
    cases found : longest? text with
    | none => rfl
    | some best =>
        have longest := longest_of_longest? found
        exact absurd longest.matched (nothing _ longest.begins _)

theorem longest?_of_longest (longest : Longest text pattern word) :
    longest? text = some (pattern, word.length) := by
  cases found : longest? text with
  | none => exact absurd found (longest?_ne_none longest.begins longest.matched)
  | some best =>
      obtain ⟨same, taken⟩ := longest.unique (longest_of_longest? found)
      rw [← same, ← taken, List.length_take_of_le (longest?_bounds found).2]

end Longest

end Pattern

end Krl.Token

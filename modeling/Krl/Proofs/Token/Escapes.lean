import Krl.Proofs.Token.Boundaries
import Krl.Proofs.Token.Patterns
import Krl.Proofs.Token.Tiling

/-!
# Strings and regular expressions as they are written

A string is written with a backslash before each quote and each backslash. A regular expression
keeps every backslash together with the character behind it, and has a backslash before every `#`
of its own. Both are read back as what was written. The other way round, the text of a regular
expression is that with which what was read is written.
-/

namespace Krl

/-- The token is one of those given, or one in an interpolation among them, at any depth. -/
def Lexeme.Occurs (lexemes : List Lexeme) (lexeme : Lexeme) : Prop :=
  lexeme ∈ lexemes ∨ ∃ interpolation ∈ interpolationsIn lexemes, lexeme ∈ interpolation.tokens

namespace Token

/-- The expression and the flags that the token is. -/
def regexp? : Token → Option (String × String)
  | regexp pattern flags => some (pattern, flags)
  | _ => none

theorem regexp?_eq_some_iff {token : Token} {pattern flags : String} :
    token.regexp? = some (pattern, flags) ↔ token = regexp pattern flags := by
  cases token <;> simp [regexp?]

/-- The text of a string between its quotes. -/
def escapeString : List Char → List Char
  | [] => []
  | char :: others =>
      if char = '"' ∨ char = '\\' then '\\' :: char :: escapeString others
      else char :: escapeString others

/-- A string as it is written. -/
def stringText (value : List Char) : List Char :=
  '"' :: (escapeString value ++ ['"'])

/-- The text of a regular expression between its marks. A backslash is written together with the
character behind it. -/
def escapePattern : List Char → List Char
  | [] => []
  | '\\' :: escaped :: others => '\\' :: escaped :: escapePattern others
  | char :: others =>
      if char = '#' then '\\' :: char :: escapePattern others else char :: escapePattern others

/-- A regular expression as it is written. -/
def regexpText (pattern flags : List Char) : List Char :=
  ['r', 'e', '#'] ++ (escapePattern pattern ++ '#' :: flags)

/-- Each backslash is followed by a character other than `#`, where the pairs are read from left
to right. -/
def Paired : List Char → Prop
  | [] => True
  | ['\\'] => False
  | '\\' :: escaped :: others => escaped ≠ '#' ∧ Paired others
  | _ :: others => Paired others

theorem escapePattern_other {char : Char} (notBackslash : char ≠ '\\') (notMark : char ≠ '#')
    (others : List Char) : escapePattern (char :: others) = char :: escapePattern others := by
  rw [escapePattern, if_neg notMark]
  rintro _ _ rfl
  exact absurd rfl notBackslash

theorem paired_other {char : Char} (notBackslash : char ≠ '\\') {others : List Char} :
    Paired (char :: others) ↔ Paired others := by
  rw [Paired]
  · rintro rfl
    exact absurd rfl notBackslash
  · rintro _ _ rfl
    exact absurd rfl notBackslash

namespace Literal

theorem string?_other {char : Char} (notQuote : char ≠ '"') (notBackslash : char ≠ '\\')
    (rest : List Char) : string? (char :: rest) =
      (string? rest).map fun (value, length) => (char :: value, length + 1) := by
  rw [string?]
  · rintro rfl
    exact absurd rfl notQuote
  · rintro _ _ rfl
    exact absurd rfl notBackslash

/-- A string is read up to its closing quote. -/
theorem string?_escapeString (value behind : List Char) :
    string? (escapeString value ++ '"' :: behind) =
      some (value, (escapeString value).length + 1) := by
  induction value with
  | nil => rfl
  | cons char others ih =>
      rw [escapeString]
      split
      next escaped =>
        rw [List.cons_append, List.cons_append, string?, ih, Option.map_some]
        simp only [if_pos escaped]
        rfl
      next plain =>
        rw [not_or] at plain
        rw [List.cons_append, string?_other plain.1 plain.2, ih, Option.map_some]
        rfl

theorem regexp?_other {char : Char} (notMark : char ≠ '#') (notBackslash : char ≠ '\\')
    (rest : List Char) : regexp? (char :: rest) =
      (regexp? rest).map fun (pattern, length) => (char :: pattern, length + 1) := by
  rw [regexp?]
  · rintro rfl
    exact absurd rfl notMark
  · rintro _ _ rfl
    exact absurd rfl notBackslash

/-- A regular expression is read up to its closing mark. -/
theorem regexp?_escapePattern {pattern : List Char} (paired : Paired pattern)
    (behind : List Char) : regexp? (escapePattern pattern ++ '#' :: behind) =
      some (pattern, (escapePattern pattern).length + 1) := by
  fun_induction escapePattern pattern with
  | case1 => rfl
  | case2 escaped others ih =>
      rw [Paired] at paired
      rw [List.cons_append, List.cons_append, regexp?, ih paired.2, Option.map_some]
      simp only [if_neg paired.1]
      rfl
  | case3 others _ ih =>
      rw [paired_other (by decide)] at paired
      rw [List.cons_append, List.cons_append, regexp?, ih paired, Option.map_some]
      rfl
  | case4 char others notPair notMark ih =>
      have notBackslash : char ≠ '\\' := by
        rintro rfl
        cases others with
        | nil => exact paired
        | cons escaped others => exact notPair _ _ rfl rfl
      rw [paired_other notBackslash] at paired
      rw [List.cons_append, regexp?_other notMark notBackslash, ih paired, Option.map_some]
      rfl

/-- What is read as a regular expression is the text with which it is written. -/
theorem eq_escapePattern_of_regexp? {chars pattern : List Char} {length : Nat}
    (read : regexp? chars = some (pattern, length)) :
    Paired pattern ∧ length = (escapePattern pattern).length + 1 ∧
      chars = escapePattern pattern ++ '#' :: chars.drop length := by
  fun_induction regexp? chars generalizing pattern length with
  | case1 => cases read
  | case2 rest =>
      cases read
      exact ⟨trivial, rfl, rfl⟩
  | case3 escaped rest ih =>
      obtain ⟨⟨inner, more⟩, inside, same⟩ := Option.map_eq_some_iff.mp read
      obtain ⟨paired, rfl, whole⟩ := ih inside
      simp only at same
      split at same
      next mark =>
        cases same
        subst mark
        refine ⟨(paired_other (by decide)).mpr paired, rfl, ?_⟩
        exact congrArg ('\\' :: '#' :: ·) whole
      next notMark =>
        cases same
        refine ⟨⟨notMark, paired⟩, rfl, ?_⟩
        exact congrArg ('\\' :: escaped :: ·) whole
  | case4 char rest notMark notPair ih =>
      obtain ⟨⟨inner, more⟩, inside, same⟩ := Option.map_eq_some_iff.mp read
      cases same
      obtain ⟨paired, rfl, whole⟩ := ih inside
      have notBackslash : char ≠ '\\' := by
        rintro rfl
        cases rest with
        | nil => cases inside
        | cons escaped rest => exact notPair _ _ rfl rfl
      have notMark : char ≠ '#' := notMark
      refine ⟨(paired_other notBackslash).mpr paired, ?_, ?_⟩
      · rw [escapePattern_other notBackslash notMark, List.length_cons]
      · rw [escapePattern_other notBackslash notMark, List.cons_append]
        exact congrArg (char :: ·) whole

end Literal

theorem advance_eq_of_append {cursor : Cursor} {chars behind : List Char} {count : Nat}
    (here : cursor.rest = chars ++ behind) (length : count = chars.length) :
    cursor.advance count = ⟨cursor.offset + Text.byteLength chars, behind⟩ := by
  rw [Cursor.advance, here, length, List.take_left, List.drop_left]

/-- A string is read where it is written. -/
theorem reads_stringText (value behind : List Char) (offset : Nat) :
    Reads ⟨offset, stringText value ++ behind⟩
      ⟨.string (String.ofList value), offset, offset + Text.byteLength (stringText value)⟩
      ⟨offset + Text.byteLength (stringText value), behind⟩ := by
  have here : stringText value ++ behind = '"' :: (escapeString value ++ '"' :: behind) := by
    rw [stringText, List.cons_append, List.append_assoc, List.singleton_append]
  have longest : Pattern.longest? (stringText value ++ behind) = some (.opened .string, 1) := by
    rw [here]
    rfl
  have closed : Literal.string? (Cursor.advance ⟨offset, stringText value ++ behind⟩ 1).rest =
      some (value, (escapeString value).length + 1) := by
    rw [here]
    exact Literal.string?_escapeString value behind
  have reads := @Reads.string ⟨offset, stringText value ++ behind⟩ value 1 _ longest closed
  rwa [Cursor.advance_advance, advance_eq_of_append rfl (by simp [stringText]; omega)] at reads

/-- A regular expression is read where it is written, unless its flags go on. -/
theorem reads_regexpText {pattern flags behind : List Char} (paired : Paired pattern)
    (letters : ∀ char ∈ flags, isLetter char = true)
    (ends : ∀ char ∈ behind.head?, isLetter char = false) (offset : Nat) :
    Reads ⟨offset, regexpText pattern flags ++ behind⟩
      ⟨.regexp (String.ofList pattern) (String.ofList flags), offset,
        offset + Text.byteLength (regexpText pattern flags)⟩
      ⟨offset + Text.byteLength (regexpText pattern flags), behind⟩ := by
  have here : regexpText pattern flags ++ behind =
      'r' :: 'e' :: '#' :: (escapePattern pattern ++ '#' :: (flags ++ behind)) := by
    simp [regexpText]
  have longest : Pattern.longest? (regexpText pattern flags ++ behind) =
      some (.opened .regexp, 3) := by
    rw [here]
    rfl
  have opened : (Cursor.advance ⟨offset, regexpText pattern flags ++ behind⟩ 3).rest =
      escapePattern pattern ++ '#' :: (flags ++ behind) := by
    rw [here]
    rfl
  have run : (flags ++ behind).takeWhile isLetter = flags := by
    rw [← Pattern.take_run, Pattern.run_eq_length letters ends, List.take_left]
  have taken : (((Cursor.advance ⟨offset, regexpText pattern flags ++ behind⟩ 3).rest.drop
      ((escapePattern pattern).length + 1)).takeWhile isLetter) = flags := by
    rw [opened, List.drop_length_add_append]
    exact run
  have closed : Literal.regexp?
      (Cursor.advance ⟨offset, regexpText pattern flags ++ behind⟩ 3).rest =
        some (pattern, (escapePattern pattern).length + 1) := by
    rw [opened]
    exact Literal.regexp?_escapePattern paired (flags ++ behind)
  have reads := @Reads.regexp ⟨offset, _⟩ pattern flags 3 _ longest closed taken
  rwa [Cursor.advance_advance, advance_eq_of_append rfl (by simp [regexpText]; omega)] at reads

/-- A regular expression that is read is the text that writes it. -/
theorem Reads.eq_regexpText {cursor next : Cursor} {pattern flags : String} {start stop : Nat}
    (reads : Reads cursor ⟨.regexp pattern flags, start, stop⟩ next) :
    Paired pattern.toList ∧ (∀ char ∈ flags.toList, isLetter char = true) ∧
      start = cursor.offset ∧
      stop = start + Text.byteLength (regexpText pattern.toList flags.toList) ∧
      ∃ behind, cursor.rest = regexpText pattern.toList flags.toList ++ behind ∧
        ∀ char ∈ behind.head?, isLetter char = false := by
  generalize same : (⟨.regexp pattern flags, start, stop⟩ : Lexeme) = lexeme at reads
  cases reads with
  | @plain _ token _ _ => cases token <;> cases same
  | @regexp _ body letters length more longest closed taken =>
      obtain ⟨token, rfl, rfl⟩ := Lexeme.mk.inj same
      obtain ⟨rfl, rfl⟩ := Token.regexp.inj token
      obtain ⟨rfl, rest, here⟩ := Pattern.eq_append_of_longest? longest rfl
      have opened : (cursor.advance 3).rest = rest := by
        rw [Cursor.advance, here]
        rfl
      rw [List.length_cons, List.length_cons, List.length_singleton, opened] at closed taken
      obtain ⟨paired, rfl, whole⟩ := Literal.eq_escapePattern_of_regexp? closed
      -- The flags are the letters behind the closing mark, and what stands behind them is left.
      generalize rest.drop ((escapePattern body).length + 1) = further at whole taken
      have text : cursor.rest = regexpText body letters ++ further.dropWhile isLetter := by
        rw [here, whole, ← taken]
        simp [regexpText]
      rw [String.toList_ofList, String.toList_ofList, Cursor.advance_advance,
        advance_eq_of_append text (by simp [regexpText]; omega)]
      refine ⟨paired, ?_, rfl, rfl, _, text, ?_⟩
      · exact taken ▸ fun char member => List.mem_takeWhile_imp member
      · intro char begins
        have ends := List.head?_dropWhile_not isLetter further
        rwa [begins] at ends
  | _ => cases same

/-- A text that is read as one token has this token only. -/
theorem tokenize_of_reads {chars : List Char} {token : Token} {stop : Nat}
    (reads : Reads ⟨0, chars⟩ ⟨token, 0, stop⟩ ⟨stop, []⟩) :
    tokenize (String.ofList chars) = .ok [⟨token, 0, stop⟩] := by
  rw [tokenize_eq_ok_iff, String.toList_ofList]
  exact ⟨_, .cons reads .nil, rfl⟩

theorem ReadsAll.exists_reads {cursor final : Cursor} {lexemes : List Lexeme}
    (reads : ReadsAll cursor lexemes final) {source : String} (inside : cursor.In source)
    {lexeme : Lexeme} (member : lexeme ∈ lexemes) :
    ∃ place next : Cursor, place.In source ∧ Reads place lexeme next := by
  induction reads with
  | nil => cases member
  | cons first _ ih =>
      rcases List.mem_cons.mp member with rfl | member
      · exact ⟨_, _, inside, first⟩
      · exact ih (inside.of_advances first.advances) member

/-- Every token of a source is read somewhere in it, also those in interpolations. -/
theorem exists_reads {source : String} {lexemes : List Lexeme}
    (tokenized : tokenize source = .ok lexemes) {lexeme : Lexeme}
    (occurs : Lexeme.Occurs lexemes lexeme) :
    ∃ place next : Cursor, place.In source ∧ Reads place lexeme next := by
  obtain ⟨final, reads, _⟩ := tokenize_eq_ok_iff.mp tokenized
  have whole : Cursor.In source ⟨0, source.toList⟩ := ⟨0, rfl⟩
  rcases occurs with member | ⟨interpolation, among, member⟩
  · exact reads.exists_reads whole member
  · obtain ⟨cursor, final, inside, body, _, _⟩ := reads.readIn whole interpolation among
    exact body.exists_reads inside member

/-- Strings and regular expressions are read back as they are written. A string of whatever
characters is the one token of its text. Wherever a regular expression occurs in a source, the
source has the text that writes it there, with all letters behind its closing mark as flags. The
other way round, every regular expression whose backslashes are followed by a character other than
a mark is the one token of its text. -/
theorem literals_comeBack :
    (∀ value : String, tokenize (String.ofList (stringText value.toList)) =
      .ok [⟨.string value, 0, Text.byteLength (stringText value.toList)⟩]) ∧
    (∀ (source : String) (lexemes : List Lexeme), tokenize source = .ok lexemes →
      ∀ (pattern flags : String) (start stop : Nat),
        Lexeme.Occurs lexemes ⟨.regexp pattern flags, start, stop⟩ →
          Paired pattern.toList ∧ (∀ char ∈ flags.toList, isLetter char = true) ∧
          ∃ before behind,
            source.toList = before ++ regexpText pattern.toList flags.toList ++ behind ∧
            start = Text.byteLength before ∧
            stop = start + Text.byteLength (regexpText pattern.toList flags.toList) ∧
            ∀ char ∈ behind.head?, isLetter char = false) ∧
    ∀ pattern flags : String, Paired pattern.toList →
      (∀ char ∈ flags.toList, isLetter char = true) →
        tokenize (String.ofList (regexpText pattern.toList flags.toList)) =
          .ok [⟨.regexp pattern flags, 0,
            Text.byteLength (regexpText pattern.toList flags.toList)⟩] := by
  refine ⟨fun value => ?_, ?_, fun pattern flags paired letters => ?_⟩
  · have reads := reads_stringText value.toList [] 0
    rw [List.append_nil, Nat.zero_add, String.ofList_toList] at reads
    exact tokenize_of_reads reads
  · intro source lexemes tokenized pattern flags start stop occurs
    obtain ⟨place, next, ⟨count, rfl⟩, reads⟩ := exists_reads tokenized occurs
    obtain ⟨paired, letters, rfl, rfl, behind, here, ends⟩ := reads.eq_regexpText
    refine ⟨paired, letters, source.toList.take count, behind, ?_, Nat.zero_add _, rfl, ends⟩
    rw [List.append_assoc, ← here]
    exact (List.take_append_drop count source.toList).symm
  · have reads := @reads_regexpText _ _ [] paired letters (by simp) 0
    rw [List.append_nil, Nat.zero_add, String.ofList_toList, String.ofList_toList] at reads
    exact tokenize_of_reads reads

/-- Quotes, backslashes and marks of all sorts, and a regular expression in a template. -/
theorem literals_comeBack_marks :
    tokenize "\"\\\"\\\\n#\"" = .ok [⟨.string "\"\\n#", 0, 8⟩] ∧
    tokenize "re#\\\\\\#\\d#iM" = .ok [⟨.regexp "\\\\#\\d" "iM", 0, 12⟩] ∧
    ∃ lexemes before behind, tokenize "<<#\x7bre#\\#\\w#gi1\x7d>>" = .ok lexemes ∧
      Lexeme.Occurs lexemes ⟨.regexp "#\\w" "gi", 4, 14⟩ ∧
      "<<#\x7bre#\\#\\w#gi1\x7d>>".toList =
        before ++ regexpText "#\\w".toList "gi".toList ++ behind ∧
      4 = Text.byteLength before ∧ ∀ char ∈ behind.head?, isLetter char = false := by
  refine ⟨literals_comeBack.1 "\"\\n#", ?_, ?_⟩
  · exact literals_comeBack.2.2 "\\\\#\\d" "iM" (by simp [Paired]) (by simp [isLetter])
  · have found : ((tokenize "<<#\x7bre#\\#\\w#gi1\x7d>>").toOption.any fun lexemes =>
        (interpolationsIn lexemes).any fun interpolation => interpolation.tokens.any fun lexeme =>
          lexeme.token.regexp? == some ("#\\w", "gi") && lexeme.start == 4 &&
            lexeme.stop == 14) = true := by decide +kernel
    cases read : tokenize "<<#\x7bre#\\#\\w#gi1\x7d>>" with
    | error error =>
        rw [read] at found
        cases found
    | ok lexemes =>
        rw [read] at found
        obtain ⟨interpolation, among, inside⟩ := List.any_eq_true.mp found
        obtain ⟨⟨token, start, stop⟩, member, same⟩ := List.any_eq_true.mp inside
        simp only [Bool.and_eq_true, beq_iff_eq, Token.regexp?_eq_some_iff] at same
        obtain ⟨⟨rfl, rfl⟩, rfl⟩ := same
        have occurs : Lexeme.Occurs lexemes ⟨.regexp "#\\w" "gi", 4, 14⟩ :=
          .inr ⟨interpolation, among, member⟩
        obtain ⟨_, _, before, behind, same, place, _, ends⟩ :=
          literals_comeBack.2.1 _ _ read _ _ _ _ occurs
        exact ⟨lexemes, before, behind, rfl, occurs, same, place, ends⟩

end Token

end Krl

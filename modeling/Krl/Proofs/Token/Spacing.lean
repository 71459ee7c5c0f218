import Krl.Proofs.Token.Extensions
import Krl.Proofs.Token.Patterns

/-!
# Words with space between them

A text that is one token by itself is read as that token wherever it stands, provided that a
space or the end of the source follows. So a source of such words, with space between them, has
exactly the tokens that they write.
-/

namespace Krl.Token

/-- The text by itself is one token, which is not left out. -/
def Writes (chars : List Char) (token : Token) : Prop :=
  token.isTrivia = false ∧
    tokenize (String.ofList chars) = .ok [⟨token, 0, Text.byteLength chars⟩]

/-- The characters are spaces. -/
abbrev IsGap (chars : List Char) : Prop :=
  ∀ char ∈ chars, isSpace char = true

/-- A text from some offset on writes the tokens, one word for each. There is space behind
every word but the last one, and there may be some before the first word and behind the
last. -/
inductive Spaced : Nat → List Lexeme → List Char → Prop where
  | done {offset : Nat} {gap : List Char} (blank : IsGap gap) : Spaced offset [] gap
  | word {offset start : Nat} {gap chars behind : List Char} {token : Token}
      {others : List Lexeme} (blank : IsGap gap) (place : start = offset + Text.byteLength gap)
      (writes : Writes chars token) (apart : ∀ char ∈ behind.head?, isSpace char = true)
      (rest : Spaced (start + Text.byteLength chars) others behind) :
      Spaced offset (⟨token.shift start, start, start + Text.byteLength chars⟩ :: others)
        (gap ++ (chars ++ behind))

namespace Pattern

/-- Spaces are read up to where they end. -/
theorem longest?_of_gap {gap behind : List Char} (blank : IsGap gap) (nonempty : gap ≠ [])
    (ends : ∀ char ∈ behind.head?, isSpace char = false) :
    longest? (gap ++ behind) = some (plain .spaces, gap.length) := by
  have spaces : (plain .spaces).extent (gap ++ behind) = gap.length := run_eq_length blank ends
  have bound (pattern : Pattern) : pattern.extent (gap ++ behind) ≤ gap.length := by
    by_cases same : pattern = plain .spaces
    · exact Nat.le_of_eq (same ▸ spaces)
    · obtain ⟨char, rest, rfl⟩ := List.exists_cons_of_ne_nil nonempty
      have begins := extent_of_space (blank char List.mem_cons_self) pattern same (rest ++ behind)
      exact Nat.le_trans (Nat.le_of_eq begins) (Nat.zero_le _)
  have matched : (plain .spaces).regex.Matches gap := by
    have whole := (measures_extent (plain .spaces)).matched
      (spaces.symm ▸ List.length_pos_iff.mpr nonempty)
    rwa [spaces, List.take_left] at whole
  refine longest?_of_longest ⟨List.prefix_append gap behind, matched, ?_⟩
  intro other further begins matched
  exact Nat.le_trans ((measures_extent other).longest begins matched) (bound other)

theorem eq_spaces_of_longest? {char : Char} {rest : List Char} {pattern : Pattern} {length : Nat}
    (space : isSpace char = true) (found : longest? (char :: rest) = some (pattern, length)) :
    pattern = plain .spaces := by
  by_contra other
  have positive := (longest?_bounds found).1
  rw [← extent_eq_of_longest? found, extent_of_space space pattern other] at positive
  exact Nat.lt_irrefl 0 positive

end Pattern

/-- Space before other text is read as nothing that matters. -/
theorem exists_readsAll_of_gap {gap behind : List Char} (blank : IsGap gap)
    (ends : ∀ char ∈ behind.head?, isSpace char = false) (offset : Nat) :
    ∃ lexemes, ReadsAll ⟨offset, gap ++ behind⟩ lexemes ⟨offset + Text.byteLength gap, behind⟩ ∧
      significant lexemes = [] := by
  by_cases nonempty : gap = []
  · subst nonempty
    exact ⟨[], .nil, rfl⟩
  · have reads : Reads ⟨offset, gap ++ behind⟩ _ _ :=
      .plain (Pattern.longest?_of_gap blank nonempty ends)
    rw [Cursor.advance_append] at reads
    exact ⟨_, .cons reads .nil, rfl⟩

theorem apart_of_space {behind : List Char} (space : ∀ char ∈ behind.head?, isSpace char = true) :
    Apart behind := by
  intro char begins
  rcases eq_of_isSpace (space char begins) with rfl | rfl | rfl | rfl | rfl <;> decide

/-- Where a space stands, space is read. -/
theorem Reads.token_of_space {cursor next : Cursor} {lexeme : Lexeme} {char : Char}
    {rest : List Char} (reads : Reads cursor lexeme next) (here : cursor.rest = char :: rest)
    (space : isSpace char = true) : lexeme.token = .whitespace := by
  cases reads with
  | plain longest =>
      rw [here] at longest
      cases Pattern.eq_spaces_of_longest? space longest
      rfl
  | blockComment longest _ | string longest _ | regexp longest _ _ | chevron longest _ =>
      rw [here] at longest
      cases Pattern.eq_spaces_of_longest? space longest

section Words

variable {chars behind : List Char} {token : Token}

/-- A word is read where it stands. -/
theorem Writes.reads (writes : Writes chars token)
    (space : ∀ char ∈ behind.head?, isSpace char = true) (offset : Nat) :
    Reads ⟨offset, chars ++ behind⟩
      ⟨token.shift offset, offset, offset + Text.byteLength chars⟩
      ⟨offset + Text.byteLength chars, behind⟩ := by
  obtain ⟨visible, alone⟩ := writes
  obtain ⟨final, reads, atEnd⟩ := tokenize_eq_ok_iff.mp alone
  rw [String.toList_ofList] at reads
  cases reads with
  | cons first rest =>
      cases rest
      have stops := first.orderly.2.1
      have wide := first.widen offset (apart_of_space space) (by
        rintro (trivia | trivia) <;> cases trivia <;> cases visible)
      obtain ⟨offset', rest⟩ := final
      cases atEnd
      cases stops
      rw [Nat.add_comm offset]
      simpa only [Cursor.widen, Lexeme.shift, Nat.zero_add, List.nil_append] using wide

/-- No word begins with a space, since that would be a token of its own. -/
theorem Writes.begins (writes : Writes chars token) (behind : List Char) :
    ∀ char ∈ (chars ++ behind).head?, isSpace char = false := by
  have reads := writes.reads (show ∀ char ∈ [].head?, isSpace char = true by simp) 0
  have visible : (token.shift 0).isTrivia = false := (isTrivia_shift token).trans writes.1
  rw [List.append_nil] at reads
  cases chars with
  | nil =>
      obtain ⟨reading, _⟩ := reads.lexeme_eq
      exact absurd rfl (rest_ne_nil reading)
  | cons first others =>
      intro char begins
      cases begins
      by_contra space
      have blank : token.shift 0 = .whitespace :=
        reads.token_of_space rfl (Bool.eq_true_of_not_eq_false space)
      rw [blank] at visible
      cases visible

end Words

/-- A text that a pattern matches in full is a word. -/
theorem writes_of_longest? {plain : PlainToken} (visible : (plain.read chars).isTrivia = false)
    (longest : Pattern.longest? chars = some (.plain plain, chars.length)) :
    Writes chars (plain.read chars) := by
  refine ⟨visible, tokenize_eq_ok_iff.mpr ⟨⟨Text.byteLength chars, []⟩, ?_, rfl⟩⟩
  have reads : Reads ⟨0, chars⟩ _ _ := .plain longest
  rw [Cursor.advance, List.take_length, List.drop_length, Nat.zero_add] at reads
  rw [String.toList_ofList]
  exact .cons reads .nil

/-- Spaced words are read as the tokens that they write. -/
theorem Spaced.exists_readsAll {offset : Nat} {lexemes : List Lexeme} {chars : List Char}
    (spaced : Spaced offset lexemes chars) :
    ∃ all final, ReadsAll ⟨offset, chars⟩ all final ∧ final.rest = [] ∧
      significant all = lexemes := by
  induction spaced with
  | @done offset gap blank =>
      have ends : ∀ char ∈ [].head?, isSpace char = false := by simp
      obtain ⟨all, reads, none_⟩ := exists_readsAll_of_gap blank ends offset
      rw [List.append_nil] at reads
      exact ⟨all, _, reads, rfl, none_⟩
  | @word offset start gap chars behind token others blank place writes apart _ ih =>
      obtain ⟨before, gapReads, none_⟩ :=
        exists_readsAll_of_gap blank (writes.begins behind) offset
      obtain ⟨all, final, reads, atEnd, same⟩ := ih
      rw [← place] at gapReads
      refine ⟨before ++ _ :: all, final, gapReads.append (.cons (writes.reads apart start) reads),
        atEnd, ?_⟩
      have seen : (token.shift start).isTrivia = false := (isTrivia_shift token).trans writes.1
      rw [significant, List.filter_append, List.filter_cons_of_pos (by simp [seen])]
      exact congrArg₂ (· ++ _ :: ·) none_ same

/-- The tokens that words write, each with one space before it. -/
def placed : Nat → List (List Char × Token) → List Lexeme
  | _, [] => []
  | offset, (chars, token) :: others =>
      ⟨token.shift (offset + 1), offset + 1, offset + 1 + Text.byteLength chars⟩ ::
        placed (offset + 1 + Text.byteLength chars) others

/-- All words can be written one after another. -/
theorem spaced_of_words {words : List (List Char × Token)}
    (every : ∀ word ∈ words, Writes word.1 word.2) (offset : Nat) :
    Spaced offset (placed offset words) (words.flatMap fun word => ' ' :: word.1) := by
  induction words generalizing offset with
  | nil => exact .done (List.forall_mem_nil _)
  | cons word others ih =>
      obtain ⟨first, rest⟩ := List.forall_mem_cons.mp every
      have apart : ∀ char ∈ (others.flatMap fun word => ' ' :: word.1).head?,
          isSpace char = true := by
        cases others <;> simp [isSpace]
      exact .word (List.forall_mem_singleton.mpr rfl) rfl first apart (ih rest _)

/-- Whether a pattern matches the text in full, and something is read. -/
def isPlain (word : List Char × PlainToken) : Bool :=
  Pattern.longest? word.1 == some (.plain word.2, word.1.length) &&
    !(word.2.read word.1).isTrivia

theorem spaced_of_plain {words : List (List Char × PlainToken)}
    (every : ∀ word ∈ words, isPlain word = true) (offset : Nat) :
    Spaced offset (placed offset (words.map fun word => (word.1, word.2.read word.1)))
      (words.flatMap fun word => ' ' :: word.1) := by
  have writes : ∀ word ∈ words.map fun word => (word.1, word.2.read word.1),
      Writes word.1 word.2 := by
    intro word member
    obtain ⟨⟨chars, plain⟩, listed, rfl⟩ := List.mem_map.mp member
    have known := every _ listed
    rw [isPlain, Bool.and_eq_true, beq_iff_eq, Bool.not_eq_true'] at known
    exact writes_of_longest? known.2 known.1
  have spaced := spaced_of_words writes offset
  rwa [List.flatMap_map] at spaced

theorem Spaced.exists_tokenize {source : String} {lexemes : List Lexeme}
    (spaced : Spaced 0 lexemes source.toList) :
    ∃ all, tokenize source = .ok all ∧ significant all = lexemes := by
  obtain ⟨all, final, reads, atEnd, same⟩ := spaced.exists_readsAll
  exact ⟨all, tokenize_eq_ok_iff.mpr ⟨final, reads, atEnd⟩, same⟩

end Krl.Token

import Krl.Proofs.Token.Spacing
import Krl.Proofs.Token.Tiling

/-!
# Space and comments between other text

A text that is nothing but space and comments is read as such wherever it stands in front of
other text. Only a line comment at its end takes more, which is all there is up to the end of the
line.
-/

namespace Krl.Token

/-- The text is read as space and comments by itself. -/
def IsBlank (chars : List Char) : Prop :=
  ∃ lexemes, tokenize (String.ofList chars) = .ok lexemes ∧ significant lexemes = []

namespace Pattern

variable {text word behind : List Char}

/-- A pattern that matches a beginning of the text takes it, if none goes beyond that. -/
theorem longest?_of_extent_le {pattern : Pattern} (begins : word <+: text)
    (matched : pattern.regex.Matches word)
    (bound : ∀ other : Pattern, other.extent text ≤ word.length) :
    longest? text = some (pattern, word.length) :=
  longest?_of_longest ⟨begins, matched, fun other _ begins matched =>
    Nat.le_trans ((measures_extent other).longest begins matched) (bound other)⟩

theorem drop_run (accept : Char → Bool) (chars : List Char) :
    chars.drop (run accept chars) = chars.dropWhile accept := by
  have whole : chars.takeWhile accept ++ chars.drop (run accept chars) =
      chars.takeWhile accept ++ chars.dropWhile accept := by
    rw [List.takeWhile_append_dropWhile, ← take_run, List.take_append_drop]
  exact List.append_cancel_left whole

/-- A run ends where a character is not accepted. -/
theorem ends_run (accept : Char → Bool) (chars : List Char) :
    ∀ char ∈ (chars.drop (run accept chars)).head?, accept char = false := by
  rw [drop_run]
  intro char begins
  have ends := List.head?_dropWhile_not accept chars
  rw [begins] at ends
  simpa using ends

/-- Where the rest of a line is a comment, nothing else is read. -/
theorem longest?_lineComment (inside : '\n' ∉ word)
    (ends : ∀ char ∈ behind.head?, (char != '\n') = false) :
    longest? ('/' :: '/' :: (word ++ behind)) = some (plain .lineComment, word.length + 2) := by
  have accepted : ∀ char ∈ word, (char != '\n') = true := by
    intro char member
    rw [bne_iff_ne]
    rintro rfl
    exact inside member
  have comment : (plain .lineComment).extent ('/' :: '/' :: (word ++ behind)) =
      2 + run (· != '\n') (word ++ behind) :=
    rfl
  rw [run_eq_length accepted ends] at comment
  refine @longest?_of_extent_le _ ('/' :: '/' :: word) _
    ⟨behind, rfl⟩ (.join .text (Regex.matches_many_one_iff.mpr accepted)) ?_
  intro other
  by_cases same : other = plain .lineComment
  · rw [same, comment, List.length_cons, List.length_cons]
    omega
  · have := extent_of_slashes (word ++ behind) other same
    rw [List.length_cons]
    omega

/-- Where a comment is opened, nothing more is read. -/
theorem longest?_blockComment (rest : List Char) :
    longest? ('/' :: '*' :: rest) = some (opened .blockComment, 2) := by
  refine @longest?_of_extent_le _ ['/', '*'] _ ⟨rest, rfl⟩ .text ?_
  intro other
  cases other with
  | opened token => cases token <;> exact Nat.le_of_ble_eq_true rfl
  | plain token =>
      cases token with
      | punct mark => cases mark <;> exact Nat.le_of_ble_eq_true rfl
      | _ => exact Nat.le_of_ble_eq_true rfl

end Pattern

section Reading

variable {behind : List Char}

/-- At the beginning of a text, in front of other text, trivia is read up to the rest of the text,
or it is read up to the end of everything. -/
def Continues (behind chars rest : List Char) : Prop :=
  ∀ offset, ∃ lexeme final, Reads ⟨offset, chars ++ behind⟩ lexeme final ∧
    lexeme.token.isTrivia = true ∧
      ((∃ word, chars = word ++ rest ∧
        final = ⟨offset + Text.byteLength word, rest ++ behind⟩) ∨ final.rest = [])

theorem continues_spaces (ends : ∀ char ∈ behind.head?, isSpace char = false) {chars : List Char}
    {length : Nat} (longest : Pattern.longest? chars = some (.plain .spaces, length)) :
    Continues behind chars (chars.drop length) := by
  intro offset
  have bounds := Pattern.longest?_bounds longest
  have extent : Pattern.run isSpace chars = length := Pattern.extent_eq_of_longest? longest
  have blank : IsGap (chars.take length) := by
    rw [← extent, Pattern.take_run]
    exact fun char member => List.mem_takeWhile_imp member
  have nonempty : chars.take length ≠ [] :=
    List.ne_nil_of_length_pos (by rw [List.length_take_of_le bounds.2]; exact bounds.1)
  have inside := Pattern.ends_run isSpace chars
  rw [extent] at inside
  have split := (List.take_append_drop length chars).symm
  generalize chars.take length = word at blank nonempty split
  generalize chars.drop length = rest at inside split ⊢
  subst split
  have ends' : ∀ char ∈ (rest ++ behind).head?, isSpace char = false := by
    cases rest with
    | nil => exact ends
    | cons first others => exact inside
  have reads : Reads ⟨offset, word ++ (rest ++ behind)⟩ _ _ :=
    .plain (Pattern.longest?_of_gap blank nonempty ends')
  rw [Cursor.advance_append, ← List.append_assoc] at reads
  exact ⟨_, _, reads, rfl, .inl ⟨word, rfl, rfl⟩⟩

theorem continues_lineComment (line : '\n' ∉ behind) {chars : List Char} {length : Nat}
    (longest : Pattern.longest? chars = some (.plain .lineComment, length)) :
    Continues behind chars (chars.drop length) := by
  intro offset
  have positive := (Pattern.longest?_bounds longest).1
  have extent := Pattern.extent_eq_of_longest? longest
  rw [Pattern.extent, Pattern.extent.opening] at extent
  split at extent
  next others opens =>
    obtain rfl := Pattern.after?_eq_some_iff.mp opens
    have inside := Pattern.ends_run (· != '\n') others
    have within : '\n' ∉ others.takeWhile (· != '\n') := by
      intro member
      have accepted := List.mem_takeWhile_imp member
      simp at accepted
    have split := (List.take_append_drop (Pattern.run (· != '\n') others) others).symm
    have remaining : (['/', '/'] ++ others).drop length =
        others.drop (Pattern.run (· != '\n') others) := by
      rw [← extent, List.drop_length_add_append]
    rw [remaining]
    rw [Pattern.take_run] at split
    generalize others.takeWhile (· != '\n') = word at within split
    generalize others.drop (Pattern.run (· != '\n') others) = rest at inside split ⊢
    subst split
    cases rest with
    | nil =>
        -- The comment goes on up to the end of everything.
        have reads : Reads ⟨offset, '/' :: '/' :: (word ++ behind ++ [])⟩ _ _ :=
          .plain (Pattern.longest?_lineComment (by simp [within, line]) (by simp))
        refine ⟨_, _, by simpa using reads, rfl, .inr ?_⟩
        simp [Cursor.advance]
    | cons first rest =>
        have reads : Reads ⟨offset, '/' :: '/' :: (word ++ (first :: rest ++ behind))⟩ _ _ :=
          .plain (Pattern.longest?_lineComment within inside)
        have ended := Cursor.advance_append offset ('/' :: '/' :: word) (first :: rest ++ behind)
        have whole : ['/', '/'] ++ (word ++ first :: rest) ++ behind =
            '/' :: '/' :: (word ++ (first :: rest ++ behind)) := by
          simp
        rw [whole]
        exact ⟨_, _, reads, rfl, .inl ⟨'/' :: '/' :: word, rfl, ended⟩⟩
  next => omega

theorem continues_blockComment {chars : List Char} {length more : Nat}
    (longest : Pattern.longest? chars = some (.opened .blockComment, length))
    (closed : Literal.comment? (chars.drop length) = some more) :
    Continues behind chars ((chars.drop length).drop more) := by
  intro offset
  obtain ⟨rfl, others, rfl⟩ := Pattern.eq_append_of_longest? longest rfl
  have within : more ≤ others.length := Literal.comment?_le closed
  have closed' : Literal.comment? (others ++ behind) = some more :=
    Literal.comment?_append closed behind
  have reads : Reads ⟨offset, '/' :: '*' :: (others ++ behind)⟩ _ _ :=
    .blockComment (Pattern.longest?_blockComment _) closed'
  have ended := Cursor.advance_append offset ('/' :: '*' :: others.take more)
    (others.drop more ++ behind)
  have split : others.take more ++ (others.drop more ++ behind) = others ++ behind := by
    rw [← List.append_assoc, List.take_append_drop]
  rw [List.cons_append, List.cons_append, split, List.length_cons, List.length_cons,
    List.length_take_of_le within, show more + 1 + 1 = 2 + more by omega] at ended
  rw [Cursor.advance_advance] at reads
  refine ⟨_, _, reads, rfl, .inl ⟨'/' :: '*' :: others.take more, ?_, ended⟩⟩
  exact congrArg ('/' :: '*' :: ·) (List.take_append_drop more others).symm

variable (ends : ∀ char ∈ behind.head?, isSpace char = false) (line : '\n' ∉ behind)

include ends line

/-- Trivia is read in front of other text up to where it is read by itself. -/
theorem Reads.continues {start : Nat} {chars : List Char} {lexeme : Lexeme} {next : Cursor}
    (reads : Reads ⟨start, chars⟩ lexeme next) (trivia : lexeme.token.isTrivia = true) :
    Continues behind chars next.rest := by
  cases reads with
  | @plain _ token length longest =>
      cases token with
      | spaces => exact continues_spaces ends longest
      | lineComment => exact continues_lineComment line longest
      | _ => cases trivia
  | blockComment longest closed => exact continues_blockComment longest closed
  | string | regexp | chevron => cases trivia

/-- A blank text is read in front of other text, or that becomes part of a comment. -/
theorem IsBlank.exists_readsAll {chars : List Char} (blank : IsBlank chars) (offset : Nat) :
    ∃ lexemes final, ReadsAll ⟨offset, chars ++ behind⟩ lexemes final ∧
      significant lexemes = [] ∧
        (final = ⟨offset + Text.byteLength chars, behind⟩ ∨ final.rest = []) := by
  obtain ⟨lexemes, read, none_⟩ := blank
  obtain ⟨final, reads, atEnd⟩ := tokenize_eq_ok_iff.mp read
  rw [String.toList_ofList] at reads
  clear read
  generalize 0 = start at reads
  generalize begins : Cursor.mk start chars = cursor at reads
  induction reads generalizing start chars offset with
  | nil =>
      subst begins
      cases atEnd
      exact ⟨[], _, .nil, rfl, .inl rfl⟩
  | @cons cursor next final lexeme others first rest ih =>
      subst begins
      rw [significant, List.filter_eq_nil_iff, List.forall_mem_cons,
        ← List.filter_eq_nil_iff] at none_
      have trivia : lexeme.token.isTrivia = true := by simpa using none_.1
      obtain ⟨lexeme', final', reads, trivia', stops⟩ := first.continues ends line trivia offset
      have left (others : List Lexeme) : significant (lexeme' :: others) = significant others :=
        List.filter_cons_of_neg (by simp [trivia'])
      rcases stops with ⟨word, rfl, rfl⟩ | atEnd'
      · obtain ⟨others', final', more, none_', stops⟩ :=
          ih (offset + Text.byteLength word) none_.2 atEnd _ rfl
        refine ⟨lexeme' :: others', final', .cons reads more, (left others').trans none_', ?_⟩
        rw [Text.byteLength_append, ← Nat.add_assoc]
        exact stops
      · exact ⟨[lexeme'], final', .cons reads .nil, left [], .inr atEnd'⟩

end Reading

end Krl.Token

import Krl.Proofs.Token.Cuts

/-!
# Reading a text that goes on

What is read in a text is read again when other text stands behind it, provided that this
begins with no character with which a token before it can go on. Only spaces and comments
reach up to whatever ends them, and must not stand last. Every literal ends with a delimiter of
its own, so the text behind it does not matter.
-/

namespace Krl

namespace Token

/-- The characters, spaces apart, with which a token can go on that some text begins. -/
def goesOn (char : Char) : Bool :=
  isWordPart char || ['.', ':', '=', '>', '<', '&', '|', '/', '*', '#'].contains char

/-- The text is empty, or begins with a character with which no token goes on. -/
def Apart (tail : List Char) : Prop :=
  ∀ char ∈ tail.head?, goesOn char = false

variable {base : Nat} {text tail : List Char}

theorem apart_nil : Apart [] := by
  simp [Apart]

namespace Pattern

theorem run_append_le (accept : Char → Bool) (text : List Char)
    (ends : ∀ char ∈ tail.head?, accept char = false) : run accept (text ++ tail) ≤ text.length := by
  induction text with
  | nil =>
      cases tail with
      | nil => exact Nat.le_refl _
      | cons char rest =>
          rw [List.nil_append, run, List.takeWhile_cons, ends char rfl]
          exact Nat.le_refl _
  | cons first others ih =>
      rw [run, List.cons_append, List.takeWhile_cons]
      split
      · exact Nat.succ_le_succ ih
      · exact Nat.zero_le _

theorem ends_wordPart (apart : Apart tail) : ∀ char ∈ tail.head?, isWordPart char = false := by
  intro char begins
  have := apart char begins
  rw [goesOn, Bool.or_eq_false_iff] at this
  exact this.1

theorem ends_digit (apart : Apart tail) : ∀ char ∈ tail.head?, isDigit char = false := by
  intro char begins
  have := ends_wordPart apart char begins
  rw [isWordPart, Bool.or_eq_false_iff] at this
  exact this.2

theorem ends_letter (apart : Apart tail) : ∀ char ∈ tail.head?, isLetter char = false := by
  intro char begins
  have := ends_wordPart apart char begins
  simp only [isWordPart, isWordStart, Bool.or_eq_false_iff] at this
  exact this.1.1.1

theorem wordLength_append_le (apart : Apart tail) : wordLength (text ++ tail) ≤ text.length := by
  cases text with
  | nil =>
      cases tail with
      | nil => exact Nat.le_refl _
      | cons char rest =>
          have := ends_wordPart apart char rfl
          rw [isWordPart, Bool.or_eq_false_iff] at this
          rw [List.nil_append, wordLength, this.1]
          exact Nat.le_refl _
  | cons first others =>
      have := run_append_le isWordPart others (ends_wordPart apart)
      rw [List.cons_append, wordLength, List.length_cons]
      split <;> omega

theorem fractionLength_append_le (apart : Apart tail) :
    fractionLength (text ++ tail) ≤ text.length := by
  cases text with
  | nil =>
      rw [List.nil_append]
      fun_cases fractionLength tail with
      | case1 => exact Nat.le_refl _
      | case2 rest _ => exact absurd (apart '.' rfl) (by decide)
      | case3 => exact Nat.le_refl _
  | cons first others =>
      have := run_append_le isDigit others (ends_digit apart)
      rw [List.cons_append, fractionLength.eq_def]
      split
      next rest same =>
        obtain ⟨-, rfl⟩ := List.cons.inj same
        rw [List.length_cons]
        split <;> omega
      next => exact Nat.zero_le _

theorem qualifiedLength_append_le (domain : Nat) (apart : Apart tail) (text : List Char) :
    qualifiedLength domain (text ++ tail) ≤ domain + text.length := by
  rw [qualifiedLength.eq_def]
  split
  next name same =>
    rcases List.append_eq_cons_iff.mp same with ⟨-, rfl⟩ | ⟨others, rfl, rfl⟩
    · exact absurd (apart ':' rfl) (by decide)
    · have : wordLength (others ++ tail) ≤ others.length := wordLength_append_le apart
      rw [List.length_cons]
      split <;> omega
  next => exact Nat.zero_le _

/-- A fixed beginning does not reach into text behind some of it. -/
theorem length_le_of_after? (apart : Apart tail) {start rest : List Char}
    (found : Text.after? start (text ++ tail) = some rest) (nonempty : text ≠ [])
    (fixed : ∀ char ∈ start.tail, goesOn char = true) : start.length ≤ text.length := by
  have whole := Text.append_of_after?_eq_some found
  rcases List.append_eq_append_iff.mp whole with ⟨others, rfl, -⟩ | ⟨others, rfl, rfl⟩
  · rw [List.length_append]
    exact Nat.le_add_right _ _
  · -- The characters that lie in the text behind would have to go on with a token.
    cases others with
    | nil => simp
    | cons char others =>
        have behind : char ∈ (text ++ char :: others).tail := by
          rw [List.tail_append_of_ne_nil nonempty]
          simp
        have := apart char rfl
        rw [fixed char behind] at this
        cases this

theorem opening_append_le (apart : Apart tail) (nonempty : text ≠ []) {start : List Char}
    (fixed : ∀ char ∈ start.tail, goesOn char = true) :
    extent.opening (text ++ tail) start (fun _ => 0) ≤ text.length := by
  rw [extent.opening]
  split
  next rest found => exact length_le_of_after? apart found nonempty fixed
  next => exact Nat.zero_le _

theorem goesOn_mark (mark : Punct) : ∀ char ∈ mark.chars.tail, goesOn char = true := by
  rw [← List.all_eq_true]
  cases mark <;> decide

/-- No match but that of spaces or a comment reaches into the text behind. -/
theorem extent_append_le (apart : Apart tail) (nonempty : text ≠ []) : (pattern : Pattern) →
    pattern ≠ plain .spaces → pattern ≠ plain .lineComment →
      pattern.extent (text ++ tail) ≤ text.length
  | plain .spaces, other, _ => absurd rfl other
  | plain .lineComment, _, other => absurd rfl other
  | plain .number, _, _ => by
      have whole := run_append_le isDigit text (ends_digit apart)
      have fraction : fractionLength (text.drop (run isDigit (text ++ tail)) ++ tail) ≤ _ :=
        fractionLength_append_le apart
      rw [← List.drop_append_of_le_length whole, List.length_drop] at fraction
      simp only [extent]
      split <;> omega
  | plain .fraction, _, _ => fractionLength_append_le apart
  | plain .word, _, _ => wordLength_append_le apart
  | plain .domainWord, _, _ => by
      have domain : wordLength (text ++ tail) ≤ text.length := wordLength_append_le apart
      have name := qualifiedLength_append_le (wordLength (text ++ tail)) apart
        (text.drop (wordLength (text ++ tail)))
      rw [List.length_drop] at name
      rw [extent_domainWord, List.drop_append_of_le_length domain]
      omega
  | plain (.punct mark), _, _ => opening_append_le apart nonempty (goesOn_mark mark)
  | opened .blockComment, _, _ | opened .string, _, _ | opened .regexp, _, _
  | opened .chevron, _, _ => opening_append_le apart nonempty (List.all_eq_true.mp (by decide))

/-- Where a space begins, there begins nothing else. -/
theorem extent_of_space {char : Char} (space : isSpace char = true) (pattern : Pattern)
    (other : pattern ≠ plain .spaces) (rest : List Char) : pattern.extent (char :: rest) = 0 := by
  rcases eq_of_isSpace space with rfl | rfl | rfl | rfl | rfl <;> cases pattern with
  | opened token => cases token <;> rfl
  | plain token =>
      cases token with
      | spaces => exact absurd rfl other
      | punct mark => cases mark <;> rfl
      | _ => rfl

/-- Where a line comment begins, nothing else takes more than one character. -/
theorem extent_of_slashes (rest : List Char) (pattern : Pattern)
    (other : pattern ≠ plain .lineComment) : pattern.extent ('/' :: '/' :: rest) ≤ 1 := by
  cases pattern with
  | opened token => cases token <;> exact Nat.le_of_ble_eq_true rfl
  | plain token =>
      cases token with
      | lineComment => exact absurd rfl other
      | punct mark => cases mark <;> exact Nat.le_of_ble_eq_true rfl
      | _ => exact Nat.le_of_ble_eq_true rfl

theorem run_append_of_lt {accept : Char → Bool} (inside : run accept text < text.length)
    (tail : List Char) : run accept (text ++ tail) = run accept text := by
  induction text with
  | nil => cases inside
  | cons first others ih =>
      rw [run, List.takeWhile_cons] at inside
      rw [run, run, List.cons_append, List.takeWhile_cons, List.takeWhile_cons]
      split at inside
      next accepted =>
        rw [if_pos accepted, if_pos accepted]
        exact congrArg Nat.succ (ih (Nat.lt_of_succ_lt_succ inside))
      next other => rw [if_neg other, if_neg other]

section Longest

variable {pattern : Pattern} {length : Nat} (found : longest? text = some (pattern, length))

include found

/-- Spaces do not reach into the text behind, unless they are all of the text. -/
theorem spaces_append_le (ends : pattern = plain .spaces → tail = [] ∨ length < text.length) :
    (plain .spaces).extent (text ++ tail) ≤ text.length := by
  have bounds := longest?_bounds found
  have taken := extent_eq_of_longest? found
  obtain ⟨first, others, rfl⟩ := List.exists_cons_of_length_pos (show 0 < text.length by omega)
  by_cases same : pattern = plain .spaces
  · subst same
    rcases ends rfl with rfl | inside
    · rw [List.append_nil]
      exact extent_le _ _
    · rw [← taken] at inside
      exact Nat.le_trans (Nat.le_of_eq (run_append_of_lt inside tail)) (Nat.le_of_lt inside)
  · have visible : isSpace first = false := by
      by_contra space
      have := extent_of_space (Bool.eq_true_of_not_eq_false space) pattern same others
      omega
    rw [extent, run, List.cons_append, List.takeWhile_cons, visible]
    exact Nat.zero_le _

/-- A line comment does not reach into the text behind, unless it is all of the text. -/
theorem comment_append_le (apart : Apart tail)
    (ends : pattern = plain .lineComment → tail = [] ∨ length < text.length) :
    (plain .lineComment).extent (text ++ tail) ≤ text.length := by
  have bounds := longest?_bounds found
  have taken := extent_eq_of_longest? found
  have nonempty : text ≠ [] := List.ne_nil_of_length_pos (by omega)
  rw [extent, extent.opening]
  split
  next rest opens =>
    have within := length_le_of_after? apart opens nonempty (List.all_eq_true.mp (by decide))
    obtain ⟨others, opens', rfl⟩ := after?_of_append opens within
    have here := (Text.append_of_after?_eq_some opens').symm
    have comment : (plain .lineComment).extent text = 2 + run (· != '\n') others := by
      rw [here]
      rfl
    have longest := extent_le_of_longest? found (plain .lineComment)
    have total := congrArg List.length here
    rw [List.length_append] at total
    simp only [List.length_cons, List.length_nil] at total ⊢
    by_cases same : pattern = plain .lineComment
    · subst same
      rcases ends rfl with rfl | inside
      · have := run_le (· != '\n') (others ++ [])
        rw [List.append_nil] at this ⊢
        omega
      · have := run_append_of_lt (show run (· != '\n') others < others.length by omega) tail
        omega
    · have := extent_of_slashes others pattern same
      rw [show '/' :: '/' :: others = text from here.symm] at this
      omega
  next => exact Nat.zero_le _

/-- The longest match is the same when other text stands behind. Spaces and a line comment
must end within the text. -/
theorem longest?_append (apart : Apart tail)
    (ends : pattern = plain .spaces ∨ pattern = plain .lineComment →
      tail = [] ∨ length < text.length) :
    longest? (text ++ tail) = some (pattern, length) := by
  have bounds := longest?_bounds found
  have nonempty : text ≠ [] := List.ne_nil_of_length_pos (by omega)
  have bound (other : Pattern) : other.extent (text ++ tail) ≤ text.length := by
    by_cases spaces : other = plain .spaces
    · exact spaces ▸ spaces_append_le found (ends ∘ .inl)
    · by_cases comment : other = plain .lineComment
      · exact comment ▸ comment_append_le found apart (ends ∘ .inr)
      · exact extent_append_le apart nonempty other spaces comment
  have same (other : Pattern) : other.extent text = other.extent (text ++ tail) :=
    extent_cut (bound (plain .word)) other (bound other)
  rw [← found, longest?, longest?]
  simp only [same]

end Longest

end Pattern

namespace Literal

theorem comment?_append {length : Nat} (found : comment? text = some length) (tail : List Char) :
    comment? (text ++ tail) = some length := by
  fun_induction comment? text generalizing length with
  | case1 => cases found
  | case2 rest => exact found
  | case3 first rest notEnd ih =>
      obtain ⟨more, inside, rfl⟩ := Option.map_eq_some_iff.mp found
      rw [List.cons_append, comment?, ih inside]
      · rfl
      · rintro others rfl same
        cases rest with
        | nil => cases inside
        | cons second rest =>
            cases same
            exact notEnd rest rfl rfl

theorem string?_append {value : List Char} {length : Nat}
    (found : string? text = some (value, length)) (tail : List Char) :
    string? (text ++ tail) = some (value, length) := by
  fun_induction string? text generalizing value length with
  | case1 => cases found
  | case2 rest => exact found
  | case3 escaped rest ih =>
      obtain ⟨⟨inner, more⟩, inside, same⟩ := Option.map_eq_some_iff.mp found
      rw [List.cons_append, List.cons_append, string?, ih inside, Option.map_some, same]
  | case4 first rest notEnd notEscape ih =>
      obtain ⟨⟨inner, more⟩, inside, same⟩ := Option.map_eq_some_iff.mp found
      rw [List.cons_append, string?, ih inside, Option.map_some, same]
      · exact notEnd
      · rintro escaped others rfl same
        cases rest with
        | nil => cases inside
        | cons second rest => exact notEscape second rest rfl rfl

theorem regexp?_append {value : List Char} {length : Nat}
    (found : regexp? text = some (value, length)) (tail : List Char) :
    regexp? (text ++ tail) = some (value, length) := by
  fun_induction regexp? text generalizing value length with
  | case1 => cases found
  | case2 rest => exact found
  | case3 escaped rest ih =>
      obtain ⟨⟨inner, more⟩, inside, same⟩ := Option.map_eq_some_iff.mp found
      rw [List.cons_append, List.cons_append, regexp?, ih inside, Option.map_some, same]
  | case4 first rest notEnd notEscape ih =>
      obtain ⟨⟨inner, more⟩, inside, same⟩ := Option.map_eq_some_iff.mp found
      rw [List.cons_append, regexp?, ih inside, Option.map_some, same]
      · exact notEnd
      · rintro escaped others rfl same
        cases rest with
        | nil => cases inside
        | cons second rest => exact notEscape second rest rfl rfl

/-- A run of template text that ends before a delimiter ends there in a longer text. -/
theorem template_append {value rest : List Char} {length : Nat} {first second : Char}
    (found : template text = (value, length))
    (ends : text.drop length = first :: second :: rest) (tail : List Char) :
    template (text ++ tail) = (value, length) := by
  fun_induction template text generalizing value length with
  | case1 =>
      cases found
      cases ends
  | case2 rest | case3 rest =>
      cases found
      rw [List.cons_append, List.cons_append, template]
  | case4 others inner more inside ih =>
      cases found
      rw [List.cons_append, List.cons_append, List.cons_append, template, ih inside ends]
  | case5 others inner more inside ih | case6 others inner more inside ih
  | case7 others inner more inside ih =>
      cases found
      rw [List.cons_append, List.cons_append, template, ih inside ends]
  | case8 char others notEnd notOpening notHash notGreater notLess notBackslash inner more inside
      ih =>
      cases found
      -- The delimiter lies further on, so two characters more are there to be looked at.
      have room := congrArg List.length ends
      simp only [List.drop_succ_cons, List.length_drop, List.length_cons] at room
      obtain ⟨next, third, others, rfl⟩ := exists_cons_cons (show 2 ≤ others.length by omega)
      rw [List.cons_append, template, ih inside ends]
      · rintro _ rfl same
        cases same
        exact notEnd _ rfl rfl
      · rintro _ rfl same
        cases same
        exact notOpening _ rfl rfl
      · rintro _ rfl same
        cases same
        exact notHash _ rfl rfl
      · rintro _ rfl same
        cases same
        exact notGreater _ rfl rfl
      · rintro _ rfl same
        cases same
        exact notLess _ rfl rfl
      · rintro _ rfl same
        cases same
        exact notBackslash _ rfl rfl

end Literal

/-- A run of template text that ends before a delimiter ends there in a longer text. -/
theorem textEnd_append (base : Nat) (tail : List Char) {cursor : Cursor} {first second : Char}
    {rest : List Char} (ends : (textEnd cursor).rest = first :: second :: rest) :
    textEnd (cursor.widen base tail) = (textEnd cursor).widen base tail ∧
      textPart (cursor.widen base tail) = partsShift base (textPart cursor) := by
  have same : Literal.template (cursor.rest ++ tail) = Literal.template cursor.rest :=
    Literal.template_append rfl ends tail
  have place : textEnd (cursor.widen base tail) = (textEnd cursor).widen base tail := by
    show (cursor.widen base tail).advance (Literal.template (cursor.rest ++ tail)).2 = _
    rw [same]
    exact Cursor.advance_widen (Literal.template_le _)
  exact ⟨place, textPart_widen same place⟩

theorem ReadsBody.rest_ne_nil {depth : Nat} {cursor next : Cursor} {tokens : List Lexeme}
    {close : Nat} (reads : ReadsBody depth cursor tokens close next) : cursor.rest ≠ [] := by
  obtain ⟨reading, _⟩ := reads.interpolation_eq 0
  exact Token.rest_ne_nil reading

mutual

/-- A token is read again when other text stands behind. Spaces and a line comment must end
before. The induction is on the reading. -/
theorem Reads.widen (base : Nat) (apart : Apart tail) {cursor next : Cursor} {lexeme : Lexeme} :
    Reads cursor lexeme next →
      (lexeme.token = .whitespace ∨ lexeme.token = .lineComment → tail = [] ∨ next.rest ≠ []) →
        Reads (cursor.widen base tail) (lexeme.shift base) (next.widen base tail)
  | @Reads.plain _ token length longest, ends => by
      have bounds := Pattern.longest?_bounds longest
      have longest' := Pattern.longest?_append longest apart (by
        intro runs
        have known : token.read (cursor.rest.take length) = .whitespace ∨
            token.read (cursor.rest.take length) = .lineComment := by
          rcases runs with same | same <;> cases same
          · exact .inl rfl
          · exact .inr rfl
        refine (ends known).imp_right fun nonempty => ?_
        simpa [Cursor.advance] using nonempty)
      have place : (cursor.widen base tail).advance length = _ := Cursor.advance_widen bounds.2
      have reads : Reads (cursor.widen base tail) _ _ := .plain longest'
      rw [place, show (cursor.widen base tail).rest = cursor.rest ++ tail from rfl,
        List.take_append_of_le_length bounds.2] at reads
      rw [Lexeme.shift, shift_plain (plain_read _ _)]
      exact reads
  | @Reads.blockComment _ length _ longest closed, _ => by
      have place : (cursor.widen base tail).advance length = _ :=
        Cursor.advance_widen (Pattern.longest?_bounds longest).2
      have reads : Reads (cursor.widen base tail) _ _ :=
        .blockComment (Pattern.longest?_append longest apart (by simp))
          (by rw [place]; exact Literal.comment?_append closed tail)
      rw [place, Cursor.advance_widen (Literal.comment?_le closed)] at reads
      exact reads
  | @Reads.string _ _ length _ longest closed, _ => by
      have place : (cursor.widen base tail).advance length = _ :=
        Cursor.advance_widen (Pattern.longest?_bounds longest).2
      have reads : Reads (cursor.widen base tail) _ _ :=
        .string (Pattern.longest?_append longest apart (by simp))
          (by rw [place]; exact Literal.string?_append closed tail)
      rw [place, Cursor.advance_widen (Literal.string?_le closed)] at reads
      exact reads
  | @Reads.regexp _ _ flags length more longest closed letters, _ => by
      have place : (cursor.widen base tail).advance length = _ :=
        Cursor.advance_widen (Pattern.longest?_bounds longest).2
      have body := Literal.regexp?_le closed
      have letters' : (((cursor.widen base tail).advance length).rest.drop more).takeWhile
          isLetter = flags := by
        rw [place, show ((cursor.advance length).widen base tail).rest =
          (cursor.advance length).rest ++ tail from rfl, List.drop_append_of_le_length body,
          ← letters]
        exact (Pattern.takeWhile_of_local isLetter
          (Pattern.run_append_le isLetter _ (Pattern.ends_letter apart))).symm
      have within : flags.length ≤ (cursor.advance length).rest.length - more := by
        rw [← letters, ← List.length_drop]
        exact (List.takeWhile_sublist _).length_le
      have reads : Reads (cursor.widen base tail) _ _ :=
        .regexp (Pattern.longest?_append longest apart (by simp))
          (by rw [place]; exact Literal.regexp?_append closed tail) letters'
      rw [place, Cursor.advance_widen (Nat.add_le_of_le_sub' body within)] at reads
      exact reads
  | @Reads.chevron _ _ _ length longest inside, _ => by
      have place : (cursor.widen base tail).advance length = _ :=
        Cursor.advance_widen (Pattern.longest?_bounds longest).2
      have parts := inside.widen base apart
      rw [← place] at parts
      have reads : Reads (cursor.widen base tail) _ _ :=
        .chevron (Pattern.longest?_append longest apart (by simp)) parts
      rw [Lexeme.shift, shift]
      exact reads

theorem ReadsParts.widen (base : Nat) (apart : Apart tail) {cursor next : Cursor}
    {parts : List TemplatePart} : ReadsParts cursor parts next →
      ReadsParts (cursor.widen base tail) (partsShift base parts) (next.widen base tail)
  | .close ends => by
      obtain ⟨place, same⟩ := textEnd_append base tail ends
      have reads : ReadsParts (cursor.widen base tail) _ _ :=
        .close (by rw [place]; exact congrArg (· ++ tail) ends)
      rw [place, Cursor.advance_widen (by rw [ends]; simp), same] at reads
      exact reads
  | .interpolation opens body more => by
      obtain ⟨place, same⟩ := textEnd_append base tail opens
      have inside : ((textEnd cursor).widen base tail).advance 2 = _ :=
        Cursor.advance_widen (by rw [opens]; simp)
      have reads : ReadsParts (cursor.widen base tail) _ _ :=
        .interpolation (by rw [place]; exact congrArg (· ++ tail) opens)
          (by rw [place, inside]; exact body.widen base apart) (more.widen base apart)
      rw [place, same] at reads
      rw [partsShift_append, partsShift, lexemesShift_eq]
      exact reads

theorem ReadsBody.widen (base : Nat) (apart : Apart tail) {depth : Nat} {cursor next : Cursor}
    {tokens : List Lexeme} {close : Nat} : ReadsBody depth cursor tokens close next →
      ReadsBody depth (cursor.widen base tail) (tokens.map (Lexeme.shift base)) (close + base)
        (next.widen base tail)
  | .close last => .close (last.widen base apart (by simp))
  | .inner first stays more =>
      .inner (first.widen base apart fun _ => .inr more.rest_ne_nil)
        (closes_shift_iff.not.mpr stays) (by
          rw [Lexeme.shift, depthAfter_shift]
          exact more.widen base apart)

end

end Token

end Krl

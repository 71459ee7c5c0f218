import Krl.Token.Lexer

/-!
# Reading a text that is cut

What is found at the beginning of a text is found there again when the text is cut off
somewhere behind it. The longest match has this property because no pattern looks past
what it matches, and the rest of a literal has it because its end is a fixed delimiter.
-/

namespace Krl.Token

/-- A length that stays the same when the text is cut off behind it. -/
def Local (length : List Char → Nat) : Prop :=
  ∀ text tail, length (text ++ tail) ≤ text.length → length text = length (text ++ tail)

theorem eq_of_isSpace {char : Char} (space : isSpace char = true) :
    char = ' ' ∨ char = '\t' ∨ char = '\r' ∨ char = '\n' ∨ char = '\x0c' := by
  simpa [isSpace, or_assoc] using space

namespace Pattern

theorem takeWhile_of_local (accept : Char → Bool) {text tail : List Char}
    (within : run accept (text ++ tail) ≤ text.length) :
    text.takeWhile accept = (text ++ tail).takeWhile accept := by
  induction text with
  | nil =>
      simp only [run, List.nil_append, List.length_nil, Nat.le_zero,
        List.length_eq_zero_iff] at within
      rw [List.nil_append, within, List.takeWhile_nil]
  | cons first others ih =>
      rw [run, List.cons_append, List.takeWhile_cons] at within
      rw [List.cons_append, List.takeWhile_cons, List.takeWhile_cons]
      cases accepted : accept first with
      | false => rfl
      | true =>
          simp only [accepted, if_true, List.length_cons, Nat.add_le_add_iff_right] at within ⊢
          rw [ih within]

theorem take_run (accept : Char → Bool) (chars : List Char) :
    chars.take (run accept chars) = chars.takeWhile accept :=
  (List.prefix_iff_eq_take.mp (List.takeWhile_prefix accept)).symm

theorem local_run (accept : Char → Bool) : Local (run accept) :=
  fun _ _ within => congrArg List.length (takeWhile_of_local accept within)

theorem local_wordLength : Local wordLength := by
  intro text tail within
  cases text with
  | nil =>
      rw [List.nil_append, List.length_nil, Nat.le_zero] at within
      rw [List.nil_append, within, wordLength]
  | cons first others =>
      rw [List.cons_append, wordLength] at within ⊢
      rw [wordLength]
      split at within
      next starts =>
        rw [if_pos starts, if_pos starts, local_run isWordPart others tail]
        rw [List.length_cons] at within
        omega
      next other => rw [if_neg other, if_neg other]

theorem local_fractionLength : Local fractionLength := by
  intro text tail within
  cases text with
  | nil =>
      rw [List.nil_append, List.length_nil, Nat.le_zero] at within
      rw [List.nil_append, within, fractionLength]
      simp
  | cons first others =>
      by_cases point : first = '.'
      · subst point
        rw [List.cons_append, fractionLength] at within ⊢
        rw [fractionLength]
        by_cases empty : run isDigit (others ++ tail) = 0
        · have := local_run isDigit others tail (by omega)
          rw [if_pos empty, if_pos (by omega)]
        · rw [if_neg empty, List.length_cons] at within
          have := local_run isDigit others tail (by omega)
          rw [this]
      · have zero : ∀ rest, fractionLength (first :: rest) = 0 := by
          intro rest
          rw [fractionLength.eq_def]
          split
          next same => exact absurd (List.cons.inj same).1 point
          next => rfl
        rw [List.cons_append, zero, zero]

theorem after?_append {start text rest : List Char} (found : Text.after? start text = some rest)
    (tail : List Char) : Text.after? start (text ++ tail) = some (rest ++ tail) := by
  fun_induction Text.after? start text with
  | case1 =>
      cases found
      rw [Text.after?]
  | case2 => cases found
  | case3 expected start others ih =>
      rw [List.cons_append, Text.after?, if_pos rfl]
      exact ih found
  | case4 => cases found

theorem after?_of_append {start text tail rest : List Char}
    (found : Text.after? start (text ++ tail) = some rest) (within : start.length ≤ text.length) :
    ∃ others, Text.after? start text = some others ∧ rest = others ++ tail := by
  induction start generalizing text with
  | nil =>
      rw [Text.after?] at found
      cases found
      exact ⟨text, by rw [Text.after?], rfl⟩
  | cons expected start ih =>
      cases text with
      | nil => cases within
      | cons first others =>
          rw [List.cons_append, Text.after?] at found
          split at found
          next same =>
            rw [Text.after?, if_pos same]
            exact ih found (Nat.le_of_succ_le_succ within)
          next => cases found

theorem local_opening (start : List Char) {more : List Char → Nat} (further : Local more) :
    Local fun chars => extent.opening chars start more := by
  intro text tail within
  simp only [extent.opening] at within ⊢
  split at within
  next rest found =>
    obtain ⟨others, found', rfl⟩ := after?_of_append found (by omega)
    have length := congrArg List.length (Text.append_of_after?_eq_some found')
    rw [List.length_append] at length
    simp only [found']
    rw [further others tail (by omega)]
  next missing =>
    split
    next rest found =>
      rw [after?_append found] at missing
      cases missing
    next => rfl

theorem local_number : Local (plain .number).extent := by
  intro text tail within
  simp only [extent] at within ⊢
  by_cases empty : run isDigit (text ++ tail) = 0
  · rw [local_run isDigit text tail (by omega), if_pos empty, if_pos empty]
  · rw [if_neg empty] at within
    have whole := local_run isDigit text tail (by omega)
    have inside := run_le isDigit text
    rw [whole, if_neg empty, if_neg empty]
    rw [← whole, List.drop_append_of_le_length inside] at within ⊢
    rw [local_fractionLength (text.drop (run isDigit text)) tail]
    rw [List.length_drop]
    omega

/-- Length of a name in a domain that takes some characters, which the text follows. -/
def qualifiedLength (domain : Nat) : List Char → Nat
  | ':' :: rest =>
      if domain = 0 ∨ wordLength rest = 0 then 0 else domain + 1 + wordLength rest
  | _ => 0

theorem extent_domainWord (chars : List Char) :
    (plain .domainWord).extent chars =
      qualifiedLength (wordLength chars) (chars.drop (wordLength chars)) :=
  rfl

theorem qualifiedLength_append {domain : Nat} {text tail : List Char}
    (within : qualifiedLength domain (text ++ tail) ≤ domain + text.length) :
    qualifiedLength domain text = qualifiedLength domain (text ++ tail) := by
  cases text with
  | nil =>
      rw [List.nil_append] at within ⊢
      rw [List.length_nil] at within
      fun_cases qualifiedLength domain tail with
      | case1 => rfl
      | case2 rest nonempty =>
          rw [qualifiedLength, if_neg nonempty] at within
          omega
      | case3 => rfl
  | cons first others =>
      by_cases colon : first = ':'
      · subst colon
        rw [List.cons_append, qualifiedLength] at within ⊢
        rw [qualifiedLength]
        by_cases empty : domain = 0 ∨ wordLength (others ++ tail) = 0
        · have := local_wordLength others tail
          rw [if_pos empty, if_pos (by omega)]
        · rw [if_neg empty, List.length_cons] at within
          rw [local_wordLength others tail (by omega)]
      · have zero : ∀ rest, qualifiedLength domain (first :: rest) = 0 := by
          intro rest
          rw [qualifiedLength.eq_def]
          split
          next same => exact absurd (List.cons.inj same).1 colon
          next => rfl
        rw [List.cons_append, zero, zero]

/-- A match is the same in a text that is cut off behind it. The text must not be cut off
within the word at its beginning, which a domain would be. -/
theorem extent_cut {text tail : List Char} (word : wordLength (text ++ tail) ≤ text.length) :
    (pattern : Pattern) → pattern.extent (text ++ tail) ≤ text.length →
      pattern.extent text = pattern.extent (text ++ tail)
  | plain .spaces, within => local_run isSpace text tail within
  | plain .lineComment, within => local_opening _ (local_run _) text tail within
  | plain .number, within => local_number text tail within
  | plain .fraction, within => local_fractionLength text tail within
  | plain .word, within => local_wordLength text tail within
  | plain .domainWord, within => by
      have domain := local_wordLength text tail word
      have inside := wordLength_le text
      rw [extent_domainWord, extent_domainWord, ← domain,
        List.drop_append_of_le_length inside]
      rw [extent_domainWord, ← domain, List.drop_append_of_le_length inside] at within
      refine qualifiedLength_append (Nat.le_trans within ?_)
      rw [List.length_drop]
      omega
  | plain (.punct _), within | opened .blockComment, within | opened .string, within
  | opened .regexp, within | opened .chevron, within =>
      local_opening _ (fun _ _ _ => rfl) text tail within

/-- No pattern matches more than what is found, and none matches anything if nothing is. -/
theorem extent_le_longest? (chars : List Char) (pattern : Pattern) :
    pattern.extent chars ≤ (longest? chars).elim 0 Prod.snd := by
  let longer (best : Option (Pattern × Nat)) (pattern : Pattern) : Option (Pattern × Nat) :=
    if (best.elim 0 Prod.snd) < pattern.extent chars then some (pattern, pattern.extent chars)
    else best
  have step : ∀ best pattern, (longer best pattern).elim 0 Prod.snd =
      max (best.elim 0 Prod.snd) (pattern.extent chars) := by
    intro best pattern
    simp only [longer]
    split
    · rw [Option.elim_some]
      omega
    · omega
  suffices every : ∀ (patterns : List Pattern) (start : Option (Pattern × Nat)),
      start.elim 0 Prod.snd ≤ (patterns.foldl longer start).elim 0 Prod.snd ∧
        ∀ pattern ∈ patterns,
          pattern.extent chars ≤ (patterns.foldl longer start).elim 0 Prod.snd from
    (every all none).2 pattern (mem_all pattern)
  intro patterns
  induction patterns with
  | nil => exact fun start => ⟨Nat.le_refl _, List.forall_mem_nil _⟩
  | cons candidate others ih =>
      intro start
      obtain ⟨grows, bound⟩ := ih (longer start candidate)
      rw [step] at grows
      rw [List.foldl_cons, List.forall_mem_cons]
      exact ⟨by omega, by omega, bound⟩

/-- No pattern matches more than the one with the longest match. -/
theorem extent_le_of_longest? {chars : List Char} {best : Pattern} {length : Nat}
    (found : longest? chars = some (best, length)) (pattern : Pattern) :
    pattern.extent chars ≤ length := by
  simpa only [found, Option.elim_some] using extent_le_longest? chars pattern

/-- The length found is that of the match of the pattern found. -/
theorem extent_eq_of_longest? {chars : List Char} {pattern : Pattern} {length : Nat}
    (found : longest? chars = some (pattern, length)) : pattern.extent chars = length := by
  let longer (best : Option (Pattern × Nat)) (pattern : Pattern) : Option (Pattern × Nat) :=
    if (best.elim 0 Prod.snd) < pattern.extent chars then some (pattern, pattern.extent chars)
    else best
  suffices every : ∀ (patterns : List Pattern) (start : Option (Pattern × Nat)),
      (∀ best ∈ start, best.1.extent chars = best.2) →
        ∀ best ∈ patterns.foldl longer start, best.1.extent chars = best.2 from
    every all none (by simp) (pattern, length) found
  intro patterns
  induction patterns with
  | nil => exact fun _ matched => matched
  | cons candidate others ih =>
      intro start matched
      refine ih _ ?_
      intro best chosen
      simp only [longer] at chosen
      split at chosen
      · cases chosen
        rfl
      · exact matched best chosen

/-- The longest match is the same in a text that is cut off behind it. -/
theorem longest?_cut {text tail : List Char} {pattern : Pattern} {length : Nat}
    (found : longest? (text ++ tail) = some (pattern, length)) (within : length ≤ text.length) :
    longest? text = some (pattern, length) := by
  have bound : ∀ pattern : Pattern, pattern.extent (text ++ tail) ≤ text.length :=
    fun pattern => Nat.le_trans (extent_le_of_longest? found pattern) within
  have same : ∀ pattern : Pattern, pattern.extent text = pattern.extent (text ++ tail) :=
    fun pattern => extent_cut (bound (plain .word)) pattern (bound pattern)
  rw [← found, longest?, longest?]
  simp only [same]

end Pattern

namespace Literal

theorem exists_cons_cons {chars : List Char} (long : 2 ≤ chars.length) :
    ∃ first second others, chars = first :: second :: others := by
  match chars, long with
  | first :: second :: others, _ => exact ⟨first, second, others, rfl⟩

theorem comment?_le {chars : List Char} {length : Nat} (found : comment? chars = some length) :
    length ≤ chars.length := by
  fun_induction comment? chars generalizing length with
  | case1 => cases found
  | case2 rest =>
      cases found
      simp
  | case3 first rest _ ih =>
      obtain ⟨more, inside, rfl⟩ := Option.map_eq_some_iff.mp found
      exact Nat.succ_le_succ (ih inside)

theorem comment?_cut {text tail : List Char} {length : Nat}
    (found : comment? (text ++ tail) = some length) (within : length ≤ text.length) :
    comment? text = some length := by
  generalize whole : text ++ tail = chars at found
  fun_induction comment? chars generalizing text length with
  | case1 => cases found
  | case2 rest =>
      cases found
      obtain ⟨first, second, others, rfl⟩ := exists_cons_cons within
      cases whole
      rw [comment?]
  | case3 first rest notEnd ih =>
      obtain ⟨more, inside, rfl⟩ := Option.map_eq_some_iff.mp found
      obtain ⟨head, others, rfl⟩ := List.exists_cons_of_length_pos (Nat.zero_lt_of_lt within)
      cases whole
      rw [comment?, ih (Nat.le_of_succ_le_succ within) rfl inside]
      · rfl
      · rintro rest rfl rfl
        exact notEnd _ rfl rfl

theorem string?_le {chars value : List Char} {length : Nat}
    (found : string? chars = some (value, length)) : length ≤ chars.length := by
  fun_induction string? chars generalizing value length with
  | case1 => cases found
  | case2 rest =>
      cases found
      simp
  | case3 escaped rest ih =>
      obtain ⟨⟨inner, more⟩, inside, same⟩ := Option.map_eq_some_iff.mp found
      have := ih inside
      simp only at same
      split at same <;> cases same <;> exact Nat.succ_le_succ (Nat.succ_le_succ this)
  | case4 first rest _ _ ih =>
      obtain ⟨⟨inner, more⟩, inside, same⟩ := Option.map_eq_some_iff.mp found
      cases same
      exact Nat.succ_le_succ (ih inside)

theorem string?_cut {text tail value : List Char} {length : Nat}
    (found : string? (text ++ tail) = some (value, length)) (within : length ≤ text.length) :
    string? text = some (value, length) := by
  generalize whole : text ++ tail = chars at found
  fun_induction string? chars generalizing text value length with
  | case1 => cases found
  | case2 rest =>
      cases found
      obtain ⟨head, others, rfl⟩ := List.exists_cons_of_length_pos within
      cases whole
      rw [string?]
  | case3 escaped rest ih =>
      obtain ⟨⟨inner, more⟩, inside, same⟩ := Option.map_eq_some_iff.mp found
      have length : length = more + 2 := by
        simp only at same
        split at same <;> cases same <;> rfl
      obtain ⟨first, second, others, rfl⟩ := exists_cons_cons (show 2 ≤ text.length by omega)
      cases whole
      rw [List.length_cons, List.length_cons] at within
      rw [string?, ih (show more ≤ others.length by omega) rfl inside, ← same]
      rfl
  | case4 first rest notEnd notEscape ih =>
      obtain ⟨⟨inner, more⟩, inside, same⟩ := Option.map_eq_some_iff.mp found
      cases same
      obtain ⟨head, others, rfl⟩ := List.exists_cons_of_length_pos (Nat.zero_lt_of_lt within)
      cases whole
      rw [string?, ih (Nat.le_of_succ_le_succ within) rfl inside]
      · rfl
      · exact notEnd
      · rintro escaped rest rfl rfl
        exact notEscape _ _ rfl rfl

theorem regexp?_le {chars value : List Char} {length : Nat}
    (found : regexp? chars = some (value, length)) : length ≤ chars.length := by
  fun_induction regexp? chars generalizing value length with
  | case1 => cases found
  | case2 rest =>
      cases found
      simp
  | case3 escaped rest ih =>
      obtain ⟨⟨inner, more⟩, inside, same⟩ := Option.map_eq_some_iff.mp found
      have := ih inside
      simp only at same
      split at same <;> cases same <;> exact Nat.succ_le_succ (Nat.succ_le_succ this)
  | case4 first rest _ _ ih =>
      obtain ⟨⟨inner, more⟩, inside, same⟩ := Option.map_eq_some_iff.mp found
      cases same
      exact Nat.succ_le_succ (ih inside)

theorem regexp?_cut {text tail value : List Char} {length : Nat}
    (found : regexp? (text ++ tail) = some (value, length)) (within : length ≤ text.length) :
    regexp? text = some (value, length) := by
  generalize whole : text ++ tail = chars at found
  fun_induction regexp? chars generalizing text value length with
  | case1 => cases found
  | case2 rest =>
      cases found
      obtain ⟨head, others, rfl⟩ := List.exists_cons_of_length_pos within
      cases whole
      rw [regexp?]
  | case3 escaped rest ih =>
      obtain ⟨⟨inner, more⟩, inside, same⟩ := Option.map_eq_some_iff.mp found
      have length : length = more + 2 := by
        simp only at same
        split at same <;> cases same <;> rfl
      obtain ⟨first, second, others, rfl⟩ := exists_cons_cons (show 2 ≤ text.length by omega)
      cases whole
      rw [List.length_cons, List.length_cons] at within
      rw [regexp?, ih (show more ≤ others.length by omega) rfl inside, ← same]
      rfl
  | case4 first rest notEnd notEscape ih =>
      obtain ⟨⟨inner, more⟩, inside, same⟩ := Option.map_eq_some_iff.mp found
      cases same
      obtain ⟨head, others, rfl⟩ := List.exists_cons_of_length_pos (Nat.zero_lt_of_lt within)
      cases whole
      rw [regexp?, ih (Nat.le_of_succ_le_succ within) rfl inside]
      · rfl
      · exact notEnd
      · rintro escaped rest rfl rfl
        exact notEscape _ _ rfl rfl

theorem template_le (chars : List Char) : (template chars).2 ≤ chars.length := by
  fun_induction template chars <;> simp_all

/-- A run of template text ends before a delimiter of two characters, which the cut must
leave. -/
theorem template_cut {text tail value : List Char} {length : Nat}
    (found : template (text ++ tail) = (value, length)) (within : length + 2 ≤ text.length) :
    template text = (value, length) := by
  generalize whole : text ++ tail = chars at found
  fun_induction template chars generalizing text value length with
  | case1 =>
      cases found
      obtain ⟨first, second, others, rfl⟩ := exists_cons_cons within
      cases whole
  | case2 rest =>
      cases found
      obtain ⟨first, second, others, rfl⟩ := exists_cons_cons within
      cases whole
      rw [template]
  | case3 rest =>
      cases found
      obtain ⟨first, second, others, rfl⟩ := exists_cons_cons within
      cases whole
      rw [template]
  | case4 rest inner more inside ih =>
      cases found
      obtain ⟨first, second, others, rfl⟩ := exists_cons_cons (Nat.le_of_add_left_le within)
      rw [List.length_cons, List.length_cons] at within
      obtain ⟨third, others, rfl⟩ := List.exists_cons_of_length_pos
        (show 0 < others.length by omega)
      cases whole
      rw [List.length_cons] at within
      rw [template, ih (show more + 2 ≤ others.length by omega) rfl inside]
  | case5 rest inner more inside ih | case6 rest inner more inside ih
  | case7 rest inner more inside ih =>
      cases found
      obtain ⟨first, second, others, rfl⟩ := exists_cons_cons (Nat.le_of_add_left_le within)
      cases whole
      rw [List.length_cons, List.length_cons] at within
      rw [template, ih (show more + 2 ≤ others.length by omega) rfl inside]
  | case8 first rest notEnd notOpening notHash notGreater notLess notBackslash inner more inside
      ih =>
      cases found
      obtain ⟨head, others, rfl⟩ := List.exists_cons_of_length_pos (Nat.zero_lt_of_lt within)
      cases whole
      rw [List.length_cons] at within
      rw [template, ih (show more + 2 ≤ others.length by omega) rfl inside]
      · rintro _ rfl rfl
        exact notEnd _ rfl rfl
      · rintro _ rfl rfl
        exact notOpening _ rfl rfl
      · rintro _ rfl rfl
        exact notHash _ rfl rfl
      · rintro _ rfl rfl
        exact notGreater _ rfl rfl
      · rintro _ rfl rfl
        exact notLess _ rfl rfl
      · rintro _ rfl rfl
        exact notBackslash _ rfl rfl

end Literal

end Krl.Token

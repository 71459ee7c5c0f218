import Krl.Proofs.Diagnostic.Message
import Krl.Proofs.Diagnostic.Trimming
import Krl.Proofs.Token.Patterns
import Mathlib.Data.List.Basic

/-!
# How clean a cleaned message is

Labels, annotations, and final punctuation are taken out of a message in one pass each. The messages
that stay as they are under all of the passes are those that have none of these. But what a pass
takes out may uncover something that an earlier one would have taken out, and then cleaning a second
time goes on. The main result tells these messages from the others.
-/

namespace Krl.Message

/-- What opens an annotation. -/
def opening : List Char := ['(', '@']

/-- A label stands in front. -/
def Labelled (chars : List Char) : Prop :=
  label 'E' <+: chars ∨ label 'e' <+: chars

/-- Nothing is left to be cleaned. -/
structure Cleaned (chars : List Char) : Prop where
  bare : Text.Bare chars
  unlabelled : ¬Labelled chars
  unannotated : ¬opening <:+: chars
  unended : ∀ char ∈ chars.getLast?, endsSentence char = false

theorem after?_eq_none_iff {start chars : List Char} :
    Text.after? start chars = none ↔ ¬start <+: chars := by
  constructor
  · rintro missing ⟨rest, rfl⟩
    rw [Token.Pattern.after?_eq_some_iff.mpr rfl] at missing
    cases missing
  · intro missing
    cases found : Text.after? start chars with
    | none => rfl
    | some rest => exact absurd ⟨rest, (Token.Pattern.after?_eq_some_iff.mp found).symm⟩ missing

section Labels

/-- A run of labels, each with the blanks behind it. -/
inductive Labels (initial : Char) : List Char → Prop where
  | nil : Labels initial []
  | cons {blanks others : List Char} (blank : ∀ char ∈ blanks, Text.isBlank char = true)
      (more : Labels initial others) : Labels initial (label initial ++ (blanks ++ others))

variable {initial : Char} {front rest : List Char}

theorem dropLabels_eq_self (unlabelled : ¬label initial <+: rest) :
    dropLabels initial rest = rest :=
  dropLabels_of_after? (after?_eq_none_iff.mpr unlabelled)

theorem dropLabels_label_append (initial : Char) (rest : List Char) :
    dropLabels initial (label initial ++ rest) = dropLabels initial (Text.trimStart rest) := by
  rw [dropLabels]
  split
  next rest' found =>
    obtain rfl := List.append_cancel_left (Token.Pattern.after?_eq_some_iff.mp found)
    rfl
  next missing =>
    exact absurd (List.prefix_append _ _) (after?_eq_none_iff.mp missing)

/-- Labels are dropped up to the first thing that is none. -/
theorem exists_labels (initial : Char) (chars : List Char) :
    ∃ front, chars = front ++ dropLabels initial chars ∧ Labels initial front ∧
      ¬label initial <+: dropLabels initial chars ∧
      ((∀ char ∈ chars.head?, Text.isBlank char = false) →
        ∀ char ∈ (dropLabels initial chars).head?, Text.isBlank char = false) := by
  fun_induction dropLabels initial chars with
  | case1 chars rest found _ ih =>
      obtain ⟨front, same, labels, unlabelled, starts⟩ := ih
      obtain ⟨blanks, split, blank, head⟩ := Text.trimStart_eq_iff.mp (rfl : Text.trimStart rest = _)
      refine ⟨label initial ++ (blanks ++ front), ?_, .cons blank labels, unlabelled,
        fun _ => starts head⟩
      rw [Token.Pattern.after?_eq_some_iff.mp found, List.append_assoc, List.append_assoc, ← same,
        ← split]
  | case2 chars missing =>
      exact ⟨[], rfl, .nil, after?_eq_none_iff.mp missing, id⟩

theorem dropLabels_sublist (initial : Char) (chars : List Char) :
    List.Sublist (dropLabels initial chars) chars := by
  obtain ⟨front, same, _⟩ := exists_labels initial chars
  have inside := List.sublist_append_right front (dropLabels initial chars)
  rwa [← same] at inside

theorem Labels.dropLabels_append (visible : Text.isBlank initial = false)
    (labels : Labels initial front) (starts : ∀ char ∈ rest.head?, Text.isBlank char = false)
    (unlabelled : ¬label initial <+: rest) : dropLabels initial (front ++ rest) = rest := by
  induction labels with
  | nil => exact dropLabels_eq_self unlabelled
  | cons blank more ih =>
      rename_i blanks others
      have head : ∀ char ∈ (others ++ rest).head?, Text.isBlank char = false := by
        cases more with
        | nil => exact starts
        | cons => exact fun char member => Option.some.inj member ▸ visible
      rw [List.append_assoc, dropLabels_label_append, List.append_assoc,
        Text.trimStart_eq_iff.mpr ⟨blanks, rfl, blank, head⟩, ih]

/-- What a message holds behind its labels, of which those with a capital letter come first. -/
inductive Unlabels : (raw body : List Char) → Prop where
  | intro {lead upper lower body trail : List Char}
      (leads : ∀ char ∈ lead, Text.isBlank char = true)
      (trails : ∀ char ∈ trail, Text.isBlank char = true)
      (bare : Text.Bare (upper ++ (lower ++ body)))
      (starts : ∀ char ∈ body.head?, Text.isBlank char = false)
      (uppers : Labels 'E' upper) (lowers : Labels 'e' lower)
      (noUpper : ¬label 'E' <+: lower ++ body) (noLower : ¬label 'e' <+: body) :
      Unlabels (lead ++ (upper ++ (lower ++ body)) ++ trail) body

theorem exists_unlabels (raw : List Char) : ∃ body, Unlabels raw body := by
  obtain ⟨lead, trail, same, leads, trails, bare⟩ := Text.trim_eq_iff.mp (rfl : Text.trim raw = _)
  generalize Text.trim raw = message at same bare
  obtain ⟨upper, split, uppers, noUpper, starts⟩ := exists_labels 'E' message
  generalize dropLabels 'E' message = behind at split noUpper starts
  obtain ⟨lower, split', lowers, noLower, starts'⟩ := exists_labels 'e' behind
  generalize dropLabels 'e' behind = body at split' noLower starts'
  subst same split split'
  exact ⟨body, .intro leads trails bare (starts' (starts bare.head)) uppers lowers noUpper noLower⟩

theorem Unlabels.eq {raw body : List Char} (unlabels : Unlabels raw body) :
    dropLabels 'e' (dropLabels 'E' (Text.trim raw)) = body := by
  obtain ⟨leads, trails, bare, starts, uppers, lowers, noUpper, noLower⟩ := unlabels
  rename_i lead upper lower trail
  have head : ∀ char ∈ (lower ++ body).head?, Text.isBlank char = false := by
    cases lowers with
    | nil => exact starts
    | cons => exact fun char member => Option.some.inj member ▸ rfl
  rw [Text.trim_eq_iff.mpr ⟨lead, trail, rfl, leads, trails, bare⟩,
    uppers.dropLabels_append rfl head noUpper, lowers.dropLabels_append rfl starts noLower]

end Labels

section Annotations

variable {mark : Char} {chars before rest : List Char}

theorem splitAtFirst?_opening_eq_none_iff :
    splitAtFirst? opening chars = none ↔ ¬opening <:+: chars := by
  induction chars with
  | nil => exact ⟨fun _ => by decide, fun _ => rfl⟩
  | cons char others ih =>
      rw [splitAtFirst?, List.infix_cons_iff, not_or, ← ih, ← after?_eq_none_iff]
      cases Text.after? opening (char :: others) with
      | none => simp only [Option.map_eq_none_iff, true_and]
      | some tail => simp only [reduceCtorEq, false_and]

theorem split_of_splitAtFirst? (found : splitAtFirst? opening chars = some (before, rest)) :
    chars = before ++ (opening ++ rest) ∧ ¬opening <:+: before := by
  induction chars generalizing before with
  | nil => cases found
  | cons char others ih =>
      rw [splitAtFirst?] at found
      split at found
      next tail here =>
        cases found
        rw [List.nil_append]
        exact ⟨Token.Pattern.after?_eq_some_iff.mp here, by decide⟩
      next missing =>
        obtain ⟨⟨before', rest'⟩, found', same⟩ := Option.map_eq_some_iff.mp found
        cases same
        obtain ⟨rfl, unopened⟩ := ih found'
        refine ⟨rfl, fun opened => ?_⟩
        rcases List.infix_cons_iff.mp opened with first | later
        · refine after?_eq_none_iff.mp missing (first.trans ?_)
          rw [List.cons_prefix_cons]
          exact ⟨rfl, List.prefix_append _ _⟩
        · exact unopened later

theorem splitAtFirst?_opening (unopened : ¬opening <:+: before) (rest : List Char) :
    splitAtFirst? opening (before ++ (opening ++ rest)) = some (before, rest) := by
  induction before with
  | nil =>
      rw [List.nil_append, opening, List.cons_append, splitAtFirst?, ← opening, ← List.cons_append,
        ← opening, Token.Pattern.after?_eq_some_iff.mpr rfl]
  | cons char others ih =>
      rw [List.infix_cons_iff, not_or] at unopened
      have missing : Text.after? opening (char :: (others ++ (opening ++ rest))) = none := by
        rw [after?_eq_none_iff]
        rintro first
        obtain ⟨rfl, second⟩ := List.cons_prefix_cons.mp first
        cases others with
        | nil => exact absurd (List.cons_prefix_cons.mp second).1 (by decide)
        | cons next others =>
            obtain ⟨rfl, _⟩ := List.cons_prefix_cons.mp second
            exact unopened.1 ⟨others, rfl⟩
      rw [List.cons_append, splitAtFirst?, missing, ih unopened.2]
      rfl

theorem split_of_afterLast? (found : afterLast? mark chars = some rest) :
    ∃ before, chars = before ++ mark :: rest ∧ mark ∉ rest := by
  induction chars with
  | nil => cases found
  | cons char others ih =>
      rw [afterLast?] at found
      split at found
      next tail found' =>
        cases found
        obtain ⟨before, rfl, absent⟩ := ih found'
        exact ⟨char :: before, rfl, absent⟩
      next missing =>
        split at found
        next same =>
          cases found
          exact ⟨[], by rw [same, List.nil_append], afterLast?_eq_none_iff.mp missing⟩
        next => cases found

/-- What is left of a text in front of its annotations and behind them. The first annotation runs up
to the last parenthesis of the text. There can be one more behind it, which is not closed. -/
inductive Keeps : (chars before after : List Char) → Prop where
  | all {chars : List Char} (unopened : ¬opening <:+: chars) : Keeps chars chars []
  | unclosed {before quoted : List Char} (unopened : ¬opening <:+: before)
      (unclosed : ')' ∉ quoted) : Keeps (before ++ (opening ++ quoted)) before []
  | closed {before quoted after : List Char} (unopened : ¬opening <:+: before)
      (last : ')' ∉ after) (unopened' : ¬opening <:+: after) :
      Keeps (before ++ (opening ++ (quoted ++ ')' :: after))) before after
  | reopened {before quoted after quoted' : List Char} (unopened : ¬opening <:+: before)
      (last : ')' ∉ after ++ (opening ++ quoted')) (unopened' : ¬opening <:+: after) :
      Keeps (before ++ (opening ++ (quoted ++ ')' :: (after ++ (opening ++ quoted'))))) before after

theorem exists_keeps (chars : List Char) : ∃ before after, Keeps chars before after := by
  cases first : splitAtFirst? opening chars with
  | none => exact ⟨chars, [], .all (splitAtFirst?_opening_eq_none_iff.mp first)⟩
  | some parts =>
      obtain ⟨before, annotation⟩ := parts
      obtain ⟨rfl, unopened⟩ := split_of_splitAtFirst? first
      cases last : afterLast? ')' annotation with
      | none => exact ⟨before, [], .unclosed unopened (afterLast?_eq_none_iff.mp last)⟩
      | some rest =>
          obtain ⟨quoted, rfl, absent⟩ := split_of_afterLast? last
          cases second : splitAtFirst? opening rest with
          | none =>
              exact ⟨before, rest,
                .closed unopened absent (splitAtFirst?_opening_eq_none_iff.mp second)⟩
          | some parts =>
              obtain ⟨after, quoted'⟩ := parts
              obtain ⟨rfl, unopened'⟩ := split_of_splitAtFirst? second
              exact ⟨before, after, .reopened unopened absent unopened'⟩

variable {after : List Char}

theorem Keeps.dropAnnotations_eq (keeps : Keeps chars before after) :
    dropAnnotations chars = before ++ after := by
  rw [dropAnnotations, ← opening]
  cases keeps with
  | all unopened =>
      rw [splitAtFirst?_opening_eq_none_iff.mpr unopened, List.append_nil]
  | unclosed unopened unclosed =>
      rw [splitAtFirst?_opening unopened, List.append_nil]
      simp only [afterLast?_eq_none_iff.mpr unclosed]
  | closed unopened last unopened' =>
      rw [splitAtFirst?_opening unopened]
      simp only [afterLast?_append last, splitAtFirst?_opening_eq_none_iff.mpr unopened']
  | reopened unopened last unopened' =>
      rw [splitAtFirst?_opening unopened]
      simp only [afterLast?_append last, splitAtFirst?_opening unopened']

theorem Keeps.unopened (keeps : Keeps chars before after) :
    ¬opening <:+: before ∧ ¬opening <:+: after := by
  cases keeps with
  | all unopened => exact ⟨unopened, by decide⟩
  | unclosed unopened _ => exact ⟨unopened, by decide⟩
  | closed unopened _ unopened' => exact ⟨unopened, unopened'⟩
  | reopened unopened _ unopened' => exact ⟨unopened, unopened'⟩

/-- Something is left out if there is an annotation. -/
theorem Keeps.length_lt (keeps : Keeps chars before after) (opened : opening <:+: chars) :
    (before ++ after).length < chars.length := by
  cases keeps with
  | all unopened => exact absurd opened unopened
  | unclosed _ _ => simp [opening]
  | closed _ _ _ =>
      simp only [List.length_append, List.length_cons, opening]
      omega
  | reopened _ _ _ =>
      simp only [List.length_append, List.length_cons, opening]
      omega

theorem length_dropAnnotations_lt (opened : opening <:+: chars) :
    (dropAnnotations chars).length < chars.length := by
  obtain ⟨before, after, keeps⟩ := exists_keeps chars
  rw [keeps.dropAnnotations_eq]
  exact keeps.length_lt opened

theorem dropAnnotations_eq_self (unopened : ¬opening <:+: chars) : dropAnnotations chars = chars := by
  rw [(Keeps.all unopened).dropAnnotations_eq, List.append_nil]

theorem length_dropAnnotations_le (chars : List Char) :
    (dropAnnotations chars).length ≤ chars.length := by
  by_cases opened : opening <:+: chars
  · exact Nat.le_of_lt (length_dropAnnotations_lt opened)
  · rw [dropAnnotations_eq_self opened]

end Annotations

section Ending

variable {front plain back : List Char}

/-- Two texts put together hold an annotation that neither of them holds just if one ends and the
other starts with the two parts of what opens it. -/
def Joins (before after : List Char) : Prop :=
  before.getLast? = some '(' ∧ after.head? = some '@'

theorem opening_infix_append_iff {before after : List Char} :
    opening <:+: before ++ after ↔
      opening <:+: before ∨ opening <:+: after ∨ Joins before after := by
  rw [List.infix_append_iff]
  constructor
  · rintro (inside | inside | ⟨left, right, same, ends, begins⟩)
    · exact .inl inside
    · exact .inr (.inl inside)
    · match left, same with
      | [], same =>
          obtain rfl : opening = right := same
          exact .inr (.inl begins.isInfix)
      | [_], same =>
          cases same
          obtain ⟨text, rfl⟩ := ends
          obtain ⟨text', rfl⟩ := begins
          exact .inr (.inr ⟨List.getLast?_concat, rfl⟩)
      | [_, _], same =>
          cases same
          exact .inl ends.isInfix
  · rintro (inside | inside | ⟨last, first⟩)
    · exact .inl inside
    · exact .inr (.inl inside)
    · obtain ⟨text, rfl⟩ := List.getLast?_eq_some_iff.mp last
      obtain ⟨text', rfl⟩ := List.head?_eq_some_iff.mp first
      exact .inr (.inr ⟨['('], ['@'], rfl, ⟨text, rfl⟩, ⟨text', rfl⟩⟩)

/-- The message without final punctuation and the blanks before that. -/
def dropEnding (chars : List Char) : List Char :=
  Text.trimEnd (Text.dropEndWhile endsSentence chars)

/-- A sentence ends in front of blanks and of the end of another sentence. -/
def EndsTwice (chars : List Char) : Prop :=
  ∃ text last blanks marks, chars = text ++ last :: (blanks ++ marks) ∧ endsSentence last = true ∧
    (blanks ≠ [] ∧ ∀ char ∈ blanks, Text.isBlank char = true) ∧
    (marks ≠ [] ∧ ∀ char ∈ marks, endsSentence char = true)

theorem not_endsSentence_of_isBlank {char : Char} (blank : Text.isBlank char = true) :
    endsSentence char = false := by
  rw [endsSentence, Bool.or_eq_false_iff, beq_eq_false_iff_ne, beq_eq_false_iff_ne]
  constructor
  · rintro rfl
    exact absurd blank (by decide)
  · rintro rfl
    exact absurd blank (by decide)

theorem exists_ending (plain : List Char) :
    ∃ blanks marks, plain = dropEnding plain ++ (blanks ++ marks) ∧
      (∀ char ∈ blanks, Text.isBlank char = true) ∧
      (∀ char ∈ marks, endsSentence char = true) ∧
      (∀ char ∈ (dropEnding plain ++ blanks).getLast?, endsSentence char = false) ∧
      ∀ char ∈ (dropEnding plain).getLast?, Text.isBlank char = false := by
  obtain ⟨marks, same, ends, visible⟩ :=
    Text.dropEndWhile_eq_iff.mp (rfl : Text.dropEndWhile endsSentence plain = _)
  obtain ⟨blanks, split, blank, last⟩ :=
    Text.trimEnd_eq_iff.mp (rfl : Text.trimEnd (Text.dropEndWhile endsSentence plain) = _)
  rw [← dropEnding] at split last
  rw [split, List.append_assoc] at same
  rw [split] at visible
  exact ⟨blanks, marks, same, blank, ends, visible, last⟩

theorem bare_dropEnding (bare : Text.Bare plain) : Text.Bare (dropEnding plain) := by
  obtain ⟨blanks, marks, same, _, _, _, last⟩ := exists_ending plain
  refine ⟨fun char member => bare.head char ?_, last⟩
  rw [same, List.head?_append, member]
  rfl

/-- The end of a sentence is left just if the message ends twice. -/
theorem dropEnding_unended_iff (bare : Text.Bare plain) :
    (∀ char ∈ (dropEnding plain).getLast?, endsSentence char = false) ↔ ¬EndsTwice plain := by
  constructor
  · rintro unended ⟨text, last, blanks, marks, rfl, ends, ⟨some_, blank⟩, ⟨_, marked⟩⟩
    have lastOfBlanks : ∀ char ∈ (text ++ last :: blanks).getLast?, char ∈ blanks := by
      intro char member
      rcases List.eq_nil_or_concat' blanks with rfl | ⟨others, final, rfl⟩
      · exact absurd rfl some_
      · rw [← List.cons_append, ← List.append_assoc, List.getLast?_concat] at member
        cases member
        exact List.mem_append_right _ List.mem_cons_self
    have marksDropped : Text.dropEndWhile endsSentence (text ++ last :: (blanks ++ marks)) =
        text ++ last :: blanks := by
      refine Text.dropEndWhile_eq_iff.mpr ⟨marks, by simp, marked, fun char member => ?_⟩
      exact not_endsSentence_of_isBlank (blank char (lastOfBlanks char member))
    have blanksDropped : Text.trimEnd (text ++ last :: blanks) = text ++ [last] := by
      refine Text.trimEnd_eq_iff.mpr ⟨blanks, by simp, blank, fun char member => ?_⟩
      rw [List.getLast?_concat] at member
      cases member
      by_contra blankLast
      rw [not_endsSentence_of_isBlank (Bool.not_eq_false _ ▸ blankLast)] at ends
      cases ends
    have left : dropEnding (text ++ last :: (blanks ++ marks)) = text ++ [last] := by
      rw [dropEnding, marksDropped, blanksDropped]
    rw [left] at unended
    rw [unended last List.getLast?_concat] at ends
    cases ends
  · intro once char member
    by_contra ends
    rw [Bool.not_eq_false] at ends
    obtain ⟨blanks, marks, same, blank, marked, visible, last⟩ := exists_ending plain
    obtain ⟨text, split⟩ := List.getLast?_eq_some_iff.mp member
    have someBlanks : blanks ≠ [] := by
      rintro rfl
      rw [List.append_nil] at visible
      rw [visible char member] at ends
      cases ends
    have someMarks : marks ≠ [] := by
      rintro rfl
      rw [List.append_nil] at same
      rcases List.eq_nil_or_concat' blanks with rfl | ⟨others, final, rfl⟩
      · exact someBlanks rfl
      · rw [← List.append_assoc] at same
        have visibleLast := bare.last final (by rw [same, List.getLast?_concat]; rfl)
        rw [blank final (List.mem_append_right _ List.mem_cons_self)] at visibleLast
        cases visibleLast
    refine once ⟨text, char, blanks, marks, ?_, ends, ⟨someBlanks, blank⟩, ⟨someMarks, marked⟩⟩
    rw [same, split, List.append_assoc, List.singleton_append]

theorem prefix_of_prefix_append (found : front <+: plain ++ back)
    (last : ∀ char ∈ front.getLast?, char ∉ back) : front <+: plain := by
  rcases Nat.le_total front.length plain.length with short | long
  · exact List.prefix_of_prefix_length_le found (List.prefix_append _ _) short
  · obtain ⟨more, rfl⟩ := List.prefix_of_prefix_length_le (List.prefix_append _ _) found long
    rcases List.eq_nil_or_concat' more with rfl | ⟨others, char, rfl⟩
    · simp only [List.append_nil, List.prefix_rfl]
    · have begins := (List.prefix_append_right_inj plain).mp found
      refine absurd (begins.subset (List.mem_append_right _ List.mem_cons_self)) (last char ?_)
      rw [← List.append_assoc, List.getLast?_concat]
      rfl

/-- A label is not part of an ending. -/
theorem label_prefix_dropEnding_iff (initial : Char) :
    label initial <+: dropEnding plain ↔ label initial <+: plain := by
  obtain ⟨blanks, marks, same, blank, marked, _⟩ := exists_ending plain
  constructor
  · intro found
    rw [same]
    exact found.trans (List.prefix_append _ _)
  · intro found
    rw [same] at found
    refine prefix_of_prefix_append found fun char member => ?_
    obtain rfl : ':' = char := Option.some.inj member
    rw [List.mem_append, not_or]
    exact ⟨fun inside => absurd (blank _ inside) (by decide),
      fun inside => absurd (marked _ inside) (by decide)⟩

theorem opening_infix_between_iff {text : List Char} (noOpen : '(' ∉ front) (noAt : '@' ∉ back) :
    opening <:+: front ++ text ++ back ↔ opening <:+: text := by
  rw [opening_infix_append_iff, opening_infix_append_iff]
  constructor
  · rintro ((inside | inside | ⟨last, _⟩) | inside | ⟨_, first⟩)
    · exact absurd (inside.subset List.mem_cons_self) noOpen
    · exact inside
    · exact absurd (List.mem_of_getLast? last) noOpen
    · exact absurd (inside.subset (List.mem_cons_of_mem _ List.mem_cons_self)) noAt
    · exact absurd (List.mem_of_head? first) noAt
  · exact fun inside => .inl (.inr (.inl inside))

/-- Neither blanks nor an ending take part in what opens an annotation. -/
theorem opening_infix_dropEnding_trim_iff (chars : List Char) :
    opening <:+: dropEnding (Text.trim chars) ↔ opening <:+: chars := by
  obtain ⟨lead, trail, split, leads, trails, _⟩ := Text.trim_eq_iff.mp (rfl : Text.trim chars = _)
  obtain ⟨blanks, marks, same, blank, marked, _⟩ := exists_ending (Text.trim chars)
  have whole : chars = lead ++ dropEnding (Text.trim chars) ++ (blanks ++ marks ++ trail) := by
    rw [List.append_assoc, ← List.append_assoc _ _ trail, ← same, ← List.append_assoc, ← split]
  have noOpen : '(' ∉ lead := fun inside => absurd (leads _ inside) (by decide)
  have noAt : '@' ∉ blanks ++ marks ++ trail := by
    rw [List.mem_append, List.mem_append]
    rintro ((inside | inside) | inside)
    · exact absurd (blank _ inside) (by decide)
    · exact absurd (marked _ inside) (by decide)
    · exact absurd (trails _ inside) (by decide)
  rw [← opening_infix_between_iff noOpen noAt, ← whole]

end Ending

theorem toList_clean (raw : String) :
    (clean raw).toList = dropEnding (Text.trim (dropAnnotations
      (dropLabels 'e' (dropLabels 'E' (Text.trim raw.toList))))) := by
  rw [clean, String.toList_ofList]
  rfl

/-- The messages that cleaning leaves alone are the clean ones. -/
theorem clean_eq_self_iff {text : String} : clean text = text ↔ Cleaned text.toList := by
  rw [← String.toList_inj, toList_clean]
  generalize text.toList = chars
  constructor
  · -- No pass adds anything, so if all together leave a text as it is, each of them does.
    intro same
    generalize trimmed : Text.trim chars = message at same
    generalize dropped : dropLabels 'E' message = behind at same
    generalize dropped' : dropLabels 'e' behind = body at same
    generalize kept_eq : dropAnnotations body = kept at same
    generalize plain_eq : Text.trim kept = plain at same
    have inChars : List.Sublist message chars := trimmed ▸ Text.trim_sublist chars
    have inMessage : List.Sublist behind message := dropped ▸ dropLabels_sublist 'E' message
    have inBehind : List.Sublist body behind := dropped' ▸ dropLabels_sublist 'e' behind
    have inBody : kept.length ≤ body.length := kept_eq ▸ length_dropAnnotations_le body
    have inKept : List.Sublist plain kept := plain_eq ▸ Text.trim_sublist kept
    have inPlain := Text.dropEndWhile_sublist endsSentence plain
    have inEnded : List.Sublist chars (Text.dropEndWhile endsSentence plain) :=
      same ▸ Text.dropEndWhile_sublist Text.isBlank _
    have lengths := And.intro inChars.length_le (And.intro inMessage.length_le inBehind.length_le)
    have lengths' := And.intro inKept.length_le (And.intro inPlain.length_le inEnded.length_le)
    obtain rfl := inChars.eq_of_length_le (by omega)
    obtain rfl := inMessage.eq_of_length_le (by omega)
    obtain rfl := inBehind.eq_of_length_le (by omega)
    obtain ⟨_, _, _, noUpper, _⟩ := exists_labels 'E' body
    obtain ⟨_, _, _, noLower, _⟩ := exists_labels 'e' body
    obtain ⟨_, _, _, unended⟩ :=
      Text.dropEndWhile_eq_iff.mp (inEnded.eq_of_length_le (by omega)).symm
    rw [dropped] at noUpper
    rw [dropped'] at noLower
    refine ⟨Text.trim_eq_self_iff.mp trimmed, not_or.mpr ⟨noUpper, noLower⟩, fun opened => ?_,
      unended⟩
    have shorter := length_dropAnnotations_lt opened
    rw [kept_eq] at shorter
    omega
  · rintro ⟨bare, unlabelled, unannotated, unended⟩
    rw [Labelled, not_or] at unlabelled
    have ends : Text.dropEndWhile endsSentence chars = chars :=
      Text.dropEndWhile_eq_iff.mpr ⟨[], (List.append_nil _).symm, nofun, unended⟩
    have bareEnd : Text.trimEnd chars = chars :=
      Text.trimEnd_eq_iff.mpr ⟨[], (List.append_nil _).symm, nofun, bare.last⟩
    rw [Text.trim_eq_self_iff.mpr bare, dropLabels_eq_self unlabelled.1,
      dropLabels_eq_self unlabelled.2, dropAnnotations_eq_self unannotated,
      Text.trim_eq_self_iff.mpr bare, dropEnding, ends, bareEnd]

/-- What cleaning leaves has no blanks at its ends, and it is clean just if cleaning it again changes
nothing. Whether it is clean depends on what stands in front of its annotations and behind them. A
label may come first there: one with a capital letter behind one with a small letter, or one that
came behind an annotation. What stood around an annotation may open another one. Or the last
sentence is ended twice, with blanks between the two ends. In all other cases it is clean. -/
theorem clean_cleaned_iff (raw : String) :
    Text.Bare (clean raw).toList ∧
    (clean (clean raw) = clean raw ↔ Cleaned (clean raw).toList) ∧
    (∃ body before after, Unlabels raw.toList body ∧ Keeps body before after) ∧
    ∀ body before after, Unlabels raw.toList body → Keeps body before after →
      (Cleaned (clean raw).toList ↔
        ¬Labelled (Text.trim (before ++ after)) ∧ ¬Joins before after ∧
          ¬EndsTwice (Text.trim (before ++ after))) := by
  refine ⟨?_, clean_eq_self_iff, ?_, fun body before after unlabels keeps => ?_⟩
  · rw [toList_clean]
    exact bare_dropEnding (Text.bare_trim _)
  · obtain ⟨body, unlabels⟩ := exists_unlabels raw.toList
    obtain ⟨before, after, keeps⟩ := exists_keeps body
    exact ⟨body, before, after, unlabels, keeps⟩
  · rw [toList_clean, unlabels.eq, keeps.dropAnnotations_eq]
    have bare := Text.bare_trim (before ++ after)
    have labelled : Labelled (dropEnding (Text.trim (before ++ after))) ↔
        Labelled (Text.trim (before ++ after)) :=
      or_congr (label_prefix_dropEnding_iff 'E') (label_prefix_dropEnding_iff 'e')
    have joined : opening <:+: dropEnding (Text.trim (before ++ after)) ↔ Joins before after := by
      obtain ⟨noneBefore, noneAfter⟩ := keeps.unopened
      rw [opening_infix_dropEnding_trim_iff, opening_infix_append_iff, or_iff_right noneBefore,
        or_iff_right noneAfter]
    rw [← labelled, ← joined, ← dropEnding_unended_iff bare]
    exact ⟨fun cleaned => ⟨cleaned.unlabelled, cleaned.unannotated, cleaned.unended⟩,
      fun ⟨unlabelled, unannotated, unended⟩ =>
        ⟨bare_dropEnding bare, unlabelled, unannotated, unended⟩⟩

/-- A capital label behind a small one is left, so is the end of a sentence that ends twice, and two
parts of a text around an annotation open another one. -/
theorem clean_uncovered :
    clean "error: Error: x" = "Error: x" ∧ ¬Cleaned (clean "error: Error: x").toList ∧
      clean (clean "error: Error: x") = "x" ∧
      clean "x. !" = "x." ∧ ¬Cleaned (clean "x. !").toList ∧
      clean "((@1)@2" = "(@2" ∧ ¬Cleaned (clean "((@1)@2").toList := by
  have labelled : clean "error: Error: x" = "Error: x" := by decide +kernel
  have ended : clean "x. !" = "x." := by decide +kernel
  have opened : clean "((@1)@2" = "(@2" := by decide +kernel
  refine ⟨labelled, fun cleaned => ?_, by decide +kernel, ended, fun cleaned => ?_, opened,
    fun cleaned => ?_⟩
  · rw [labelled] at cleaned
    exact cleaned.unlabelled (.inl ⟨[' ', 'x'], rfl⟩)
  · rw [ended] at cleaned
    exact absurd (cleaned.unended '.' rfl) (by decide)
  · rw [opened] at cleaned
    exact cleaned.unannotated ⟨[], ['2'], rfl⟩

end Krl.Message

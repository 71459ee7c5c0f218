import Krl.Proofs.Token.Compositions
import Krl.Proofs.Token.Joins

/-!
# Space around a text

A text has the same tokens with space before and behind it, but for space of its own that goes on
in what stands around it. Other text may follow the space behind it.
-/

namespace Krl.Token

variable {base offset : Nat} {gap behind : List Char}

/-- Space is read up to other text. -/
theorem Reads.exists_run {cursor next : Cursor} {lexeme : Lexeme}
    (reads : Reads cursor lexeme next) (space : lexeme.token = .whitespace) :
    ∃ run, IsGap run ∧ cursor.rest = run ++ next.rest ∧
      next.offset = cursor.offset + Text.byteLength run ∧
        ∀ char ∈ next.rest.head?, isSpace char = false := by
  cases reads with
  | @plain _ token length longest =>
      cases token <;> cases space
      have extent : Pattern.run isSpace cursor.rest = length :=
        Pattern.extent_eq_of_longest? longest
      refine ⟨cursor.rest.take length, ?_, (List.take_append_drop _ _).symm, rfl, ?_⟩
      · rw [← extent, Pattern.take_run]
        exact fun char member => List.mem_takeWhile_imp member
      · rw [← extent]
        exact Pattern.ends_run isSpace cursor.rest
  | _ => cases space

/-- Space at the beginning of a text goes on with the space before it. -/
theorem exists_readsAll_gap_append (blank : IsGap gap) {cursor final : Cursor}
    {lexemes : List Lexeme} (reads : ReadsAll cursor lexemes final) (nonempty : lexemes ≠ [])
    (place : cursor.offset = offset + Text.byteLength gap) :
    ∃ lexemes', ReadsAll ⟨offset, gap ++ cursor.rest⟩ lexemes' final ∧
      significant lexemes' = significant lexemes := by
  obtain ⟨here, chars⟩ := cursor
  obtain rfl := place
  by_cases ends : ∀ char ∈ chars.head?, isSpace char = false
  · obtain ⟨before, gapReads, none_⟩ := exists_readsAll_of_gap blank ends offset
    exact ⟨before ++ lexemes, gapReads.append reads, by
      rw [significant_append, none_, List.nil_append]⟩
  · simp only [not_forall, Bool.not_eq_false] at ends
    obtain ⟨char, begins, space⟩ := ends
    obtain ⟨others, rfl⟩ := List.head?_eq_some_iff.mp begins
    cases reads with
    | nil => exact absurd rfl nonempty
    | @cons _ next _ lexeme others' first rest =>
        have trivia := first.token_of_space rfl space
        obtain ⟨run, blank', whole, stop, ends⟩ := first.exists_run trivia
        obtain ⟨before, gapReads, none_⟩ :=
          exists_readsAll_of_gap (List.forall_mem_append.mpr ⟨blank, blank'⟩) ends offset
        obtain ⟨here, chars⟩ := next
        obtain rfl := stop
        rw [Text.byteLength_append, ← Nat.add_assoc, List.append_assoc] at gapReads
        refine ⟨before ++ others', ?_, ?_⟩
        · rw [whole]
          exact gapReads.append rest
        · rw [significant_append, none_, List.nil_append]
          exact (List.filter_cons_of_neg (by simp [trivia, isTrivia])).symm

theorem ReadsAll.eq_nil {cursor final : Cursor} {lexemes : List Lexeme}
    (reads : ReadsAll cursor lexemes final) (atEnd : cursor.rest = []) : lexemes = [] := by
  cases reads with
  | nil => rfl
  | cons first _ =>
      obtain ⟨reading, _⟩ := first.lexeme_eq
      exact absurd atEnd (rest_ne_nil reading)

/-- Space at the end of a text goes on with the space behind it, where other text may follow. -/
theorem ReadsAll.exists_widen_gap (base : Nat) (blank : IsGap gap) (apart : Apart behind)
    (ends : ∀ char ∈ behind.head?, isSpace char = false) {cursor final : Cursor}
    {lexemes : List Lexeme} (reads : ReadsAll cursor lexemes final) (atEnd : final.rest = [])
    (last : ∀ lexeme ∈ lexemes.getLast?, lexeme.token ≠ .lineComment) :
    ∃ lexemes', ReadsAll (cursor.widen base (gap ++ behind)) lexemes'
        ⟨final.offset + base + Text.byteLength gap, behind⟩ ∧
      significant lexemes' = (significant lexemes).map (Lexeme.shift base) := by
  have apart' : Apart (gap ++ behind) := by
    cases gap with
    | nil => exact apart
    | cons char others =>
        apply apart_of_space
        rintro _ ⟨⟩
        exact blank char List.mem_cons_self
  induction reads with
  | @nil cursor =>
      obtain ⟨lexemes', reads, none_⟩ := exists_readsAll_of_gap blank ends (cursor.offset + base)
      rw [Cursor.widen, atEnd]
      exact ⟨lexemes', reads, none_⟩
  | @cons cursor next final lexeme others first rest ih =>
      by_cases special : next.rest = [] ∧ lexeme.token = .whitespace
      · obtain ⟨done, space⟩ := special
        obtain rfl := rest.eq_nil done
        cases rest
        obtain ⟨run, blank', whole, stop, _⟩ := first.exists_run space
        obtain ⟨lexemes', reads, none_⟩ := exists_readsAll_of_gap
          (List.forall_mem_append.mpr ⟨blank', blank⟩) ends (cursor.offset + base)
        rw [done, List.append_nil] at whole
        rw [List.append_assoc, Text.byteLength_append, ← Nat.add_assoc] at reads
        refine ⟨lexemes', ?_, ?_⟩
        · rw [Cursor.widen, whole, stop, Nat.add_right_comm cursor.offset _ base]
          exact reads
        · rw [none_, significant, List.filter_cons_of_neg (by simp [space, isTrivia])]
          rfl
      · have onward : lexeme.token = .whitespace ∨ lexeme.token = .lineComment →
            gap ++ behind = [] ∨ next.rest ≠ [] := by
          rintro (space | comment)
          · exact .inr fun done => special ⟨done, space⟩
          · refine .inr fun done => ?_
            obtain rfl := rest.eq_nil done
            exact last lexeme rfl comment
        have wide := first.widen base apart' onward
        obtain ⟨lexemes', reads, same⟩ := ih atEnd (by
          intro lexeme isLast
          refine last lexeme ?_
          rw [List.getLast?_cons, isLast]
          rfl)
        refine ⟨_, .cons wide reads, ?_⟩
        show significant ([lexeme].map (Lexeme.shift base) ++ lexemes') =
          (significant ([lexeme] ++ others)).map (Lexeme.shift base)
        rw [significant_append, significant_append, List.map_append, significant_map_shift, same]

/-- A text that is tokenized by itself has the same tokens with space around it, where a mark
follows. -/
theorem exists_readsAll_padded {text : String} {lexemes : List Lexeme}
    (read : tokenize text = .ok lexemes) (some_ : significant lexemes ≠ [])
    (last : ∀ lexeme ∈ lexemes.getLast?, lexeme.token ≠ .lineComment) {gap' : List Char}
    (blank : IsGap gap) (blank' : IsGap gap') (apart : Apart behind)
    (ends : ∀ char ∈ behind.head?, isSpace char = false) (offset : Nat) :
    ∃ lexemes', ReadsAll ⟨offset, gap ++ (text.toList ++ (gap' ++ behind))⟩ lexemes'
        ⟨offset + Text.byteLength (gap ++ (text.toList ++ gap')), behind⟩ ∧
      significant lexemes' =
        (significant lexemes).map (Lexeme.shift (offset + Text.byteLength gap)) := by
  obtain ⟨final, reads, atEnd⟩ := tokenize_eq_ok_iff.mp read
  obtain ⟨widened, wide, same⟩ := reads.exists_widen_gap (offset + Text.byteLength gap) blank' apart
    ends atEnd last
  have some' : widened ≠ [] := by
    rintro rfl
    exact some_ (List.map_eq_nil_iff.mp same.symm)
  obtain ⟨lexemes', whole, same'⟩ := exists_readsAll_gap_append blank wide some' (Nat.zero_add _)
  refine ⟨lexemes', ?_, same'.trans same⟩
  have stops : final.offset = Text.byteLength text.toList :=
    (reads.offset_eq atEnd).trans (Nat.zero_add _)
  have place : final.offset + (offset + Text.byteLength gap) + Text.byteLength gap' =
      offset + Text.byteLength (gap ++ (text.toList ++ gap')) := by
    rw [Text.byteLength_append, Text.byteLength_append, stops]
    omega
  rw [← place]
  exact whole

end Krl.Token

import Krl.Diagnostic

/-!
# What cleaning leaves of a message

The messages of errors are fixed texts, but that of a syntax error may quote a token in an
annotation. Cleaning takes the whole annotation away, whatever stands in the token, since the
annotation runs up to the last parenthesis of the message.
-/

namespace Krl.Message

theorem afterLast?_eq_none_iff {mark : Char} {chars : List Char} :
    afterLast? mark chars = none ↔ mark ∉ chars := by
  induction chars with
  | nil => exact ⟨fun _ => List.not_mem_nil, fun _ => rfl⟩
  | cons char others ih =>
      rw [afterLast?, List.mem_cons, not_or, ← ih]
      cases afterLast? mark others with
      | none =>
          simp only [ite_eq_right_iff, reduceCtorEq, imp_false, and_true]
          exact not_congr eq_comm
      | some tail => simp only [reduceCtorEq, and_false]

/-- Nothing but the text behind the last mark is left. -/
theorem afterLast?_append {mark : Char} {rest : List Char} (absent : mark ∉ rest)
    (before : List Char) : afterLast? mark (before ++ mark :: rest) = some rest := by
  induction before with
  | nil =>
      rw [List.nil_append, afterLast?, afterLast?_eq_none_iff.mpr absent]
      exact if_pos rfl
  | cons first others ih => rw [List.cons_append, afterLast?, ih]

theorem dropLabels_of_after? {initial : Char} {chars : List Char}
    (unlabelled : Text.after? (label initial) chars = none) : dropLabels initial chars = chars := by
  rw [dropLabels]
  split
  next found =>
    rw [unlabelled] at found
    cases found
  next => rfl

/-- Whatever an annotation quotes, only the text before it is left of the message. -/
theorem clean_annotated {raw : String} (quoted : List Char)
    (annotated : raw.toList = "No possible parsings (@".toList ++ quoted ++ [')', '.']) :
    clean raw = ParseError.noParseText := by
  have trimmed : Text.trim raw.toList = raw.toList := by
    rw [annotated, Text.trim, Text.trimStart, Text.trimEnd, Text.dropEndWhile]
    have starts : (("No possible parsings (@".toList ++ quoted ++ [')', '.']).dropWhile
        Text.isBlank) = "No possible parsings (@".toList ++ quoted ++ [')', '.'] := rfl
    rw [starts, List.reverse_append]
    have ends : ∀ others : List Char, (([')', '.'].reverse ++ others).dropWhile Text.isBlank) =
      [')', '.'].reverse ++ others := fun _ => rfl
    rw [ends, List.reverse_append, List.reverse_reverse, List.reverse_reverse]
  have unlabelled : dropLabels 'e' (dropLabels 'E' raw.toList) = raw.toList := by
    have none_ : ∀ initial, initial = 'e' ∨ initial = 'E' →
        Text.after? (label initial) raw.toList = none := by
      rintro initial (rfl | rfl) <;> rw [annotated] <;> rfl
    rw [dropLabels_of_after? (none_ 'E' (.inr rfl)), dropLabels_of_after? (none_ 'e' (.inl rfl))]
  have plain : dropAnnotations raw.toList = "No possible parsings .".toList := by
    have opens : splitAtFirst? ['(', '@'] raw.toList =
        some ("No possible parsings ".toList, quoted ++ [')', '.']) := by
      rw [annotated]
      rfl
    rw [dropAnnotations, opens]
    simp only [afterLast?_append (show ')' ∉ ['.'] by decide) quoted]
    rfl
  rw [clean, trimmed, unlabelled, plain]
  decide +kernel

theorem clean_lexical (kind : LexError.Kind) : clean kind.message = kind.message := by
  cases kind <;> decide +kernel

/-- A syntax error says the same whatever token is found. -/
theorem clean_noParse (offset : Option Nat) (found : Option String) :
    clean (ParseError.noParse offset found).message = ParseError.noParseText := by
  have plain : clean ParseError.noParseText = ParseError.noParseText := by decide +kernel
  cases offset with
  | none => exact plain
  | some position =>
      cases found with
      | none => exact plain
      | some token =>
          have opens : "No possible parsings (@".toList =
              ParseError.noParseText.toList ++ " (@".toList := by decide +kernel
          have closes : "`).".toList = "`".toList ++ [')', '.'] := by decide +kernel
          refine clean_annotated (toString position ++ ": unexpected `" ++ token ++ "`").toList ?_
          show (ParseError.noParseText ++ " (@" ++ toString position ++ ": unexpected `" ++ token ++
            "`).").toList = _
          rw [opens, String.toList_append, closes]
          simp only [String.toList_append, List.append_assoc]

end Krl.Message

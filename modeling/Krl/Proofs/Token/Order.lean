import Krl.Proofs.Token.Reads

/-!
# Where tokens stand

Tokens stand one behind another, and so do the parts of a template between its brackets and
the tokens of an interpolation before the brace that closes it.
-/

namespace Krl

theorem Text.byteLength_pos {chars : List Char} (nonempty : chars ≠ []) :
    0 < byteLength chars := by
  cases chars with
  | nil => exact absurd rfl nonempty
  | cons first others =>
      have := first.utf8Size_pos
      rw [byteLength_cons]
      omega

namespace Cursor

theorem advance_advance (cursor : Cursor) (count more : Nat) :
    (cursor.advance count).advance more = cursor.advance (count + more) := by
  rw [advance, advance, advance, List.take_add, Text.byteLength_append, List.drop_drop,
    Nat.add_assoc]

/-- The place behind the first part of a text. -/
theorem advance_append (offset : Nat) (chars behind : List Char) :
    advance ⟨offset, chars ++ behind⟩ chars.length =
      ⟨offset + Text.byteLength chars, behind⟩ := by
  rw [advance, List.take_left, List.drop_left]

theorem le_offset_advance (cursor : Cursor) (count : Nat) :
    cursor.offset ≤ (cursor.advance count).offset :=
  Nat.le_add_right _ _

theorem lt_offset_advance {cursor : Cursor} {count : Nat} (positive : 0 < count)
    (within : count ≤ cursor.rest.length) : cursor.offset < (cursor.advance count).offset := by
  have nonempty : cursor.rest.take count ≠ [] := by
    apply List.ne_nil_of_length_pos
    rw [List.length_take]
    omega
  have := Text.byteLength_pos nonempty
  rw [advance]
  simp only
  omega

theorem lt_offset_of_longest {cursor : Cursor} {pattern : Token.Pattern} {length : Nat}
    (longest : Token.Pattern.longest? cursor.rest = some (pattern, length)) :
    cursor.offset < (cursor.advance length).offset := by
  have bounds := Token.Pattern.longest?_bounds longest
  exact lt_offset_advance bounds.1 bounds.2

end Cursor

mutual

/-- Whatever a token is made of stands in order, from an offset up to another. -/
def Token.Orderly (low high : Nat) : Token → Prop
  | .chevron parts => PartsOrderly low high parts
  | _ => low ≤ high

/-- The parts of a template stand in order, from an offset up to another. -/
def PartsOrderly (low high : Nat) : List TemplatePart → Prop
  | [] => low ≤ high
  | .text _ start stop :: others => low ≤ start ∧ start ≤ stop ∧ PartsOrderly stop high others
  | .interpolation tokens _ close :: others =>
      LexemesOrderly low close tokens ∧ PartsOrderly (close + 1) high others

/-- Tokens stand in order, from an offset up to another. -/
def LexemesOrderly (low high : Nat) : List Lexeme → Prop
  | [] => low ≤ high
  | ⟨token, start, stop⟩ :: others =>
      low ≤ start ∧ token.Orderly (start + 1) stop ∧ LexemesOrderly stop high others

end

section Bounds

variable {low lower high : Nat}

theorem PartsOrderly.weaken {parts : List TemplatePart} (orderly : PartsOrderly low high parts)
    (below : lower ≤ low) : PartsOrderly lower high parts := by
  cases parts with
  | nil => exact Nat.le_trans below orderly
  | cons part others =>
      cases part with
      | text value start stop => exact ⟨Nat.le_trans below orderly.1, orderly.2⟩
      | interpolation tokens start close =>
          refine ⟨?_, orderly.2⟩
          have inside := orderly.1
          cases tokens with
          | nil => exact Nat.le_trans below inside
          | cons first rest =>
              cases first
              exact ⟨Nat.le_trans below inside.1, inside.2⟩

theorem LexemesOrderly.weaken {lexemes : List Lexeme} (orderly : LexemesOrderly low high lexemes)
    (below : lower ≤ low) : LexemesOrderly lower high lexemes := by
  cases lexemes with
  | nil => exact Nat.le_trans below orderly
  | cons first others =>
      cases first
      exact ⟨Nat.le_trans below orderly.1, orderly.2⟩

end Bounds

mutual

theorem Token.Orderly.le {low high : Nat} :
    (token : Token) → token.Orderly low high → low ≤ high
  | .chevron parts, orderly => PartsOrderly.le parts orderly
  | .whitespace, orderly | .lineComment, orderly | .blockComment, orderly | .number _, orderly
  | .string _, orderly | .regexp _ _, orderly | .symbol _, orderly | .domainName _ _, orderly
  | .punct _, orderly => orderly

theorem PartsOrderly.le {low high : Nat} :
    (parts : List TemplatePart) → PartsOrderly low high parts → low ≤ high
  | [], orderly => orderly
  | .text _ start stop :: others, ⟨first, second, rest⟩ => by
      have := PartsOrderly.le others rest
      omega
  | .interpolation tokens _ close :: others, ⟨first, rest⟩ => by
      have := LexemesOrderly.le tokens first
      have := PartsOrderly.le others rest
      omega

theorem LexemesOrderly.le {low high : Nat} :
    (lexemes : List Lexeme) → LexemesOrderly low high lexemes → low ≤ high
  | [], orderly => orderly
  | ⟨token, start, stop⟩ :: others, ⟨first, inside, rest⟩ => by
      have := Token.Orderly.le token inside
      have := LexemesOrderly.le others rest
      omega

end

namespace Token

theorem partsOrderly_textPart {cursor : Cursor} {high : Nat} {others : List TemplatePart}
    (rest : PartsOrderly (textEnd cursor).offset high others) :
    PartsOrderly cursor.offset high (textPart cursor ++ others) := by
  have onward : cursor.offset ≤ (textEnd cursor).offset := cursor.le_offset_advance _
  rw [textPart, templateText]
  split
  · exact rest.weaken onward
  · exact ⟨Nat.le_refl _, onward, rest⟩

mutual

/-- What is read stands in order. The induction is on the reading. -/
theorem Reads.orderly {cursor next : Cursor} {lexeme : Lexeme} :
    Reads cursor lexeme next → lexeme.start = cursor.offset ∧ lexeme.stop = next.offset ∧
      lexeme.token.Orderly (cursor.offset + 1) next.offset
  | @Reads.plain _ token _ longest => by
      refine ⟨rfl, rfl, ?_⟩
      cases token <;> exact Cursor.lt_offset_of_longest longest
  | .blockComment longest _ | .string longest _ | .regexp longest _ _ =>
      ⟨rfl, rfl, Nat.le_trans (Cursor.lt_offset_of_longest longest)
        (Cursor.le_offset_advance _ _)⟩
  | .chevron longest inside =>
      ⟨rfl, rfl, inside.orderly.weaken (Cursor.lt_offset_of_longest longest)⟩

theorem ReadsParts.orderly {cursor next : Cursor} {parts : List TemplatePart} :
    ReadsParts cursor parts next → PartsOrderly cursor.offset next.offset parts
  | .close _ => by
      rw [← List.append_nil (textPart cursor)]
      exact partsOrderly_textPart ((textEnd cursor).le_offset_advance 2)
  | .interpolation _ body more => by
      have inside := body.orderly
      exact partsOrderly_textPart
        ⟨inside.1.weaken ((textEnd cursor).le_offset_advance 2), more.orderly.weaken inside.2⟩

theorem ReadsBody.orderly {depth : Nat} {cursor next : Cursor} {tokens : List Lexeme}
    {close : Nat} : ReadsBody depth cursor tokens close next →
      LexemesOrderly cursor.offset close tokens ∧ close < next.offset
  | .close last => by
      obtain ⟨rfl, rfl, onward⟩ := last.orderly
      exact ⟨Nat.le_refl _, onward⟩
  | @ReadsBody.inner _ _ _ _ ⟨token, start, stop⟩ _ _ first _ more => by
      obtain ⟨starts, stops, inside⟩ := first.orderly
      obtain ⟨orderly, closes⟩ := more.orderly
      simp only at starts stops
      subst starts stops
      exact ⟨⟨Nat.le_refl _, inside, orderly⟩, closes⟩

end

mutual

/-- Reading goes on in the source by some characters. -/
theorem Reads.advances {cursor next : Cursor} {lexeme : Lexeme} :
    Reads cursor lexeme next → ∃ count, next = cursor.advance count
  | .plain _ => ⟨_, rfl⟩
  | .blockComment _ _ | .string _ _ | .regexp _ _ _ => ⟨_, Cursor.advance_advance ..⟩
  | .chevron _ inside => by
      obtain ⟨count, rfl⟩ := inside.advances
      exact ⟨_, Cursor.advance_advance ..⟩

theorem ReadsParts.advances {cursor next : Cursor} {parts : List TemplatePart} :
    ReadsParts cursor parts next → ∃ count, next = cursor.advance count
  | .close _ => ⟨_, Cursor.advance_advance ..⟩
  | .interpolation _ body more => by
      have others := more.advances
      obtain ⟨count, rfl⟩ := body.advances
      obtain ⟨further, rfl⟩ := others
      exact ⟨_, by rw [Cursor.advance_advance, Cursor.advance_advance, Cursor.advance_advance]⟩

theorem ReadsBody.advances {depth : Nat} {cursor next : Cursor} {tokens : List Lexeme}
    {close : Nat} : ReadsBody depth cursor tokens close next →
      ∃ count, next = cursor.advance count
  | .close last => last.advances
  | .inner first _ more => by
      have others := more.advances
      obtain ⟨count, rfl⟩ := first.advances
      obtain ⟨further, rfl⟩ := others
      exact ⟨_, Cursor.advance_advance ..⟩

end

theorem ReadsAll.advances {cursor final : Cursor} {lexemes : List Lexeme}
    (reads : ReadsAll cursor lexemes final) : ∃ count, final = cursor.advance count := by
  induction reads with
  | @nil cursor => exact ⟨0, by simp [Cursor.advance]⟩
  | cons first _ ih =>
      obtain ⟨count, rfl⟩ := first.advances
      obtain ⟨further, rfl⟩ := ih
      exact ⟨_, Cursor.advance_advance ..⟩

/-- Reading to the end of a source counts all of its bytes. -/
theorem ReadsAll.offset_eq {cursor final : Cursor} {lexemes : List Lexeme}
    (reads : ReadsAll cursor lexemes final) (atEnd : final.rest = []) :
    final.offset = cursor.offset + Text.byteLength cursor.rest := by
  obtain ⟨count, rfl⟩ := reads.advances
  rw [Cursor.advance] at atEnd ⊢
  simp only [List.drop_eq_nil_iff] at atEnd
  rw [List.take_of_length_le atEnd]

theorem ReadsAll.orderly {cursor final : Cursor} {lexemes : List Lexeme}
    (reads : ReadsAll cursor lexemes final) :
    LexemesOrderly cursor.offset final.offset lexemes := by
  induction reads with
  | nil => exact Nat.le_refl _
  | @cons cursor next final lexeme others first rest ih =>
      obtain ⟨token, start, stop⟩ := lexeme
      obtain ⟨starts, stops, inside⟩ := first.orderly
      simp only at starts stops
      subst starts stops
      exact ⟨Nat.le_refl _, inside, ih⟩

end Token

end Krl

import Krl.Proofs.Token.Cuts

/-!
# The bodies of interpolations

An interpolation holds the tokens between `#{` and the brace that closes it, which is found
by counting braces in the rest of the source. The text between the two has the same tokens
when it stands alone.
-/

namespace Krl

/-- An interpolation in a template: its tokens, the byte at which `#{` opens it, and that of
the brace that closes it. -/
structure Interpolation where
  tokens : List Lexeme
  start : Nat
  close : Nat

mutual

/-- The interpolations in a token, each of them before those in its own tokens. -/
def Token.interpolations : Token → List Interpolation
  | .chevron parts => partsInterpolations parts
  | _ => []

def partsInterpolations : List TemplatePart → List Interpolation
  | [] => []
  | .text .. :: others => partsInterpolations others
  | .interpolation tokens start close :: others =>
      ⟨tokens, start, close⟩ :: (interpolationsIn tokens ++ partsInterpolations others)

/-- The interpolations in all templates among some tokens, at any depth, in the order in which
they open. -/
def interpolationsIn : List Lexeme → List Interpolation
  | [] => []
  | ⟨token, _, _⟩ :: others => token.interpolations ++ interpolationsIn others

end

/-- The text between the braces of an interpolation, as bytes of the source. -/
def Interpolation.body (interpolation : Interpolation) : Span :=
  ⟨interpolation.start + 2, interpolation.close⟩

/-- The tokens of an interpolation are what is read behind `#{` up to its closing brace. -/
def Interpolation.ReadIn (source : String) (interpolation : Interpolation) : Prop :=
  ∃ cursor final : Cursor, cursor.In source ∧
    Token.ReadsAll cursor interpolation.tokens final ∧
      cursor.offset = interpolation.start + 2 ∧ final.offset = interpolation.close

theorem Cursor.In.of_advances {source : String} {cursor next : Cursor} (inside : cursor.In source)
    (advances : ∃ count, next = cursor.advance count) : next.In source := by
  obtain ⟨count, rfl⟩ := advances
  exact inside.advance count

theorem Cursor.offset_advance_two {cursor : Cursor} {rest : List Char}
    (opens : cursor.rest = '#' :: '{' :: rest) : (cursor.advance 2).offset = cursor.offset + 2 := by
  rw [Cursor.advance, opens]
  rfl

namespace Token

/-- The tokens of an interpolation are all tokens up to the brace that closes it. -/
theorem ReadsBody.readsAll {depth : Nat} {cursor next : Cursor} {tokens : List Lexeme}
    {close : Nat} : ReadsBody depth cursor tokens close next →
      ∃ final, ReadsAll cursor tokens final ∧ final.offset = close
  | .inner first _ more => by
      obtain ⟨final, rest, closes⟩ := more.readsAll
      exact ⟨final, .cons first rest, closes⟩
  | .close last => ⟨cursor, .nil, last.orderly.1.symm⟩

theorem mem_partsInterpolations_append {parts others : List TemplatePart}
    {interpolation : Interpolation} :
    interpolation ∈ partsInterpolations (parts ++ others) ↔
      interpolation ∈ partsInterpolations parts ∨ interpolation ∈ partsInterpolations others := by
  induction parts with
  | nil => simp [partsInterpolations]
  | cons part parts ih => cases part <;> simp [partsInterpolations, ih, or_assoc]

theorem partsInterpolations_textPart (cursor : Cursor) :
    partsInterpolations (textPart cursor) = [] := by
  rw [textPart, templateText]
  split <;> rfl

theorem interpolations_plain {token : Token} (plain : ∀ parts, token ≠ .chevron parts) :
    token.interpolations = [] := by
  cases token <;> first | rfl | exact absurd rfl (plain _)

variable {source : String}

mutual

/-- All interpolations in a token that is read in a source are read there. The induction is on
the reading. -/
theorem Reads.readIn {cursor next : Cursor} {lexeme : Lexeme} :
    Reads cursor lexeme next → cursor.In source →
      ∀ interpolation ∈ lexeme.token.interpolations, interpolation.ReadIn source
  | .plain _, _ => by
      rw [interpolations_plain (plain_read _ _)]
      exact List.forall_mem_nil _
  | .blockComment _ _, _ | .string _ _, _ | .regexp _ _ _, _ => List.forall_mem_nil _
  | .chevron _ inside, within => inside.readIn (within.advance _)

theorem ReadsParts.readIn {cursor next : Cursor} {parts : List TemplatePart} :
    ReadsParts cursor parts next → cursor.In source →
      ∀ interpolation ∈ partsInterpolations parts, interpolation.ReadIn source
  | .close _, _ => by
      rw [partsInterpolations_textPart]
      exact List.forall_mem_nil _
  | @ReadsParts.interpolation cursor _ _ _ _ _ _ opens body more, within => by
      have opened := (within.advance (Literal.template cursor.rest).2).advance 2
      have inner := body.readIn opened
      have behind := more.readIn (opened.of_advances body.advances)
      obtain ⟨final, reads, closes⟩ := body.readsAll
      intro interpolation member
      rw [mem_partsInterpolations_append, partsInterpolations_textPart, partsInterpolations,
        List.mem_cons, List.mem_append] at member
      rcases member with member | rfl | member | member
      · cases member
      · exact ⟨_, final, opened, reads, Cursor.offset_advance_two opens, closes⟩
      · exact inner interpolation member
      · exact behind interpolation member

theorem ReadsBody.readIn {depth : Nat} {cursor next : Cursor} {tokens : List Lexeme}
    {close : Nat} : ReadsBody depth cursor tokens close next → cursor.In source →
      ∀ interpolation ∈ interpolationsIn tokens, interpolation.ReadIn source
  | .close _, _ => List.forall_mem_nil _
  | @ReadsBody.inner _ _ _ _ ⟨_, _, _⟩ _ _ first _ more, within => by
      have here := first.readIn within
      have behind := more.readIn (within.of_advances first.advances)
      rw [interpolationsIn, List.forall_mem_append]
      exact ⟨here, behind⟩

end

theorem ReadsAll.readIn {cursor final : Cursor} {lexemes : List Lexeme}
    (reads : ReadsAll cursor lexemes final) (within : cursor.In source) :
    ∀ interpolation ∈ interpolationsIn lexemes, interpolation.ReadIn source := by
  induction reads with
  | nil => exact List.forall_mem_nil _
  | @cons _ _ _ lexeme _ first _ ih =>
      obtain ⟨token, start, stop⟩ := lexeme
      rw [interpolationsIn, List.forall_mem_append]
      exact ⟨first.readIn within, ih (within.of_advances first.advances)⟩

end Token

/-- Interpolations open one behind another, from an offset on and before another. -/
def OpenInOrder (low high : Nat) (interpolations : List Interpolation) : Prop :=
  interpolations.Pairwise (fun one other => one.start < other.start) ∧
    ∀ interpolation ∈ interpolations, low ≤ interpolation.start ∧ interpolation.start < high

theorem openInOrder_nil {low high : Nat} : OpenInOrder low high [] :=
  ⟨.nil, List.forall_mem_nil _⟩

theorem OpenInOrder.append {low middle high : Nat} {before behind : List Interpolation}
    (first : OpenInOrder low middle before) (second : OpenInOrder middle high behind)
    (onward : low ≤ middle) (further : middle ≤ high) :
    OpenInOrder low high (before ++ behind) := by
  refine ⟨List.pairwise_append.mpr ⟨first.1, second.1, ?_⟩, List.forall_mem_append.mpr ⟨?_, ?_⟩⟩
  · intro one member other member'
    exact Nat.lt_of_lt_of_le (first.2 one member).2 (second.2 other member').1
  · intro one member
    have bounds := first.2 one member
    omega
  · intro other member
    have bounds := second.2 other member
    omega

namespace Token

theorem partsInterpolations_textPart_append (cursor : Cursor) (parts : List TemplatePart) :
    partsInterpolations (textPart cursor ++ parts) = partsInterpolations parts := by
  rw [textPart, templateText]
  split <;> rfl

mutual

/-- The interpolations in a token open in order where the token is read. The induction is on
the reading. -/
theorem Reads.openInOrder {cursor next : Cursor} {lexeme : Lexeme} :
    Reads cursor lexeme next →
      OpenInOrder cursor.offset next.offset lexeme.token.interpolations
  | .plain _ => by
      rw [interpolations_plain (plain_read _ _)]
      exact openInOrder_nil
  | .blockComment _ _ | .string _ _ | .regexp _ _ _ => openInOrder_nil
  | .chevron _ inside => by
      obtain ⟨sorted, bounds⟩ := inside.openInOrder
      refine ⟨sorted, fun interpolation member => ?_⟩
      have within := bounds interpolation member
      exact ⟨Nat.le_trans (Cursor.le_offset_advance _ _) within.1, within.2⟩

theorem ReadsParts.openInOrder {cursor next : Cursor} {parts : List TemplatePart} :
    ReadsParts cursor parts next →
      OpenInOrder cursor.offset next.offset (partsInterpolations parts)
  | .close _ => by
      rw [partsInterpolations_textPart]
      exact openInOrder_nil
  | @ReadsParts.interpolation cursor middle final close rest tokens others opens body more => by
      have inner := body.openInOrder
      have behind := more.openInOrder
      have text : cursor.offset ≤ (textEnd cursor).offset := cursor.le_offset_advance _
      have opened : ((textEnd cursor).advance 2).offset = (textEnd cursor).offset + 2 :=
        Cursor.offset_advance_two opens
      have closes := body.orderly
      have onward := LexemesOrderly.le _ closes.1
      have further := PartsOrderly.le _ more.orderly
      have own : OpenInOrder cursor.offset ((textEnd cursor).offset + 2)
          [⟨tokens, (textEnd cursor).offset, close⟩] := by
        refine ⟨List.pairwise_singleton _ _, List.forall_mem_singleton.mpr ⟨text, ?_⟩⟩
        exact Nat.lt_add_of_pos_right Nat.two_pos
      rw [partsInterpolations_textPart_append, partsInterpolations, ← List.singleton_append]
      rw [opened] at inner onward
      exact own.append (inner.append behind (by omega) further) (by omega) (by omega)

theorem ReadsBody.openInOrder {depth : Nat} {cursor next : Cursor} {tokens : List Lexeme}
    {close : Nat} : ReadsBody depth cursor tokens close next →
      OpenInOrder cursor.offset next.offset (interpolationsIn tokens)
  | .close _ => openInOrder_nil
  | @ReadsBody.inner _ _ _ _ ⟨_, _, _⟩ _ _ first _ more => by
      have closes := more.orderly
      have onward := LexemesOrderly.le _ closes.1
      exact first.openInOrder.append more.openInOrder
        (Token.Orderly.le _ first.orderly.2.2 |> Nat.le_of_succ_le) (by omega)

end

theorem ReadsAll.openInOrder {cursor final : Cursor} {lexemes : List Lexeme}
    (reads : ReadsAll cursor lexemes final) :
    OpenInOrder cursor.offset final.offset (interpolationsIn lexemes) := by
  induction reads with
  | nil => exact openInOrder_nil
  | @cons _ _ _ lexeme _ first rest ih =>
      obtain ⟨token, start, stop⟩ := lexeme
      have onward := Token.Orderly.le _ first.orderly.2.2
      exact first.openInOrder.append ih (Nat.le_of_succ_le onward)
        (LexemesOrderly.le _ rest.orderly)

end Token

/-- Among some interpolations there is one that those in its own tokens stand right behind. -/
def Leads (interpolation : Interpolation) (interpolations : List Interpolation) : Prop :=
  ∃ before behind, interpolations =
    before ++ interpolation :: (interpolationsIn interpolation.tokens ++ behind)

theorem Leads.append_right {interpolation : Interpolation} {interpolations : List Interpolation}
    (leads : Leads interpolation interpolations) (others : List Interpolation) :
    Leads interpolation (interpolations ++ others) := by
  obtain ⟨before, behind, rfl⟩ := leads
  exact ⟨before, behind ++ others, by simp only [List.append_assoc, List.cons_append]⟩

theorem Leads.append_left {interpolation : Interpolation} {interpolations : List Interpolation}
    (leads : Leads interpolation interpolations) (others : List Interpolation) :
    Leads interpolation (others ++ interpolations) := by
  obtain ⟨before, behind, rfl⟩ := leads
  exact ⟨others ++ before, behind, (List.append_assoc ..).symm⟩

mutual

/-- Each interpolation in a token is followed by those inside of it. -/
theorem Token.leads :
    (token : Token) → ∀ interpolation ∈ token.interpolations,
      Leads interpolation token.interpolations
  | .chevron parts => leads_partsInterpolations parts
  | .whitespace | .lineComment | .blockComment | .number _ | .string _ | .regexp _ _ | .symbol _
  | .domainName _ _ | .punct _ => List.forall_mem_nil _

theorem leads_partsInterpolations :
    (parts : List TemplatePart) → ∀ interpolation ∈ partsInterpolations parts,
      Leads interpolation (partsInterpolations parts)
  | [] => List.forall_mem_nil _
  | .text .. :: others => leads_partsInterpolations others
  | .interpolation tokens start close :: others => by
      rw [partsInterpolations, List.forall_mem_cons, List.forall_mem_append]
      refine ⟨⟨[], partsInterpolations others, rfl⟩, fun inner member => ?_,
        fun other member => ?_⟩
      · exact ((leads_interpolationsIn tokens inner member).append_right _).append_left [_]
      · exact ((leads_partsInterpolations others other member).append_left _).append_left [_]

theorem leads_interpolationsIn :
    (lexemes : List Lexeme) → ∀ interpolation ∈ interpolationsIn lexemes,
      Leads interpolation (interpolationsIn lexemes)
  | [] => List.forall_mem_nil _
  | ⟨token, _, _⟩ :: others => by
      rw [interpolationsIn, List.forall_mem_append]
      exact ⟨fun first member => (token.leads first member).append_right _,
        fun other member => (leads_interpolationsIn others other member).append_left _⟩

end

/-- The interpolations of a source are listed in the order in which they open. -/
theorem interpolations_sorted {source : String} {lexemes : List Lexeme}
    (read : Token.tokenize source = .ok lexemes) :
    (interpolationsIn lexemes).Pairwise fun one other => one.start < other.start := by
  obtain ⟨final, reads, _⟩ := Token.tokenize_eq_ok_iff.mp read
  exact reads.openInOrder.1

/-- The body of an interpolation, at any depth, is a text with the same tokens, whose offsets
count from behind `#{`. -/
theorem exists_body {source : String} {lexemes : List Lexeme}
    (read : Token.tokenize source = .ok lexemes) {interpolation : Interpolation}
    (member : interpolation ∈ interpolationsIn lexemes) :
    ∃ text lexemes', Span.slice? source interpolation.body = some text ∧
      interpolation.close = interpolation.start + 2 + Text.byteLength text.toList ∧
      Token.tokenize text = .ok lexemes' ∧
      interpolation.tokens = lexemes'.map (Lexeme.shift (interpolation.start + 2)) := by
  obtain ⟨final, reads, _⟩ := Token.tokenize_eq_ok_iff.mp read
  have whole : Cursor.In source ⟨0, source.toList⟩ := ⟨0, rfl⟩
  obtain ⟨cursor, final, inside, body, starts, closes⟩ := reads.readIn whole interpolation member
  obtain ⟨text, lexemes', slice, length, tokenized, shifted⟩ := body.exists_text inside
  rw [starts, closes] at slice length
  rw [starts] at shifted
  exact ⟨text, lexemes', slice, length, tokenized, shifted⟩

end Krl

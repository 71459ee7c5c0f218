import Krl.Token.Lexer

/-!
# How tokens are read

The tokenizer as relations between a place in a source, what is read there, and the place
where its text ends: for tokens, for the parts of templates, for the tokens within
interpolations, and for all tokens up to some place. What holds of everything that is read
is proved by induction on them.
-/

namespace Krl

theorem Lexeme.eq_mk_of_token {lexeme : Lexeme} {token : Token} (same : lexeme.token = token) :
    lexeme = ⟨token, lexeme.start, lexeme.stop⟩ := by
  cases lexeme
  cases same
  rfl

namespace Token

/-- The number of braces open in an interpolation behind a token that does not close it. -/
def depthAfter : Token → Nat → Nat
  | .punct .rightBrace, depth => depth - 1
  | .punct .leftBrace, depth => depth + 1
  | _, depth => depth

theorem depthAfter_eq_self {token : Token} {depth : Nat}
    (notLeft : token = .punct .leftBrace → False)
    (notRight : ∀ inner, token = .punct .rightBrace → depth = Nat.succ inner → False) :
    depthAfter token depth = depth := by
  rw [depthAfter.eq_def]
  split
  next =>
    cases depth with
    | zero => rfl
    | succ inner => exact (notRight inner rfl rfl).elim
  next => exact (notLeft rfl).elim
  next => rfl

/-- Where a run of text in a template ends. -/
abbrev textEnd (cursor : Cursor) : Cursor :=
  cursor.advance (Literal.template cursor.rest).2

/-- The part that a run of text in a template makes. -/
def textPart (cursor : Cursor) : List TemplatePart :=
  templateText (Literal.template cursor.rest).1 cursor.offset (textEnd cursor).offset

/-- The token is the brace that closes an interpolation. -/
def Closes (token : Token) (depth : Nat) : Prop :=
  token = .punct .rightBrace ∧ depth = 0

mutual

/-- A token is read at a place, up to another. -/
inductive Reads : Cursor → Lexeme → Cursor → Prop where
  | plain {cursor : Cursor} {token : PlainToken} {length : Nat}
      (longest : Pattern.longest? cursor.rest = some (.plain token, length)) :
      Reads cursor
        ⟨token.read (cursor.rest.take length), cursor.offset, (cursor.advance length).offset⟩
        (cursor.advance length)
  | blockComment {cursor : Cursor} {length more : Nat}
      (longest : Pattern.longest? cursor.rest = some (.opened .blockComment, length))
      (closed : Literal.comment? (cursor.advance length).rest = some more) :
      Reads cursor
        ⟨.blockComment, cursor.offset, ((cursor.advance length).advance more).offset⟩
        ((cursor.advance length).advance more)
  | string {cursor : Cursor} {value : List Char} {length more : Nat}
      (longest : Pattern.longest? cursor.rest = some (.opened .string, length))
      (closed : Literal.string? (cursor.advance length).rest = some (value, more)) :
      Reads cursor
        ⟨.string (String.ofList value), cursor.offset,
          ((cursor.advance length).advance more).offset⟩
        ((cursor.advance length).advance more)
  | regexp {cursor : Cursor} {body flags : List Char} {length more : Nat}
      (longest : Pattern.longest? cursor.rest = some (.opened .regexp, length))
      (closed : Literal.regexp? (cursor.advance length).rest = some (body, more))
      (letters : ((cursor.advance length).rest.drop more).takeWhile isLetter = flags) :
      Reads cursor
        ⟨.regexp (String.ofList body) (String.ofList flags), cursor.offset,
          ((cursor.advance length).advance (more + flags.length)).offset⟩
        ((cursor.advance length).advance (more + flags.length))
  | chevron {cursor next : Cursor} {parts : List TemplatePart} {length : Nat}
      (longest : Pattern.longest? cursor.rest = some (.opened .chevron, length))
      (inside : ReadsParts (cursor.advance length) parts next) :
      Reads cursor ⟨.chevron parts, cursor.offset, next.offset⟩ next

/-- The parts of a template are read, and the brackets that close it. -/
inductive ReadsParts : Cursor → List TemplatePart → Cursor → Prop where
  | close {cursor : Cursor} {rest : List Char} (ends : (textEnd cursor).rest = '>' :: '>' :: rest) :
      ReadsParts cursor (textPart cursor) ((textEnd cursor).advance 2)
  | interpolation {cursor next final : Cursor} {close : Nat} {rest : List Char}
      {tokens : List Lexeme} {others : List TemplatePart}
      (opens : (textEnd cursor).rest = '#' :: '{' :: rest)
      (body : ReadsBody 0 ((textEnd cursor).advance 2) tokens close next)
      (more : ReadsParts next others final) :
      ReadsParts cursor
        (textPart cursor ++ .interpolation tokens (textEnd cursor).offset close :: others) final

/-- The tokens of an interpolation with some braces open are read, and the brace that
closes it. -/
inductive ReadsBody : Nat → Cursor → List Lexeme → Nat → Cursor → Prop where
  | close {cursor next : Cursor} {start stop : Nat}
      (last : Reads cursor ⟨.punct .rightBrace, start, stop⟩ next) :
      ReadsBody 0 cursor [] start next
  | inner {depth : Nat} {cursor next final : Cursor} {lexeme : Lexeme} {tokens : List Lexeme}
      {close : Nat} (first : Reads cursor lexeme next) (stays : ¬Closes lexeme.token depth)
      (more : ReadsBody (depthAfter lexeme.token depth) next tokens close final) :
      ReadsBody depth cursor (lexeme :: tokens) close final

end

/-- The tokens from a place up to another are read. -/
inductive ReadsAll : Cursor → List Lexeme → Cursor → Prop where
  | nil {cursor : Cursor} : ReadsAll cursor [] cursor
  | cons {cursor next final : Cursor} {lexeme : Lexeme} {others : List Lexeme}
      (first : Reads cursor lexeme next) (rest : ReadsAll next others final) :
      ReadsAll cursor (lexeme :: others) final

theorem length_rest_advance_two {cursor : Cursor} {length : Nat} {first second : Char}
    {rest : List Char} (remaining : (cursor.advance length).rest = first :: second :: rest) :
    ((cursor.advance length).advance 2).rest.length < cursor.rest.length := by
  have := congrArg List.length remaining
  simp at this ⊢
  omega

mutual

theorem reads_of_lexeme {cursor : Cursor} {reading : Reading Lexeme cursor}
    (read : lexeme cursor = .ok reading) : Reads cursor reading.value reading.next := by
  rw [lexeme] at read
  split at read
  · cases read
  next pattern length found =>
    simp only at read
    split at read
    · split at read
      · cases read
      next more closed =>
        cases read
        exact .blockComment found closed
    · split at read
      · cases read
      next value more closed =>
        cases read
        exact .string found closed
    · split at read
      · cases read
      next body more closed =>
        cases read
        exact .regexp found closed rfl
    · split at read
      · cases read
      next parts closed =>
        cases read
        have shorter := Cursor.length_rest_advance cursor length
        have bounds := Pattern.longest?_bounds found
        exact .chevron found (readsParts_of_template closed)
    · cases read
      exact .plain found
termination_by 2 * cursor.rest.length
decreasing_by omega

theorem readsParts_of_template {start : Nat} {cursor : Cursor}
    {reading : Reading (List TemplatePart) cursor}
    (read : template start cursor = .ok reading) :
    ReadsParts cursor reading.value reading.next := by
  rw [template] at read
  simp only at read
  split at read
  next rest ends =>
    cases read
    exact .close ends
  next rest opens =>
    have inside := length_rest_advance_two opens
    split at read
    · cases read
    next body within =>
      split at read
      · cases read
      next others more =>
        cases read
        have inside : ((textEnd cursor).advance 2).rest.length < cursor.rest.length := inside
        have shorter := Nat.lt_trans body.shorter inside
        exact .interpolation opens (readsBody_of_interpolation within)
          (readsParts_of_template more)
  · cases read
termination_by 2 * cursor.rest.length
decreasing_by all_goals omega

theorem readsBody_of_interpolation {start depth : Nat} {cursor : Cursor}
    {reading : Reading (List Lexeme × Nat) cursor}
    (read : interpolation start depth cursor = .ok reading) :
    ReadsBody depth cursor reading.value.1 reading.value.2 reading.next := by
  rw [interpolation] at read
  split at read
  · cases read
  · split at read
    · cases read
    next first begins =>
      have shorter := first.shorter
      have inner : ∀ {deeper : Nat} {further : Reading (List Lexeme × Nat) first.next},
          ¬Closes first.value.token depth → depthAfter first.value.token depth = deeper →
          interpolation start deeper first.next = .ok further →
            ReadsBody depth cursor (first.value :: further.value.1) further.value.2
              further.next := by
        rintro deeper further stays rfl read
        exact .inner (reads_of_lexeme begins) stays (readsBody_of_interpolation read)
      simp only at read
      split at read
      next isBrace =>
        cases read
        have last := reads_of_lexeme begins
        rw [Lexeme.eq_mk_of_token isBrace] at last
        exact .close last
      next isBrace =>
        split at read
        · cases read
        next further more =>
          cases read
          exact inner (by simp [Closes]) (by rw [isBrace]; rfl) more
      next isBrace =>
        split at read
        · cases read
        next further more =>
          cases read
          exact inner (by simp [Closes, isBrace]) (by rw [isBrace]; rfl) more
      next notLeft notLast notRight =>
        split at read
        · cases read
        next further more =>
          cases read
          refine inner ?_ (depthAfter_eq_self notLeft notRight) more
          rintro ⟨isBrace, rfl⟩
          exact notLast isBrace rfl
termination_by 2 * cursor.rest.length + 1
decreasing_by all_goals omega

end

theorem rest_ne_nil {α : Type} {cursor : Cursor} (reading : Reading α cursor) :
    cursor.rest ≠ [] :=
  List.ne_nil_of_length_pos (Nat.zero_lt_of_lt reading.shorter)

mutual

/-- What is read determines what the tokenizer answers. The induction is on the reading. -/
theorem Reads.lexeme_eq {cursor next : Cursor} {value : Lexeme} :
    Reads cursor value next → ∃ reading : Reading Lexeme cursor,
      lexeme cursor = .ok reading ∧ reading.value = value ∧ reading.next = next
  | .plain longest => by
      rw [lexeme]
      split
      · simp_all
      next found =>
        rw [longest] at found
        cases found
        exact ⟨_, rfl, rfl, rfl⟩
  | .blockComment longest closed => by
      rw [lexeme]
      split
      · simp_all
      next found =>
        rw [longest] at found
        cases found
        simp only
        split
        · simp_all
        next answer =>
          rw [closed] at answer
          cases answer
          exact ⟨_, rfl, rfl, rfl⟩
  | .string longest closed => by
      rw [lexeme]
      split
      · simp_all
      next found =>
        rw [longest] at found
        cases found
        simp only
        split
        · simp_all
        next answer =>
          rw [closed] at answer
          cases answer
          exact ⟨_, rfl, rfl, rfl⟩
  | .regexp longest closed letters => by
      rw [lexeme]
      split
      · simp_all
      next found =>
        rw [longest] at found
        cases found
        simp only
        split
        · simp_all
        next answer =>
          rw [closed] at answer
          cases answer
          cases letters
          exact ⟨_, rfl, rfl, rfl⟩
  | .chevron longest inside => by
      rw [lexeme]
      split
      · simp_all
      next found =>
        rw [longest] at found
        cases found
        simp only
        obtain ⟨parts, answered, rfl, rfl⟩ := inside.template_eq cursor.offset
        rw [answered]
        exact ⟨_, rfl, rfl, rfl⟩

theorem ReadsParts.template_eq {cursor next : Cursor} {parts : List TemplatePart} (start : Nat) :
    ReadsParts cursor parts next → ∃ reading : Reading (List TemplatePart) cursor,
      template start cursor = .ok reading ∧ reading.value = parts ∧ reading.next = next
  | .close ends => by
      rw [template]
      simp only
      split
      · exact ⟨_, rfl, rfl, rfl⟩
      next other =>
        rw [ends] at other
        cases other
      next neither _ => exact (neither _ ends).elim
  | .interpolation opens body more => by
      have within := body.interpolation_eq (textEnd cursor).offset
      have further := more.template_eq start
      obtain ⟨inner, answered, same, rfl⟩ := within
      obtain ⟨others, answered', rfl, rfl⟩ := further
      rw [template]
      simp only
      split
      next other =>
        rw [opens] at other
        cases other
      · rw [answered]
        simp only [answered', same]
        exact ⟨_, rfl, rfl, rfl⟩
      next neither => exact (neither _ opens).elim

theorem ReadsBody.interpolation_eq {depth : Nat} {cursor next : Cursor} {tokens : List Lexeme}
    {close : Nat} (start : Nat) :
    ReadsBody depth cursor tokens close next → ∃ reading : Reading (List Lexeme × Nat) cursor,
      interpolation start depth cursor = .ok reading ∧ reading.value = (tokens, close) ∧
        reading.next = next
  | .close last => by
      obtain ⟨reading, answered, same, rfl⟩ := last.lexeme_eq
      rw [interpolation, if_neg (by simp [rest_ne_nil reading]), answered]
      simp only [same]
      exact ⟨_, rfl, rfl, rfl⟩
  | .inner first stays more => by
      have begins := first.lexeme_eq
      have further := more.interpolation_eq start
      obtain ⟨reading, answered, rfl, rfl⟩ := begins
      obtain ⟨others, answered', same, rfl⟩ := further
      rw [interpolation, if_neg (by simp [rest_ne_nil reading]), answered]
      simp only
      have goesOn : ∀ deeper, depthAfter reading.value.token depth = deeper →
          interpolation start deeper reading.next = .ok others := by
        rintro deeper rfl
        exact answered'
      have result : (reading.value :: others.value.1, others.value.2) = (_ :: _, _) :=
        congrArg (fun value => (reading.value :: value.1, value.2)) same
      split
      next isBrace => exact (stays ⟨isBrace, rfl⟩).elim
      next isBrace =>
        rw [goesOn _ (by rw [isBrace]; rfl)]
        exact ⟨_, rfl, result, rfl⟩
      next isBrace =>
        rw [goesOn _ (by rw [isBrace]; rfl)]
        exact ⟨_, rfl, result, rfl⟩
      next notLeft notLast notRight =>
        rw [goesOn _ (depthAfter_eq_self notLeft notRight)]
        exact ⟨_, rfl, result, rfl⟩

end

/-- A source that is tokenized is read to its end. -/
theorem readsAll_of_steps {cursor : Cursor} {lexemes : List Lexeme}
    (read : (stepsFrom cursor).mapM Step.outcome = .ok lexemes) :
    ∃ final, ReadsAll cursor lexemes final ∧ final.rest = [] := by
  fun_induction stepsFrom cursor generalizing lexemes with
  | case1 cursor atEnd =>
      cases read
      exact ⟨cursor, .nil, atEnd⟩
  | case2 cursor _ error failed =>
      rw [List.mapM_cons] at read
      cases read
  | case3 cursor _ first begins _ ih =>
      rw [List.mapM_cons] at read
      cases others : (stepsFrom first.next).mapM Step.outcome with
      | error error =>
          rw [others] at read
          cases read
      | ok tokens =>
          rw [others] at read
          cases read
          obtain ⟨final, rest, atEnd⟩ := ih others
          exact ⟨final, .cons (reads_of_lexeme begins) rest, atEnd⟩

theorem ReadsAll.steps_eq {cursor final : Cursor} {lexemes : List Lexeme}
    (reads : ReadsAll cursor lexemes final) (atEnd : final.rest = []) :
    (stepsFrom cursor).mapM Step.outcome = .ok lexemes := by
  induction reads with
  | nil =>
      rw [stepsFrom, dif_pos atEnd]
      rfl
  | cons first rest ih =>
      obtain ⟨reading, begins, rfl, rfl⟩ := first.lexeme_eq
      rw [stepsFrom, dif_neg (rest_ne_nil reading), begins]
      simp only [List.mapM_cons, ih atEnd]
      rfl

theorem tokenize_eq_ok_iff {source : String} {lexemes : List Lexeme} :
    tokenize source = .ok lexemes ↔
      ∃ final, ReadsAll ⟨0, source.toList⟩ lexemes final ∧ final.rest = [] := by
  rw [tokenize, steps]
  exact ⟨readsAll_of_steps, fun ⟨_, reads, atEnd⟩ => reads.steps_eq atEnd⟩

end Token

end Krl

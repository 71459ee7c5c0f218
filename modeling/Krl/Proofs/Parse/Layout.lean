import Krl.Proofs.Parse.Outcomes
import Krl.Proofs.Token.Boundaries

/-!
# Layout does not matter

The places that a parser can point at are landmarks: where the tokens of a source begin,
those in templates among them, and the braces that close interpolations. Numbering the
landmarks from left to right makes offsets of different layouts comparable. Sources with
tokens that are alike have the same tree up to this numbering, or the same error.
-/

namespace Krl

mutual

/-- The landmarks inside a token. -/
def Token.landmarks : Token → List Nat
  | .chevron parts => partsLandmarks parts
  | _ => []

/-- The landmarks in the parts of a template. -/
def partsLandmarks : List TemplatePart → List Nat
  | [] => []
  | .text .. :: others => partsLandmarks others
  | .interpolation tokens _ close :: others =>
      landmarks tokens ++ close :: partsLandmarks others

/-- Where tokens other than trivia begin, and where interpolations end. -/
def landmarks : List Lexeme → List Nat
  | [] => []
  | ⟨token, start, _⟩ :: others =>
      if token.isTrivia then landmarks others
      else start :: (token.landmarks ++ landmarks others)

end

/-- The number of landmarks before an offset. -/
def rankAmong (marks : List Nat) (offset : Nat) : Nat :=
  marks.countP (· < offset)

theorem monotone_rankAmong (marks : List Nat) : Monotone (rankAmong marks) := by
  intro offset offset' le
  refine List.countP_mono_left fun mark _ before => ?_
  simp only [decide_eq_true_eq] at before ⊢
  omega

theorem landmarks_significant (lexemes : List Lexeme) :
    landmarks (significant lexemes) = landmarks lexemes := by
  induction lexemes with
  | nil => rfl
  | cons first others ih =>
      obtain ⟨token, start, stop⟩ := first
      rw [significant, List.filter_cons]
      cases trivia : token.isTrivia
      · simp only [trivia, Bool.not_false, if_true, landmarks, Bool.false_eq_true, if_false]
        exact congrArg (fun marks => start :: (token.landmarks ++ marks)) ih
      · simp only [trivia, Bool.not_true, Bool.false_eq_true, if_false, landmarks, if_true]
        exact ih

mutual

theorem Token.Orderly.landmarks_within {low high : Nat} : (token : Token) →
    token.Orderly low high → ∀ mark ∈ token.landmarks, low ≤ mark ∧ mark < high
  | .chevron parts, orderly => PartsOrderly.landmarks_within parts orderly
  | .whitespace, _ | .lineComment, _ | .blockComment, _ | .number _, _ | .string _, _
  | .regexp _ _, _ | .symbol _, _ | .domainName _ _, _ | .punct _, _ => List.forall_mem_nil _

theorem PartsOrderly.landmarks_within {low high : Nat} : (parts : List TemplatePart) →
    PartsOrderly low high parts → ∀ mark ∈ partsLandmarks parts, low ≤ mark ∧ mark < high
  | [], _ => List.forall_mem_nil _
  | .text _ start stop :: others, ⟨starts, stops, rest⟩ => by
      intro mark member
      have := PartsOrderly.landmarks_within others rest mark member
      omega
  | .interpolation tokens _ close :: others, ⟨inside, rest⟩ => by
      intro mark member
      have := LexemesOrderly.le tokens inside
      have := PartsOrderly.le others rest
      rcases List.mem_append.mp member with member | member
      · have := LexemesOrderly.landmarks_within tokens inside mark member
        omega
      · rcases List.mem_cons.mp member with rfl | member
        · omega
        · have := PartsOrderly.landmarks_within others rest mark member
          omega

theorem LexemesOrderly.landmarks_within {low high : Nat} : (lexemes : List Lexeme) →
    LexemesOrderly low high lexemes → ∀ mark ∈ landmarks lexemes, low ≤ mark ∧ mark < high
  | [], _ => List.forall_mem_nil _
  | ⟨token, start, stop⟩ :: others, ⟨starts, inside, rest⟩ => by
      intro mark member
      have := Token.Orderly.le token inside
      have := LexemesOrderly.le others rest
      have later := LexemesOrderly.landmarks_within others rest mark
      rw [landmarks] at member
      split at member
      · have := later member
        omega
      · rcases List.mem_cons.mp member with rfl | member
        · omega
        · rcases List.mem_append.mp member with member | member
          · have := Token.Orderly.landmarks_within token inside mark member
            omega
          · have := later member
            omega

end

mutual

theorem Token.Alike.length_landmarks {blame near : Nat → Nat → Prop} {token token' : Token} :
    Token.Alike blame near token token' → token.landmarks.length = token'.landmarks.length
  | .plain _ => rfl
  | .chevron alike => alike.length_landmarks

theorem PartsAlike.length_landmarks {blame near : Nat → Nat → Prop}
    {parts parts' : List TemplatePart} : PartsAlike blame near parts parts' →
      (partsLandmarks parts).length = (partsLandmarks parts').length
  | .nil => rfl
  | .text _ _ rest => rest.length_landmarks
  | .interpolation alike _ rest => by
      have inside := alike.length_landmarks
      rw [landmarks_significant, landmarks_significant] at inside
      simp only [partsLandmarks, List.length_append, List.length_cons, inside,
        rest.length_landmarks]

theorem LexemesAlike.length_landmarks {blame near : Nat → Nat → Prop}
    {lexemes lexemes' : List Lexeme} : LexemesAlike blame near lexemes lexemes' →
      (landmarks lexemes).length = (landmarks lexemes').length
  | .nil => rfl
  | .cons alike _ _ _ rest => by
      have inside := alike.length_landmarks
      have others := rest.length_landmarks
      rw [landmarks, landmarks, alike.isTrivia_eq]
      split
      · exact others
      · simp only [List.length_cons, List.length_append, inside, others]

end

theorem rankAmong_append (left right : List Nat) (offset : Nat) :
    rankAmong (left ++ right) offset = rankAmong left offset + rankAmong right offset :=
  List.countP_append

theorem rankAmong_eq_zero {marks : List Nat} {offset : Nat}
    (later : ∀ mark ∈ marks, offset ≤ mark) : rankAmong marks offset = 0 := by
  rw [rankAmong, List.countP_eq_zero]
  intro mark member
  simpa using later mark member

theorem rankAmong_eq_length {marks : List Nat} {offset : Nat}
    (earlier : ∀ mark ∈ marks, mark < offset) : rankAmong marks offset = marks.length := by
  rw [rankAmong, List.countP_eq_length]
  intro mark member
  simpa using earlier mark member

/-- Some of all landmarks. Where they stand, from an offset up to another, all landmarks
count as much as these do, and as a number of earlier ones. -/
structure Amid (all : List Nat) (count : Nat) (inner : List Nat) (low high : Nat) : Prop where
  known : ∀ mark ∈ inner, mark ∈ all
  rank : ∀ offset, low ≤ offset → offset ≤ high →
    rankAmong all offset = count + rankAmong inner offset

namespace Amid

variable {all inner left right : List Nat} {count low middle high offset : Nat}

theorem eq_count (amid : Amid all count inner low high) (above : low ≤ offset)
    (below : offset ≤ high) (later : ∀ mark ∈ inner, offset ≤ mark) :
    rankAmong all offset = count := by
  rw [amid.rank offset above below, rankAmong_eq_zero later, Nat.add_zero]

theorem narrow (amid : Amid all count inner low high) (above : low ≤ middle) :
    Amid all count inner middle high :=
  ⟨amid.known, fun offset within below => amid.rank offset (Nat.le_trans above within) below⟩

theorem first (amid : Amid all count (left ++ right) low high) (below : middle ≤ high)
    (later : ∀ mark ∈ right, middle ≤ mark) : Amid all count left low middle where
  known := fun mark member => amid.known mark (List.mem_append_left _ member)
  rank := by
    intro offset above within
    rw [amid.rank offset above (Nat.le_trans within below), rankAmong_append,
      rankAmong_eq_zero fun mark member => Nat.le_trans within (later mark member), Nat.add_zero]

theorem second (left : List Nat) (amid : Amid all count (left ++ right) low high)
    (above : low ≤ middle) (earlier : ∀ mark ∈ left, mark < middle) :
    Amid all (count + left.length) right middle high where
  known := fun mark member => amid.known mark (List.mem_append_right _ member)
  rank := by
    intro offset within below
    rw [amid.rank offset (Nat.le_trans above within) below, rankAmong_append,
      rankAmong_eq_length fun mark member => Nat.lt_of_lt_of_le (earlier mark member) within,
      Nat.add_assoc]

end Amid

/-- The landmarks of an interpolation, and those behind it. -/
theorem PartsOrderly.split_interpolation {all : List Nat} {tokens : List Lexeme}
    {others : List TemplatePart} {start close count low high : Nat}
    (orderly : PartsOrderly low high (.interpolation tokens start close :: others))
    (amid : Amid all count (partsLandmarks (.interpolation tokens start close :: others)) low
      high) :
    Amid all count (landmarks (significant tokens)) low close ∧
      Amid all (count + (landmarks tokens).length + 1) (partsLandmarks others) (close + 1) high ∧
        close ∈ all ∧ rankAmong all close = count + (landmarks tokens).length := by
  obtain ⟨inside, rest⟩ := orderly
  have within := LexemesOrderly.landmarks_within tokens inside
  have later := PartsOrderly.landmarks_within others rest
  have begins := LexemesOrderly.le tokens inside
  have ends := PartsOrderly.le others rest
  have marks : ∀ mark ∈ close :: partsLandmarks others, close ≤ mark :=
    List.forall_mem_cons.mpr ⟨Nat.le_refl _, fun mark member =>
      Nat.le_of_succ_le (later mark member).1⟩
  have behind := amid.second _ begins fun mark member => (within mark member).2
  rw [landmarks_significant]
  exact ⟨amid.first (by omega) marks,
    Amid.second [close] behind (Nat.le_succ _)
      (List.forall_mem_singleton.mpr (Nat.lt_succ_self _)),
    behind.known close List.mem_cons_self, behind.eq_count (Nat.le_refl _) (by omega) marks⟩

/-- The landmarks of a token other than trivia, and those behind it. -/
theorem LexemesOrderly.split_cons {all : List Nat} {token : Token} {others : List Lexeme}
    {start stop count low high : Nat}
    (orderly : LexemesOrderly low high (⟨token, start, stop⟩ :: others))
    (seen : token.isTrivia = false)
    (amid : Amid all count (landmarks (⟨token, start, stop⟩ :: others)) low high) :
    Amid all (count + 1) token.landmarks (start + 1) stop ∧
      Amid all (count + 1 + token.landmarks.length) (landmarks others) stop high ∧
        (start ∈ all ∧ rankAmong all start = count) ∧
          rankAmong all stop = count + 1 + token.landmarks.length := by
  obtain ⟨starts, inside, rest⟩ := orderly
  have within := Token.Orderly.landmarks_within token inside
  have stops := Token.Orderly.le token inside
  have ends := LexemesOrderly.le others rest
  have behind : ∀ mark ∈ landmarks others, stop ≤ mark :=
    fun mark member => (LexemesOrderly.landmarks_within others rest mark member).1
  have marks : ∀ mark ∈ start :: (token.landmarks ++ landmarks others), start ≤ mark := by
    refine List.forall_mem_cons.mpr ⟨Nat.le_refl _, fun mark member => ?_⟩
    rcases List.mem_append.mp member with member | member
    · exact Nat.le_of_succ_le (within mark member).1
    · exact Nat.le_trans (Nat.le_of_succ_le stops) (behind mark member)
  rw [landmarks, if_neg (by simp [seen])] at amid
  have onward : Amid all (count + 1) (token.landmarks ++ landmarks others) (start + 1) high :=
    Amid.second [start] amid (Nat.le_succ_of_le starts)
      (List.forall_mem_singleton.mpr (Nat.lt_succ_self _))
  have last := onward.second _ stops fun mark member => (within mark member).2
  exact ⟨onward.first ends behind, last,
    ⟨amid.known start List.mem_cons_self, amid.eq_count starts (by omega) marks⟩,
    last.eq_count (Nat.le_refl _) ends behind⟩

theorem isTrivia_of_mem_significant {lexemes : List Lexeme} :
    ∀ lexeme ∈ significant lexemes, lexeme.token.isTrivia = false := by
  intro lexeme member
  simpa using (List.mem_filter.mp member).2

/-- Two offsets are landmarks with the same number. -/
def SameLandmark (all all' : List Nat) (offset offset' : Nat) : Prop :=
  offset ∈ all ∧ offset' ∈ all' ∧ rankAmong all offset = rankAmong all' offset'

section Meet

variable {blame near : Nat → Nat → Prop} {all all' : List Nat}

mutual

/-- Numbered landmarks of tokens that are alike and stand in order meet. The induction is
on how the tokens are alike. -/
theorem Token.Alike.meet {token token' : Token} {count low high low' high' : Nat} :
    Token.Alike blame near token token' → token.Orderly low high → token'.Orderly low' high' →
      Amid all count token.landmarks low high → Amid all' count token'.landmarks low' high' →
        Token.Alike (SameLandmark all all') (Meet (rankAmong all) (rankAmong all')) token token'
  | .plain plain, _, _, _, _ => .plain plain
  | .chevron alike, orderly, orderly', amid, amid' =>
      .chevron (alike.meet orderly orderly' amid amid')

theorem PartsAlike.meet {parts parts' : List TemplatePart} {count low high low' high' : Nat} :
    PartsAlike blame near parts parts' → PartsOrderly low high parts →
      PartsOrderly low' high' parts' → Amid all count (partsLandmarks parts) low high →
        Amid all' count (partsLandmarks parts') low' high' →
          PartsAlike (SameLandmark all all') (Meet (rankAmong all) (rankAmong all')) parts parts'
  | .nil, _, _, _, _ => .nil
  | @PartsAlike.text _ _ _ _ _ _ _ others others' _ _ rest, ⟨starts, stops, orderly⟩,
      ⟨starts', stops', orderly'⟩, amid, amid' => by
      have ends := PartsOrderly.le others orderly
      have ends' := PartsOrderly.le others' orderly'
      have later := fun mark member => (PartsOrderly.landmarks_within others orderly mark member).1
      have later' := fun mark member =>
        (PartsOrderly.landmarks_within others' orderly' mark member).1
      refine .text ?_ ?_ (rest.meet orderly orderly' (amid.narrow (Nat.le_trans starts stops))
        (amid'.narrow (Nat.le_trans starts' stops')))
      · rw [Meet, amid.eq_count starts (Nat.le_trans stops ends) fun mark member =>
            Nat.le_trans stops (later mark member),
          amid'.eq_count starts' (Nat.le_trans stops' ends') fun mark member =>
            Nat.le_trans stops' (later' mark member)]
      · rw [Meet, amid.eq_count (Nat.le_trans starts stops) ends later,
          amid'.eq_count (Nat.le_trans starts' stops') ends' later']
  | .interpolation alike _ rest, orderly, orderly', amid, amid' => by
      have same := alike.length_landmarks
      rw [landmarks_significant, landmarks_significant] at same
      obtain ⟨inside, behind, known, closes⟩ := orderly.split_interpolation amid
      obtain ⟨inside', behind', known', closes'⟩ := orderly'.split_interpolation amid'
      rw [← same] at behind' closes'
      exact .interpolation
        (alike.meet isTrivia_of_mem_significant orderly.1.significant orderly'.1.significant inside
          inside')
        ⟨known, known', closes.trans closes'.symm⟩ (rest.meet orderly.2 orderly'.2 behind behind')

theorem LexemesAlike.meet {lexemes lexemes' : List Lexeme} {count low high low' high' : Nat} :
    LexemesAlike blame near lexemes lexemes' →
      (∀ lexeme ∈ lexemes, lexeme.token.isTrivia = false) → LexemesOrderly low high lexemes →
        LexemesOrderly low' high' lexemes' → Amid all count (landmarks lexemes) low high →
          Amid all' count (landmarks lexemes') low' high' →
            LexemesAlike (SameLandmark all all') (Meet (rankAmong all) (rankAmong all')) lexemes
              lexemes'
  | .nil, _, _, _, _, _ => .nil
  | .cons alike _ _ touch rest, seen, orderly, orderly', amid, amid' => by
      have same := alike.length_landmarks
      rw [List.forall_mem_cons] at seen
      obtain ⟨inside, behind, ⟨known, starts⟩, stops⟩ := orderly.split_cons seen.1 amid
      obtain ⟨inside', behind', ⟨known', starts'⟩, stops'⟩ :=
        orderly'.split_cons (alike.isTrivia_eq.symm.trans seen.1) amid'
      rw [← same] at behind' stops'
      exact .cons (alike.meet orderly.2.1 orderly'.2.1 inside inside')
        ⟨known, known', starts.trans starts'.symm⟩ (stops.trans stops'.symm) touch
        (rest.meet seen.2 orderly.2.2 orderly'.2.2 behind behind')

end

end Meet

/-- Errors of the same kind that blame the same landmark, or the end of the source. -/
inductive SameBlame (all all' : List Nat) : ParseError → ParseError → Prop where
  | syntactic {offset offset' : Option Nat} {message message' : String}
      {location location' : Option Location}
      (same : Option.Rel (SameLandmark all all') offset offset') :
      SameBlame all all' (.syntactic offset message location)
        (.syntactic offset' message' location')
  | ambiguous {count : Nat} : SameBlame all all' (.ambiguous count) (.ambiguous count)

theorem SameBlame.locate {all all' : List Nat} {error error' : ParseError}
    (same : SameBlame all all' error error') (source source' : String)
    (filename filename' : Option String) :
    SameBlame all all' (error.locate source filename) (error'.locate source' filename') := by
  cases same with
  | @syntactic offset offset' message message' location location' same =>
      obtain ⟨_, _, located⟩ := ParseError.locate_syntactic source filename offset message location
      obtain ⟨_, _, located'⟩ :=
        ParseError.locate_syntactic source' filename' offset' message' location'
      rw [located, located']
      exact .syntactic same
  | ambiguous => exact .ambiguous

/-- Outcomes of parsing that agree: trees that are the same once every offset has been
replaced by the number of landmarks before it, or errors that blame the same landmark. -/
def SameOutcome (all all' : List Nat) :
    Except ParseError Program → Except ParseError Program → Prop :=
  Agree (SameBlame all all') fun program program' =>
    program.placed (rankAmong all) = program'.placed (rankAmong all')

theorem sameOutcome_of_agree {all all' : List Nat} {outcome outcome' : Except ParseError Program}
    (agree : Agree (SameError (SameLandmark all all'))
      (SamePlaced (rankAmong all) (rankAmong all')) outcome outcome') :
    SameOutcome all all' outcome outcome' := by
  cases agree with
  | ok same => exact .ok same
  | error same =>
      cases same with
      | noParse same => exact .error (.syntactic same)

theorem SameOutcome.located {all all' : List Nat} {outcome outcome' : Except ParseError Program}
    (same : SameOutcome all all' outcome outcome') (source source' : String)
    (filename filename' : Option String) :
    SameOutcome all all' (outcome.mapError (ParseError.locate source filename))
      (outcome'.mapError (ParseError.locate source' filename')) := by
  cases same with
  | ok same => exact .ok same
  | error same => exact .error (same.locate source source' filename filename')

theorem tokenized_orderly {source : String} {lexemes : List Lexeme}
    (read : Token.tokenize source = .ok lexemes) :
    LexemesOrderly 0 (Text.byteLength source.toList) lexemes := by
  obtain ⟨final, reads, atEnd⟩ := Token.tokenize_eq_ok_iff.mp read
  have stops := reads.offset_eq atEnd
  rw [Nat.zero_add] at stops
  rw [← stops]
  exact reads.orderly

section Checks

instance (first : Lexeme) (others : List Lexeme) : Decidable (Touches first others) :=
  inferInstanceAs (Decidable (∃ next ∈ others.head?, first.stop = next.start))

/-- Whether two tokens are the same word, and no templates. -/
def Token.isSame : Token → Token → Bool
  | .whitespace, .whitespace | .lineComment, .lineComment | .blockComment, .blockComment => true
  | .number value, .number value' => value = value'
  | .string value, .string value' => value = value'
  | .regexp pattern flags, .regexp pattern' flags' => pattern = pattern' ∧ flags = flags'
  | .symbol word, .symbol word' => word = word'
  | .domainName domain name, .domainName domain' name' => domain = domain' ∧ name = name'
  | .punct mark, .punct mark' => mark = mark'
  | _, _ => false

theorem Token.isSame_iff (token token' : Token) :
    token.isSame token' = true ↔ token = token' ∧ ∀ parts, token ≠ .chevron parts := by
  cases token <;> cases token' <;> simp [isSame]

mutual

/-- Whether two tokens are alike, wherever they stand. -/
def Token.isAlike : Token → Token → Bool
  | .chevron parts, .chevron parts' => arePartsAlike parts parts'
  | token, token' => token.isSame token'

/-- Whether the parts of two templates are alike. -/
def arePartsAlike : List TemplatePart → List TemplatePart → Bool
  | [], [] => true
  | .text value _ _ :: others, .text value' _ _ :: others' =>
      value = value' && arePartsAlike others others'
  | .interpolation tokens _ _ :: others, .interpolation tokens' _ _ :: others' =>
      areAlike tokens (significant tokens') && arePartsAlike others others'
  | _, _ => false

/-- Whether the significant ones of the first tokens and the other tokens are alike. -/
def areAlike : List Lexeme → List Lexeme → Bool
  | [], lexemes' => lexemes'.isEmpty
  | ⟨token, start, stop⟩ :: others, lexemes' =>
      if token.isTrivia then areAlike others lexemes'
      else
        match lexemes' with
        | [] => false
        | lexeme' :: others' =>
            token.isAlike lexeme'.token && areAlike others others' &&
              decide (Touches ⟨token, start, stop⟩ (significant others) ↔ Touches lexeme' others')

end

mutual

theorem Token.alike_of_isAlike : (token token' : Token) → token.isAlike token' = true →
    Token.Alike (fun _ _ => True) (fun _ _ => True) token token'
  | .chevron parts, .chevron parts', same => .chevron (partsAlike_of_check parts parts' same)
  | .whitespace, _, same | .lineComment, _, same | .blockComment, _, same | .number _, _, same
  | .string _, _, same | .regexp _ _, _, same | .symbol _, _, same | .domainName _ _, _, same
  | .punct _, _, same => by
      obtain ⟨rfl, plain⟩ := (Token.isSame_iff _ _).mp same
      exact .plain plain

theorem partsAlike_of_check : (parts parts' : List TemplatePart) →
    arePartsAlike parts parts' = true →
      PartsAlike (fun _ _ => True) (fun _ _ => True) parts parts'
  | [], [], _ => .nil
  | .text _ _ _ :: others, .text _ _ _ :: others', same => by
      rw [arePartsAlike, Bool.and_eq_true, decide_eq_true_eq] at same
      obtain ⟨rfl, rest⟩ := same
      exact .text trivial trivial (partsAlike_of_check others others' rest)
  | .interpolation tokens _ _ :: others, .interpolation tokens' _ _ :: others', same => by
      rw [arePartsAlike, Bool.and_eq_true] at same
      exact .interpolation (lexemesAlike_of_check tokens _ same.1) trivial
        (partsAlike_of_check others others' same.2)

theorem lexemesAlike_of_check : (lexemes lexemes' : List Lexeme) →
    areAlike lexemes lexemes' = true →
      LexemesAlike (fun _ _ => True) (fun _ _ => True) (significant lexemes) lexemes'
  | [], [], _ => .nil
  | ⟨token, start, stop⟩ :: others, lexemes', same => by
      rw [areAlike.eq_def] at same
      dsimp only at same
      rw [significant, List.filter_cons]
      cases trivia : token.isTrivia with
      | true =>
          rw [trivia, if_pos rfl] at same
          exact lexemesAlike_of_check others lexemes' same
      | false =>
          rw [trivia, if_neg Bool.false_ne_true] at same
          cases lexemes' with
          | nil => cases same
          | cons lexeme' others' =>
              obtain ⟨token', start', stop'⟩ := lexeme'
              rw [Bool.and_eq_true, Bool.and_eq_true, decide_eq_true_eq] at same
              obtain ⟨⟨alike, rest⟩, touch⟩ := same
              rw [Bool.not_false, if_pos rfl]
              exact .cons (Token.alike_of_isAlike token token' alike) trivial trivial touch
                (lexemesAlike_of_check others others' rest)

end

end Checks

/-- Layout does not matter. Two sources with tokens that are alike, no matter where they
stand, have trees that are equal up to the numbers of the tokens that their nodes cover, or
they fail in the same way at the same landmark. -/
theorem parse_layout {source source' : String} {lexemes lexemes' : List Lexeme}
    (read : Token.tokenize source = .ok lexemes) (read' : Token.tokenize source' = .ok lexemes')
    (alike : LexemesAlike (fun _ _ => True) (fun _ _ => True) (significant lexemes)
      (significant lexemes'))
    (options options' : ParseOptions) :
    SameOutcome (landmarks lexemes) (landmarks lexemes') (parse source options)
      (parse source' options') := by
  have orderly := tokenized_orderly read
  have orderly' := tokenized_orderly read'
  have whole : ∀ marks high, Amid marks 0 marks 0 high :=
    fun marks high => ⟨fun _ member => member, fun _ _ _ => (Nat.zero_add _).symm⟩
  have length := alike.length_landmarks
  rw [landmarks_significant, landmarks_significant] at length
  have amid := whole (landmarks (significant lexemes)) (Text.byteLength source.toList)
  have amid' := whole (landmarks (significant lexemes')) (Text.byteLength source'.toList)
  have meet := alike.meet isTrivia_of_mem_significant orderly.significant orderly'.significant amid
    amid'
  rw [landmarks_significant, landmarks_significant] at meet
  have placement : Placement (SameLandmark (landmarks lexemes) (landmarks lexemes'))
      (rankAmong (landmarks lexemes)) (rankAmong (landmarks lexemes')) :=
    ⟨monotone_rankAmong _, monotone_rankAmong _, fun same => same.2.2⟩
  have stops : rankAmong (landmarks lexemes) (Text.byteLength source.toList) =
      rankAmong (landmarks lexemes') (Text.byteLength source'.toList) := by
    rw [rankAmong_eq_length fun mark member =>
        (LexemesOrderly.landmarks_within lexemes orderly mark member).2,
      rankAmong_eq_length fun mark member =>
        (LexemesOrderly.landmarks_within lexemes' orderly' mark member).2, length]
  have leaves := meet.leavesAlike (meet.leaves placement)
  rw [← significantLeaves_leavesOf, ← significantLeaves_leavesOf] at leaves
  rw [SameOutcome, parse_eq, parse_eq, outcomeFrom_parseSource_of_ok read,
    outcomeFrom_parseSource_of_ok read']
  refine SameOutcome.located ?_ source source' options.filename options'.filename
  rcases leaves.parseLeaves placement .main stops .none with agrees | ⟨tally, _, _, fails⟩
  · exact sameOutcome_of_agree (agrees _ _)
  · obtain ⟨several, several'⟩ := fails
      ([.parsing (Text.byteLength source.toList) options.filename] ++ [.tokenized lexemes.length])
      ([.parsing (Text.byteLength source'.toList) options'.filename] ++
        [.tokenized lexemes'.length])
    rw [several, several']
    exact .error .ambiguous

/-- A ruleset with a dotted name and a template, on one line, and on several lines with
comments. The parts of the name and the template still touch what they touched. -/
theorem parse_layout_lines :
    let source := "ruleset a.b \x7b meta \x7b name <<x#\x7by + 1\x7d>> \x7d \x7d"
    let source' :=
      "ruleset // dotted\n a.b \x7b\n meta \x7b name\n<<x#\x7b y /* sum */ + 1 \x7d>>\n\x7d \x7d"
    ∃ lexemes lexemes',
      Token.tokenize source = .ok lexemes ∧ Token.tokenize source' = .ok lexemes' ∧
      landmarks lexemes = [0, 8, 9, 10, 12, 14, 19, 21, 26, 31, 33, 35, 36, 40, 42] ∧
      landmarks lexemes' = [0, 19, 20, 21, 23, 26, 31, 33, 38, 44, 56, 58, 60, 64, 66] ∧
      LexemesAlike (fun _ _ => True) (fun _ _ => True) (significant lexemes)
        (significant lexemes') ∧
      SameOutcome (landmarks lexemes) (landmarks lexemes') (parse source .none)
        (parse source' .none) := by
  intro source source'
  have marks : (Token.tokenize source).toOption.map landmarks =
      some [0, 8, 9, 10, 12, 14, 19, 21, 26, 31, 33, 35, 36, 40, 42] := by
    decide +kernel
  have marks' : (Token.tokenize source').toOption.map landmarks =
      some [0, 19, 20, 21, 23, 26, 31, 33, 38, 44, 56, 58, 60, 64, 66] := by
    decide +kernel
  have checked : (Token.tokenize source).toOption.bind (fun lexemes =>
      (Token.tokenize source').toOption.map fun lexemes' =>
        areAlike lexemes (significant lexemes')) = some true := by
    decide +kernel
  obtain ⟨lexemes, read, marks⟩ := exists_ok_of_toOption_map marks
  obtain ⟨lexemes', read', marks'⟩ := exists_ok_of_toOption_map marks'
  rw [read, read'] at checked
  have alike := lexemesAlike_of_check lexemes _ (Option.some.inj checked)
  exact ⟨lexemes, lexemes', read, read', marks, marks', alike,
    parse_layout read read' alike .none .none⟩

end Krl

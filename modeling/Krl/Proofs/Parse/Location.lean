import Krl.Proofs.Diagnostic.Message
import Krl.Proofs.Diagnostic.Positions
import Krl.Proofs.Parse.Embedding
import Krl.Proofs.Token.Failures

/-!
# Where errors point

An error of the tokenizer points at the beginning of a token or of an interpolation, one of the
grammar at a landmark. All of these lie between characters of the source, so every error that
points at a byte has a line and a column, and its message shows the line.
-/

namespace Krl

/-- The message and the location of an error tell the position of a byte of a source, with the
line there and those around it. -/
def LocatedAt (source : String) (filename : Option String) (text : String) (offset : Nat)
    (message : String) (location : Option Location) : Prop :=
  ∃ line column, Position.ofOffset? source offset = some ⟨line, column⟩ ∧
    location = some ⟨filename, line, column, excerpt source line column 3⟩ ∧
    message = text ++ "\n" ++ filename.getD "" ++ ":" ++ toString line ++ ":" ++
      toString column ++ "\n \n" ++ excerpt source line column 0

/-- What can be wrong with a source, and how it is reported. -/
inductive Reported (source : String) (filename : Option String) : ParseError → Prop where
  /-- The source is not a sequence of tokens. -/
  | lexical {kind : LexError.Kind} {offset : Nat} {message : String} {location : Option Location}
      (failed : Token.tokenize source = .error ⟨kind, offset⟩)
      (located : LocatedAt source filename kind.message offset message location) :
      Reported source filename (.lexical kind offset message location)
  /-- No derivation takes the token at an offset, or the brace there ends an interpolation too
  early. -/
  | blamed {lexemes : List Lexeme} {offset : Nat} {message : String} {location : Option Location}
      (read : Token.tokenize source = .ok lexemes)
      (located : LocatedAt source filename "No possible parsings" offset message location) :
      Reported source filename (.syntactic (some offset) message location)
  /-- The source ends too early. -/
  | early {lexemes : List Lexeme} (read : Token.tokenize source = .ok lexemes) :
      Reported source filename (.syntactic none "No possible parsings" none)
  | ambiguous {lexemes : List Lexeme} {count : Nat} (read : Token.tokenize source = .ok lexemes) :
      Reported source filename (.ambiguous count)

variable {source : String}

theorem Token.IsAhead.isBoundary {cursor : Cursor} {offset : Nat}
    (ahead : Token.IsAhead cursor offset) (inside : cursor.In source) :
    IsBoundary source offset := by
  obtain ⟨count, rfl⟩ := ahead
  exact (inside.advance count).isBoundary

/-- Errors of the tokenizer point between characters. -/
theorem isBoundary_of_tokenize {error : LexError} (failed : Token.tokenize source = .error error) :
    IsBoundary source error.offset := by
  obtain ⟨lexemes, place, reads, _, fails⟩ := Token.fails_of_tokenize failed
  have start : Cursor.In source ⟨0, source.toList⟩ := ⟨0, rfl⟩
  exact fails.isAhead.isBoundary (start.of_advances reads.advances)

section Landmarks

/-- An offset at which a token of an interpolation begins, or its closing brace stands. -/
def Interpolation.Marks (interpolation : Interpolation) (offset : Nat) : Prop :=
  offset = interpolation.close ∨ ∃ lexeme ∈ interpolation.tokens, offset = lexeme.start

mutual

theorem Token.marks_of_mem_landmarks : (token : Token) → ∀ mark ∈ token.landmarks,
    ∃ interpolation ∈ token.interpolations, interpolation.Marks mark
  | .chevron parts => marks_of_mem_partsLandmarks parts
  | .whitespace | .lineComment | .blockComment | .number _ | .string _ | .regexp _ _ | .symbol _
  | .domainName _ _ | .punct _ => List.forall_mem_nil _

theorem marks_of_mem_partsLandmarks : (parts : List TemplatePart) →
    ∀ mark ∈ partsLandmarks parts,
      ∃ interpolation ∈ partsInterpolations parts, interpolation.Marks mark
  | [] => List.forall_mem_nil _
  | .text .. :: others => marks_of_mem_partsLandmarks others
  | .interpolation tokens start close :: others => by
      have here := marks_of_mem_landmarks tokens
      have later := marks_of_mem_partsLandmarks others
      rw [partsLandmarks, partsInterpolations, List.forall_mem_append, List.forall_mem_cons]
      refine ⟨fun mark member => ?_, ⟨_, List.mem_cons_self, .inl rfl⟩, fun mark member => ?_⟩
      · rcases here mark member with begins | ⟨inner, contained, marks⟩
        · exact ⟨_, List.mem_cons_self, .inr begins⟩
        · exact ⟨inner, List.mem_cons_of_mem _ (List.mem_append_left _ contained), marks⟩
      · obtain ⟨inner, contained, marks⟩ := later mark member
        exact ⟨inner, List.mem_cons_of_mem _ (List.mem_append_right _ contained), marks⟩

/-- A landmark is where a token begins, or one of an interpolation. -/
theorem marks_of_mem_landmarks : (lexemes : List Lexeme) → ∀ mark ∈ landmarks lexemes,
    (∃ lexeme ∈ lexemes, mark = lexeme.start) ∨
      ∃ interpolation ∈ interpolationsIn lexemes, interpolation.Marks mark
  | [] => List.forall_mem_nil _
  | ⟨token, start, stop⟩ :: others => by
      have here := token.marks_of_mem_landmarks
      have later := marks_of_mem_landmarks others
      have behind : ∀ mark ∈ landmarks others,
          (∃ lexeme ∈ ⟨token, start, stop⟩ :: others, mark = lexeme.start) ∨
            ∃ interpolation ∈ interpolationsIn (⟨token, start, stop⟩ :: others),
              interpolation.Marks mark := by
        intro mark member
        rcases later mark member with ⟨lexeme, begins, same⟩ | ⟨inner, contained, marks⟩
        · exact .inl ⟨lexeme, List.mem_cons_of_mem _ begins, same⟩
        · exact .inr ⟨inner, List.mem_append_right _ contained, marks⟩
      rw [landmarks]
      split
      · exact behind
      · rw [List.forall_mem_cons, List.forall_mem_append]
        refine ⟨.inl ⟨_, List.mem_cons_self, rfl⟩, fun mark member => .inr ?_, behind⟩
        obtain ⟨inner, contained, marks⟩ := here mark member
        exact ⟨inner, List.mem_append_left _ contained, marks⟩

end

/-- Landmarks lie between characters. -/
theorem isBoundary_of_mem_landmarks {lexemes : List Lexeme}
    (read : Token.tokenize source = .ok lexemes) {mark : Nat} (member : mark ∈ landmarks lexemes) :
    IsBoundary source mark := by
  obtain ⟨final, reads, _⟩ := Token.tokenize_eq_ok_iff.mp read
  have start : Cursor.In source ⟨0, source.toList⟩ := ⟨0, rfl⟩
  rcases marks_of_mem_landmarks lexemes mark member with
    ⟨lexeme, begins, rfl⟩ | ⟨interpolation, contained, marks⟩
  · exact ((reads.boundaries start).1 lexeme begins).1
  · obtain ⟨cursor, final, inside, body, _, closes⟩ := reads.readIn start interpolation contained
    obtain ⟨boundaries, last⟩ := body.boundaries inside
    rcases marks with rfl | ⟨lexeme, begins, rfl⟩
    · exact closes ▸ last
    · exact (boundaries lexeme begins).1

end Landmarks

namespace ParseError

/-- A lexical error is located where it points. -/
theorem locate_ofLexError (filename : Option String) {error : LexError}
    (boundary : IsBoundary source error.offset) :
    ∃ message location, (ofLexError error).locate source filename =
        .lexical error.kind error.offset message location ∧
      LocatedAt source filename error.kind.message error.offset message location := by
  obtain ⟨position, found⟩ := Position.exists_ofOffset?_iff.mpr boundary
  have bound : (ofLexError error).offset.bind (Position.ofOffset? source) = some position := found
  refine ⟨locatedMessage source filename position error.kind.message, _, ?_, position.line,
    position.column, found, rfl, ?_⟩
  · rw [locate, bound]
    rfl
  · rw [locatedMessage, Message.clean_lexical]

/-- A syntax error that points at a byte is located there. What token is found does not
matter. -/
theorem locate_noParse (filename : Option String) {offset : Nat} (found : Option String)
    (boundary : IsBoundary source offset) :
    ∃ message location, (noParse (some offset) found).locate source filename =
        .syntactic (some offset) message location ∧
      LocatedAt source filename "No possible parsings" offset message location := by
  obtain ⟨position, here⟩ := Position.exists_ofOffset?_iff.mpr boundary
  have bound : (noParse (some offset) found).offset.bind (Position.ofOffset? source) =
      some position := here
  refine ⟨locatedMessage source filename position (noParse (some offset) found).message, _, ?_,
    position.line, position.column, here, rfl, ?_⟩
  · rw [locate, bound]
    rfl
  · rw [locatedMessage, Message.clean_noParse]
    rfl

end ParseError

/-- Every failure is reported as an error of the tokenizer, as a syntax error, or as an
ambiguity, and is located consistently if there is a byte to point at. -/
theorem parse_reports {options : ParseOptions} {error : ParseError}
    (failed : parse source options = .error error) : Reported source options.filename error := by
  rw [parse_eq] at failed
  cases read : Token.tokenize source with
  | error lexError =>
      rw [outcomeFrom_parseSource_of_error read] at failed
      cases failed
      obtain ⟨message, location, located, at_⟩ :=
        ParseError.locate_ofLexError options.filename (isBoundary_of_tokenize read)
      rw [located]
      exact .lexical read at_
  | ok lexemes =>
      rw [outcomeFrom_parseSource_of_ok read] at failed
      rcases outcome_parseLeaves .main lexemes (Text.byteLength source.toList) none _ with
        ⟨value, outcome, _⟩ | ⟨offset, found, outcome, _⟩ | ⟨count, outcome, _⟩
      · rw [outcome] at failed
        cases failed
      · rw [outcome] at failed
        cases failed
        cases offset with
        | none => exact .early read
        | some offset =>
            have boundary := isBoundary_of_mem_landmarks read (blamed_mem read outcome)
            obtain ⟨message, location, located, at_⟩ :=
              ParseError.locate_noParse options.filename found boundary
            rw [located]
            exact .blamed read at_
      · rw [outcome] at failed
        cases failed
        exact .ambiguous read

/-- A closing parenthesis in an interpolation is blamed. -/
theorem parse_reports_parenthesis :
    ∃ error, parse "a = <<\n#\x7b1 )\x7d>>" ⟨some "a.krl"⟩ = .error error ∧
      error = .syntactic (some 11) "No possible parsings\na.krl:2:5\n \n#\x7b1 )\x7d>>\n    ^"
        (some ⟨some "a.krl", 2, 5, "a = <<\n#\x7b1 )\x7d>>\n    ^"⟩) ∧
      Reported "a = <<\n#\x7b1 )\x7d>>" (some "a.krl") error := by
  have blamed : (match parse "a = <<\n#\x7b1 )\x7d>>" ⟨some "a.krl"⟩ with
      | .error error => some error
      | .ok _ => none) =
      some (.syntactic (some 11) "No possible parsings\na.krl:2:5\n \n#\x7b1 )\x7d>>\n    ^"
        (some ⟨some "a.krl", 2, 5, "a = <<\n#\x7b1 )\x7d>>\n    ^"⟩)) := by
    decide +kernel
  cases outcome : parse "a = <<\n#\x7b1 )\x7d>>" ⟨some "a.krl"⟩ with
  | ok tree =>
      rw [outcome] at blamed
      cases blamed
  | error error =>
      rw [outcome] at blamed
      exact ⟨error, rfl, Option.some.inj blamed, parse_reports outcome⟩

end Krl

import Krl.Proofs.Parse.Layout
import Krl.Proofs.Parse.Slices

/-!
# Interpolations are parsed like texts of their own

The tokens of an interpolation are those of its body, the text between its braces. So what
becomes of the interpolation is what becomes of the body alone, with every offset counted
from the beginning of the source instead. Only when the body ends too early there is a byte to
blame in the source, the closing brace, and none in the body.
-/

namespace Krl

/-- The expression that the interpolation stands for. -/
def Interpolation.value (interpolation : Interpolation) : Traced Expr :=
  partValue (.interpolation interpolation.tokens interpolation.start interpolation.close)

/-- The outcome is a syntax error that blames a byte, or the end of the text. -/
def Blames (outcome : Except ParseError Expr) (offset : Option Nat) : Prop :=
  ∃ message location, outcome = .error (.syntactic offset message location)

/-- What becomes of an interpolation, depending on what becomes of its body alone. -/
inductive Embedded (interpolation : Interpolation) :
    Except ParseError Expr → Except ParseError Expr → Prop where
  | value {tree : Expr} :
      Embedded interpolation (.ok tree) (.ok (tree.placed (· + (interpolation.start + 2))))
  | blamed {offset : Nat} {found : Option String}
      (inside : interpolation.start + 2 + offset < interpolation.close) :
      Embedded interpolation (.error (.noParse (some offset) found))
        (.error (.noParse (some (interpolation.start + 2 + offset)) found))
  | early :
      Embedded interpolation (.error (.noParse none none))
        (.error (.noParse (some interpolation.close) none))
  | ambiguous {count : Nat} :
      Embedded interpolation (.error (.ambiguous count)) (.error (.ambiguous count))

namespace Embedded

variable {interpolation : Interpolation} {alone embedded : Except ParseError Expr}

theorem ok_iff (outcomes : Embedded interpolation alone embedded) (tree : Expr) :
    embedded = .ok tree ↔
      ∃ body, alone = .ok body ∧ body.placed (· + (interpolation.start + 2)) = tree := by
  cases outcomes <;> simp

theorem blames_iff (outcomes : Embedded interpolation alone embedded) {offset : Nat}
    (inside : interpolation.start + 2 + offset < interpolation.close) :
    Blames embedded (some (interpolation.start + 2 + offset)) ↔ Blames alone (some offset) := by
  cases outcomes <;> simp [Blames, ParseError.noParse]
  omega

theorem blames_close_iff (outcomes : Embedded interpolation alone embedded) :
    Blames embedded (some interpolation.close) ↔ Blames alone none := by
  cases outcomes <;> simp [Blames, ParseError.noParse]
  omega

theorem ambiguous_iff (outcomes : Embedded interpolation alone embedded) (count : Nat) :
    embedded = .error (.ambiguous count) ↔ alone = .error (.ambiguous count) := by
  cases outcomes <;> simp [ParseError.noParse]

end Embedded

/-- The interpolation succeeds, fails and is ambiguous just when its body does so alone, with
the same tree, count, or byte to blame but for the place of the body. -/
structure ParsedAlike (interpolation : Interpolation) (alone embedded : Except ParseError Expr) :
    Prop where
  value : ∀ tree, embedded = .ok tree ↔
    ∃ body, alone = .ok body ∧ body.placed (· + (interpolation.start + 2)) = tree
  blamed : ∀ offset, interpolation.start + 2 + offset < interpolation.close →
    (Blames embedded (some (interpolation.start + 2 + offset)) ↔ Blames alone (some offset))
  early : Blames embedded (some interpolation.close) ↔ Blames alone none
  ambiguous : ∀ count, embedded = .error (.ambiguous count) ↔ alone = .error (.ambiguous count)
  /-- There are no other outcomes. -/
  outcomes : Embedded interpolation alone embedded

section Landmarks

/-- The tokens of a text are alike themselves, and what an error can blame is a landmark. -/
theorem leavesAlike_landmarks {source : String} {lexemes : List Lexeme}
    (read : Token.tokenize source = .ok lexemes) :
    LeavesAlike (SameLandmark (landmarks lexemes) (landmarks lexemes))
      (rankAmong (landmarks lexemes)) (rankAmong (landmarks lexemes))
      (significantLeaves (leavesOf lexemes)) (significantLeaves (leavesOf lexemes)) := by
  have itself : LexemesAlike (fun _ _ => True) (fun _ _ => True) (significant lexemes)
      (significant lexemes) :=
    LexemesAlike.refl (fun _ => trivial) (fun _ => trivial) lexemes
  have orderly := (tokenized_orderly read).significant
  have amid : Amid (landmarks (significant lexemes)) 0 (landmarks (significant lexemes)) 0
      (Text.byteLength source.toList) :=
    ⟨fun _ member => member, fun _ _ _ => (Nat.zero_add _).symm⟩
  have meet := itself.meet isTrivia_of_mem_significant orderly orderly amid amid
  rw [landmarks_significant] at meet
  rw [significantLeaves_leavesOf]
  exact meet.leavesAlike
    (meet.leaves ⟨monotone_rankAmong _, monotone_rankAmong _, fun same => same.2.2⟩)

/-- An error that blames a byte blames a landmark. -/
theorem blamed_mem {source : String} {lexemes : List Lexeme}
    (read : Token.tokenize source = .ok lexemes) {start : StartSymbol} {trace : List TraceEvent}
    {offset : Nat} {found : Option String}
    (failed : ((parseLeaves start (leavesOf lexemes) (Text.byteLength source.toList)
      none).outcomeFrom trace).1 = .error (.noParse (some offset) found)) :
    offset ∈ landmarks lexemes := by
  have placement : Placement (SameLandmark (landmarks lexemes) (landmarks lexemes))
      (rankAmong (landmarks lexemes)) (rankAmong (landmarks lexemes)) :=
    ⟨monotone_rankAmong _, monotone_rankAmong _, fun same => same.2.2⟩
  rcases (leavesAlike_landmarks read).parseLeaves_cases placement start rfl none none with
    early | agrees | ⟨tally, _, _, fails⟩
  · rw [(early trace trace).1] at failed
    cases failed
  · have agree := agrees trace trace
    rw [failed] at agree
    generalize same : ParseError.noParse (some offset) found = error at agree
    cases agree with
    | error fault =>
        cases fault with
        | noParse landmark =>
            cases congrArg ParseError.offset same
            exact landmark.1
  · rw [(fails trace trace).1] at failed
    cases failed

/-- An error that blames a byte blames one of the text. -/
theorem blamed_lt {source : String} {lexemes : List Lexeme}
    (read : Token.tokenize source = .ok lexemes) {start : StartSymbol} {trace : List TraceEvent}
    {offset : Nat} {found : Option String}
    (failed : ((parseLeaves start (leavesOf lexemes) (Text.byteLength source.toList)
      none).outcomeFrom trace).1 = .error (.noParse (some offset) found)) :
    offset < Text.byteLength source.toList :=
  (LexemesOrderly.landmarks_within lexemes (tokenized_orderly read) offset
    (blamed_mem read failed)).2

end Landmarks

variable {source : String} {lexemes : List Lexeme} {interpolation : Interpolation}

/-- What becomes of an interpolation follows from what becomes of its body. -/
theorem exists_body_embedded (read : Token.tokenize source = .ok lexemes)
    (member : interpolation ∈ interpolationsIn lexemes) :
    ∃ text, Span.slice? source interpolation.body = some text ∧
      interpolation.close = interpolation.start + 2 + Text.byteLength text.toList ∧
      ∀ trace trace', Embedded interpolation
        ((parseSource .expression text).outcomeFrom trace).1
        (interpolation.value.outcomeFrom trace').1 := by
  obtain ⟨text, lexemes', slice, length, tokenized, shifted⟩ := exists_body read member
  refine ⟨text, slice, length, ?_⟩
  intro trace trace'
  rw [outcomeFrom_parseSource_of_ok tokenized]
  have alike := lexemesAlike_shift (interpolation.start + 2) lexemes'
  rw [← significant_map_shift, ← shifted] at alike
  have leaves := alike.leavesAlike (alike.leaves (placement_shift _))
  rw [← significantLeaves_leavesOf, ← significantLeaves_leavesOf] at leaves
  have stops : Text.byteLength text.toList + (interpolation.start + 2) =
      id interpolation.close := by
    rw [length, id]
    omega
  have cases_ := leaves.parseLeaves_cases (placement_shift _) .expression stops none
    (some interpolation.close)
  rcases cases_ with early | agrees | ⟨tally, _, _, fails⟩
  · obtain ⟨alone, embedded⟩ := early (trace ++ [.tokenized lexemes'.length]) trace'
    rw [alone, show (interpolation.value.outcomeFrom trace').1 = _ from embedded]
    exact .early
  · have agree := agrees (trace ++ [.tokenized lexemes'.length]) trace'
    have inside := @blamed_lt _ _ tokenized .expression (trace ++ [.tokenized lexemes'.length])
    rw [show interpolation.value.outcomeFrom trace' = (parseLeaves .expression
      (leavesOf interpolation.tokens) interpolation.close
      (some interpolation.close)).outcomeFrom trace' from rfl]
    generalize ((parseLeaves .expression (leavesOf lexemes') (Text.byteLength text.toList)
      none).outcomeFrom (trace ++ [.tokenized lexemes'.length])).1 = alone at agree inside ⊢
    generalize ((parseLeaves .expression (leavesOf interpolation.tokens) interpolation.close
      (some interpolation.close)).outcomeFrom trace').1 = embedded at agree ⊢
    cases agree with
    | @ok tree tree' same =>
        have same : tree.placed (· + (interpolation.start + 2)) = tree'.placed id := same
        rw [tree'.placed_id] at same
        rw [← same]
        exact .value
    | error fault =>
        cases fault with
        | @noParse offset offset' found shift =>
            have within := inside rfl
            have place : offset' = interpolation.start + 2 + offset := by
              rw [← shift]
              omega
            rw [place]
            exact .blamed (by omega)
  · obtain ⟨alone, embedded⟩ := fails (trace ++ [.tokenized lexemes'.length]) trace'
    rw [alone, show (interpolation.value.outcomeFrom trace').1 = _ from embedded]
    exact .ambiguous

/-- Interpolations are embedded expressions. What is made of an interpolation, at any depth, is
what is made of the text between its braces alone. -/
theorem interpolation_parsedAlike (read : Token.tokenize source = .ok lexemes)
    (member : interpolation ∈ interpolationsIn lexemes) :
    ∃ text, Span.slice? source interpolation.body = some text ∧
      interpolation.close = interpolation.start + 2 + Text.byteLength text.toList ∧
      ∀ trace trace', ParsedAlike interpolation
        ((parseSource .expression text).outcomeFrom trace).1
        (interpolation.value.outcomeFrom trace').1 := by
  obtain ⟨text, slice, length, outcomes⟩ := exists_body_embedded read member
  refine ⟨text, slice, length, ?_⟩
  intro trace trace'
  have embedded := outcomes trace trace'
  exact {
    value := embedded.ok_iff
    blamed := fun _ inside => embedded.blames_iff inside
    early := embedded.blames_close_iff
    ambiguous := embedded.ambiguous_iff
    outcomes := embedded }

/-- An incomplete sum in an interpolation of an interpolation. -/
theorem interpolation_parsedAlike_nested :
    ∃ lexemes interpolation, Token.tokenize "<<#\x7b<<#\x7b1+\x7d>>\x7d>>" = .ok lexemes ∧
      interpolation ∈ interpolationsIn lexemes ∧ interpolation.body = ⟨8, 10⟩ ∧
      ∃ text, Span.slice? "<<#\x7b<<#\x7b1+\x7d>>\x7d>>" interpolation.body = some text ∧
        interpolation.close = interpolation.start + 2 + Text.byteLength text.toList ∧
        ∀ trace trace', ParsedAlike interpolation
          ((parseSource .expression text).outcomeFrom trace).1
          (interpolation.value.outcomeFrom trace').1 := by
  have bodies : (Token.tokenize "<<#\x7b<<#\x7b1+\x7d>>\x7d>>").toOption.map
      (fun lexemes => (interpolationsIn lexemes).map Interpolation.body) =
        some [⟨4, 13⟩, ⟨8, 10⟩] := by decide +kernel
  obtain ⟨lexemes, read, same⟩ := exists_ok_of_toOption_map bodies
  have inner : (⟨8, 10⟩ : Span) ∈ (interpolationsIn lexemes).map Interpolation.body := by
    rw [same]
    simp
  obtain ⟨interpolation, member, body⟩ := List.mem_map.mp inner
  exact ⟨lexemes, interpolation, read, member, body, interpolation_parsedAlike read member⟩

end Krl

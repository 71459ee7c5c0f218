import Krl.Proofs.Parse.Alike
import Krl.Token.Lexer

/-!
# Tokens at other offsets

What is read in a text stands at greater offsets when the text is part of a larger one. All
offsets in a token move by the same number of bytes, those in the interpolations of its
templates as well. Nothing else changes, so the tokens are alike.
-/

namespace Krl

mutual

/-- The token with the offsets in its templates moved on by some bytes. -/
def Token.shift (base : Nat) : Token → Token
  | .chevron parts => .chevron (partsShift base parts)
  | token => token

/-- The parts of a template moved on by some bytes. -/
def partsShift (base : Nat) : List TemplatePart → List TemplatePart
  | [] => []
  | .text value start stop :: others =>
      .text value (start + base) (stop + base) :: partsShift base others
  | .interpolation tokens start close :: others =>
      .interpolation (lexemesShift base tokens) (start + base) (close + base) ::
        partsShift base others

/-- The tokens moved on by some bytes. -/
def lexemesShift (base : Nat) : List Lexeme → List Lexeme
  | [] => []
  | ⟨token, start, stop⟩ :: others =>
      ⟨token.shift base, start + base, stop + base⟩ :: lexemesShift base others

end

/-- The token moved on by some bytes, along with what is in it. -/
def Lexeme.shift (base : Nat) (lexeme : Lexeme) : Lexeme :=
  ⟨lexeme.token.shift base, lexeme.start + base, lexeme.stop + base⟩

/-- The error blamed on a place some bytes further on. -/
def LexError.shift (base : Nat) (error : LexError) : LexError :=
  ⟨error.kind, error.offset + base⟩

/-- The step taken some bytes further on. -/
def Token.Step.shift (base : Nat) (step : Token.Step) : Token.Step where
  span := ⟨step.span.start + base, step.span.stop + base⟩
  outcome := (step.outcome.map (Lexeme.shift base)).mapError (LexError.shift base)

/-- The place with the same text before it in a larger source, in which some bytes stand
before and some text behind. -/
def Cursor.widen (base : Nat) (tail : List Char) (cursor : Cursor) : Cursor :=
  ⟨cursor.offset + base, cursor.rest ++ tail⟩

/-- The first offset is less by the offset of a piece. -/
abbrev Shifted (base offset offset' : Nat) : Prop :=
  offset + base = offset'

variable {base : Nat}

theorem lexemesShift_eq (lexemes : List Lexeme) :
    lexemesShift base lexemes = lexemes.map (Lexeme.shift base) := by
  induction lexemes with
  | nil => rfl
  | cons first others ih =>
      obtain ⟨token, start, stop⟩ := first
      rw [lexemesShift, ih]
      rfl

theorem partsShift_append (parts others : List TemplatePart) :
    partsShift base (parts ++ others) = partsShift base parts ++ partsShift base others := by
  induction parts with
  | nil => rfl
  | cons part parts ih => cases part <;> simp [partsShift, ih]

namespace Token

theorem shift_plain {token : Token} (plain : ∀ parts, token ≠ .chevron parts) :
    token.shift base = token := by
  cases token <;> first | rfl | exact absurd rfl (plain _)

@[simp] theorem bare_shift (token : Token) : (token.shift base).bare = token.bare := by
  cases token <;> rfl

@[simp] theorem isTrivia_shift (token : Token) :
    (token.shift base).isTrivia = token.isTrivia := by
  cases token <;> rfl

/-- Marks hold no offsets, so moving tokens makes none of them a mark. -/
theorem shift_eq_punct_iff {token : Token} {mark : Punct} :
    token.shift base = .punct mark ↔ token = .punct mark := by
  cases token <;> simp [shift]

end Token

@[simp] theorem significant_map_shift (lexemes : List Lexeme) :
    significant (lexemes.map (Lexeme.shift base)) =
      (significant lexemes).map (Lexeme.shift base) := by
  rw [significant, List.filter_map]
  simp [significant, Function.comp_def, Lexeme.shift]

/-- Moving all tokens by the same number of bytes leaves those touching that did. -/
theorem touches_shift_iff {first : Lexeme} {others : List Lexeme} :
    Touches (first.shift base) (others.map (Lexeme.shift base)) ↔ Touches first others := by
  cases others <;> simp [Touches, Lexeme.shift]

mutual

/-- A token is alike itself at other offsets. The induction is on the token and its parts. -/
theorem Token.alike_shift (base : Nat) :
    (token : Token) → Token.Alike (Shifted base) (Shifted base) token (token.shift base)
  | .chevron parts => .chevron (partsAlike_shift base parts)
  | .whitespace | .lineComment | .blockComment | .number _ | .string _ | .regexp _ _ | .symbol _
  | .domainName _ _ | .punct _ => .plain nofun

theorem partsAlike_shift (base : Nat) : (parts : List TemplatePart) →
    PartsAlike (Shifted base) (Shifted base) parts (partsShift base parts)
  | [] => .nil
  | .text _ _ _ :: others => .text rfl rfl (partsAlike_shift base others)
  | .interpolation tokens _ _ :: others => by
      rw [partsShift, lexemesShift_eq]
      have inside := lexemesAlike_shift base tokens
      rw [← significant_map_shift] at inside
      exact .interpolation inside rfl (partsAlike_shift base others)

theorem lexemesAlike_shift (base : Nat) : (lexemes : List Lexeme) →
    LexemesAlike (Shifted base) (Shifted base) (significant lexemes)
      ((significant lexemes).map (Lexeme.shift base))
  | [] => .nil
  | ⟨token, start, stop⟩ :: others => by
      have rest := lexemesAlike_shift base others
      rw [significant, List.filter_cons]
      split
      · exact .cons (token.alike_shift base) rfl rfl touches_shift_iff.symm rest
      · exact rest

end

end Krl

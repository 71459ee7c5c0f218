import Krl.Parse
import Krl.Proofs.Grammar.Congruence
import Krl.Proofs.Language.Placing

/-!
# Tokens that are alike

Two lists of tokens are alike when they write the same words and touch at the same places,
in their templates as well. Where the tokens stand does not matter, but for relations that
their offsets may have to be in: one for the offsets that an error can blame, and one for
all others.
-/

namespace Krl

/-- The tokens that the grammar sees. -/
def significant (lexemes : List Lexeme) : List Lexeme :=
  lexemes.filter fun lexeme => !lexeme.token.isTrivia

theorem significant_append (before behind : List Lexeme) :
    significant (before ++ behind) = significant before ++ significant behind :=
  List.filter_append ..

/-- A token ends where the first of the others begins. -/
def Touches (first : Lexeme) (others : List Lexeme) : Prop :=
  ∃ next ∈ others.head?, first.stop = next.start

section Alike

variable (blame near : Nat → Nat → Prop)

mutual

/-- Both tokens are the same word. Templates have parts that are alike. -/
inductive Token.Alike : Token → Token → Prop where
  | plain {token : Token} (plain : ∀ parts, token ≠ .chevron parts) : Token.Alike token token
  | chevron {parts parts' : List TemplatePart} (alike : PartsAlike parts parts') :
      Token.Alike (.chevron parts) (.chevron parts')

/-- The parts of two templates are the same texts, and interpolations with tokens that
are alike. -/
inductive PartsAlike : List TemplatePart → List TemplatePart → Prop where
  | nil : PartsAlike [] []
  | text {value : String} {start stop start' stop' : Nat} {others others' : List TemplatePart}
      (starts : near start start') (stops : near stop stop') (rest : PartsAlike others others') :
      PartsAlike (.text value start stop :: others) (.text value start' stop' :: others')
  | interpolation {tokens tokens' : List Lexeme} {start close start' close' : Nat}
      {others others' : List TemplatePart}
      (alike : LexemesAlike (significant tokens) (significant tokens'))
      (closes : blame close close') (rest : PartsAlike others others') :
      PartsAlike (.interpolation tokens start close :: others)
        (.interpolation tokens' start' close' :: others')

/-- Both lists hold the same words, which touch at the same places. -/
inductive LexemesAlike : List Lexeme → List Lexeme → Prop where
  | nil : LexemesAlike [] []
  | cons {token token' : Token} {start stop start' stop' : Nat} {others others' : List Lexeme}
      (alike : Token.Alike token token') (starts : blame start start') (stops : near stop stop')
      (touch : Touches ⟨token, start, stop⟩ others ↔ Touches ⟨token', start', stop'⟩ others')
      (rest : LexemesAlike others others') :
      LexemesAlike (⟨token, start, stop⟩ :: others) (⟨token', start', stop'⟩ :: others')

end

variable {blame near}

mutual

/-- Tokens are alike themselves. The induction is on the tokens and their parts. -/
theorem Token.Alike.refl (blamed : ∀ offset, blame offset offset)
    (itself : ∀ offset, near offset offset) : (token : Token) → Token.Alike blame near token token
  | .chevron parts => .chevron (PartsAlike.refl blamed itself parts)
  | .whitespace | .lineComment | .blockComment | .number _ | .string _ | .regexp _ _ | .symbol _
  | .domainName _ _ | .punct _ => .plain nofun

theorem PartsAlike.refl (blamed : ∀ offset, blame offset offset)
    (itself : ∀ offset, near offset offset) :
    (parts : List TemplatePart) → PartsAlike blame near parts parts
  | [] => .nil
  | .text _ start stop :: others =>
      .text (itself start) (itself stop) (PartsAlike.refl blamed itself others)
  | .interpolation tokens _ close :: others =>
      .interpolation (LexemesAlike.refl blamed itself tokens) (blamed close)
        (PartsAlike.refl blamed itself others)

theorem LexemesAlike.refl (blamed : ∀ offset, blame offset offset)
    (itself : ∀ offset, near offset offset) : (lexemes : List Lexeme) →
      LexemesAlike blame near (significant lexemes) (significant lexemes)
  | [] => .nil
  | ⟨token, start, stop⟩ :: others => by
      rw [significant, List.filter_cons]
      split
      · exact .cons (Token.Alike.refl blamed itself token) (blamed start) (itself stop) .rfl
          (LexemesAlike.refl blamed itself others)
      · exact LexemesAlike.refl blamed itself others

end

end Alike

/-- The token without the parts of a template. -/
def Token.bare : Token → Token
  | .chevron _ => .chevron []
  | token => token

theorem Token.Alike.bare_eq {blame near : Nat → Nat → Prop} {token token' : Token}
    (alike : Token.Alike blame near token token') : token.bare = token'.bare := by
  cases alike <;> rfl

theorem Token.isTrivia_bare (token : Token) : token.bare.isTrivia = token.isTrivia := by
  cases token <;> rfl

theorem Token.Alike.isTrivia_eq {blame near : Nat → Nat → Prop} {token token' : Token}
    (alike : Token.Alike blame near token token') : token.isTrivia = token'.isTrivia := by
  rw [← token.isTrivia_bare, ← token'.isTrivia_bare, alike.bare_eq]

section Lists

variable {blame near : Nat → Nat → Prop} {lexemes lexemes' : List Lexeme}

theorem LexemesAlike.length_eq (alike : LexemesAlike blame near lexemes lexemes') :
    lexemes.length = lexemes'.length := by
  induction lexemes generalizing lexemes' with
  | nil =>
      cases alike
      rfl
  | cons first others ih =>
      cases alike with
      | cons _ _ _ _ rest => rw [List.length_cons, List.length_cons, ih rest]

theorem LexemesAlike.map_bare_eq (alike : LexemesAlike blame near lexemes lexemes') :
    lexemes.map (fun lexeme => lexeme.token.bare) =
      lexemes'.map (fun lexeme => lexeme.token.bare) := by
  induction lexemes generalizing lexemes' with
  | nil =>
      cases alike
      rfl
  | cons first others ih =>
      cases alike with
      | cons same _ _ _ rest => rw [List.map_cons, List.map_cons, ih rest, same.bare_eq]

theorem LexemesAlike.drop (alike : LexemesAlike blame near lexemes lexemes') (count : Nat) :
    LexemesAlike blame near (lexemes.drop count) (lexemes'.drop count) := by
  induction count generalizing lexemes lexemes' with
  | zero => exact alike
  | succ count ih =>
      cases alike with
      | nil => exact .nil
      | cons _ _ _ _ rest => exact ih rest

theorem LexemesAlike.isContiguous_take (alike : LexemesAlike blame near lexemes lexemes')
    (count : Nat) : isContiguous (lexemes.take count) = isContiguous (lexemes'.take count) := by
  induction lexemes generalizing lexemes' count with
  | nil =>
      cases alike
      rfl
  | cons first others ih =>
      cases alike with
      | @cons token token' start stop start' stop' others others' same _ _ touch rest =>
          cases count with
          | zero => rfl
          | succ count =>
              rw [List.take_succ_cons, List.take_succ_cons]
              have tail := ih rest count
              cases rest with
              | nil => simp [isContiguous]
              | cons _ _ _ _ _ =>
                  cases count with
                  | zero => rfl
                  | succ count =>
                      simp only [Touches, List.head?_cons, Option.mem_def, Option.some.injEq,
                        exists_eq_left'] at touch
                      rw [List.take_succ_cons, List.take_succ_cons] at tail ⊢
                      rw [isContiguous, isContiguous, tail]
                      congr 1
                      rw [Bool.eq_iff_iff, beq_iff_eq, beq_iff_eq]
                      exact touch

end Lists

section Groups

theorem isAggregatorName_bare (token : Token) :
    isAggregatorName token.bare = isAggregatorName token := by
  cases token <;> rfl

theorem opensGroup_map_bare (tokens : List Token) :
    opensGroup (tokens.map Token.bare) = opensGroup tokens := by
  cases tokens with
  | nil => rfl
  | cons first others =>
      cases first <;> try rfl
      cases others with
      | nil => rfl
      | cons second others => cases second <;> rfl

theorem beyondOpening?_map_bare (depth : Nat) (tokens : List Token) :
    beyondOpening? depth (tokens.map Token.bare) =
      (beyondOpening? depth tokens).map (List.map Token.bare) := by
  induction tokens generalizing depth with
  | nil => rfl
  | cons token others ih =>
      rw [List.map_cons]
      cases token with
      | punct mark =>
          cases mark with
          | rightParen => exact ih (depth + 1)
          | leftParen =>
              match depth with
              | 0 => exact ih 0
              | 1 => rfl
              | depth + 2 => exact ih (depth + 1)
          | _ => simp only [Token.bare, beyondOpening?, ih]
      | _ => simp only [Token.bare, beyondOpening?, ih]

theorem endsInGroup_map_bare (tokens : List Token) :
    endsInGroup (tokens.map Token.bare) = endsInGroup tokens := by
  cases tokens with
  | nil => rfl
  | cons first others =>
      cases first with
      | punct mark =>
          cases mark with
          | rightParen =>
              simp only [List.map_cons, Token.bare, endsInGroup, beyondOpening?_map_bare,
                Option.map_map, Function.comp_def, opensGroup_map_bare]
          | _ => rfl
      | _ => rfl

end Groups

end Krl

import Krl.Proofs.Token.Extensions
import Krl.Proofs.Token.Tiling

/-!
# Matching braces

An interpolation goes on up to the brace that closes it. Between this and `#{` stand tokens among
which braces match, which can be told without looking for the end.
-/

namespace Krl

/-- The number of braces open behind some tokens, unless one closes that none has opened. -/
def bracesOpen : Nat → List Lexeme → Option Nat
  | depth, [] => some depth
  | depth, lexeme :: others =>
      match lexeme.token, depth with
      | .punct .rightBrace, 0 => none
      | .punct .rightBrace, inner + 1 => bracesOpen inner others
      | .punct .leftBrace, inner => bracesOpen (inner + 1) others
      | _, inner => bracesOpen inner others

namespace Token

variable {depth : Nat} {lexeme : Lexeme} {others : List Lexeme}

theorem bracesOpen_of_closes (closes : Closes lexeme.token depth) :
    bracesOpen depth (lexeme :: others) = none := by
  obtain ⟨brace, rfl⟩ := closes
  simp only [bracesOpen, brace]

theorem bracesOpen_of_stays (stays : ¬Closes lexeme.token depth) :
    bracesOpen depth (lexeme :: others) = bracesOpen (depthAfter lexeme.token depth) others := by
  rw [bracesOpen.eq_def]
  simp only
  split
  next brace => exact (stays ⟨brace, rfl⟩).elim
  next brace => rw [brace, depthAfter, Nat.succ_sub_one]
  next brace => rw [brace, depthAfter]
  next notLeft _ notRight => rw [depthAfter_eq_self notLeft notRight]

theorem bracesOpen_cons_eq_some_iff {final : Nat} :
    bracesOpen depth (lexeme :: others) = some final ↔
      ¬Closes lexeme.token depth ∧
        bracesOpen (depthAfter lexeme.token depth) others = some final := by
  constructor
  · intro open_
    have stays : ¬Closes lexeme.token depth := by
      intro closes
      rw [bracesOpen_of_closes closes] at open_
      cases open_
    exact ⟨stays, bracesOpen_of_stays stays ▸ open_⟩
  · rintro ⟨stays, open_⟩
    exact bracesOpen_of_stays stays ▸ open_

theorem bracesOpen_append (depth : Nat) (first second : List Lexeme) :
    bracesOpen depth (first ++ second) =
      (bracesOpen depth first).bind fun inner => bracesOpen inner second := by
  induction first generalizing depth with
  | nil => rfl
  | cons lexeme others ih =>
      rw [List.cons_append]
      by_cases closes : Closes lexeme.token depth
      · rw [bracesOpen_of_closes closes, bracesOpen_of_closes closes, Option.bind_none]
      · rw [bracesOpen_of_stays closes, bracesOpen_of_stays closes, ih]

@[simp] theorem bracesOpen_map_shift (base depth : Nat) (lexemes : List Lexeme) :
    bracesOpen depth (lexemes.map (Lexeme.shift base)) = bracesOpen depth lexemes := by
  induction lexemes generalizing depth with
  | nil => rfl
  | cons lexeme others ih =>
      have same : Closes (lexeme.shift base).token depth ↔ Closes lexeme.token depth :=
        closes_shift_iff
      rw [List.map_cons]
      by_cases closes : Closes lexeme.token depth
      · rw [bracesOpen_of_closes closes, bracesOpen_of_closes (same.mpr closes)]
      · rw [bracesOpen_of_stays closes, bracesOpen_of_stays (same.not.mpr closes), ih,
          Lexeme.shift, depthAfter_shift]

/-- A closing brace is always read as such. -/
theorem reads_rightBrace {cursor : Cursor} {behind : List Char}
    (here : cursor.rest = '}' :: behind) :
    Reads cursor ⟨.punct .rightBrace, cursor.offset, cursor.offset + 1⟩
      ⟨cursor.offset + 1, behind⟩ := by
  obtain ⟨offset, rest⟩ := cursor
  cases here
  exact @Reads.plain ⟨offset, '}' :: behind⟩ (.punct .rightBrace) 1 rfl

/-- Tokens among which braces match are the body of an interpolation if a brace stands behind. -/
theorem ReadsAll.readsBody {cursor brace : Cursor} {lexemes : List Lexeme} {behind : List Char}
    (reads : ReadsAll cursor lexemes brace) (open_ : bracesOpen depth lexemes = some 0)
    (here : brace.rest = '}' :: behind) :
    ReadsBody depth cursor lexemes brace.offset ⟨brace.offset + 1, behind⟩ := by
  induction reads generalizing depth with
  | nil =>
      cases open_
      exact .close (reads_rightBrace here)
  | cons first _ ih =>
      obtain ⟨stays, open_⟩ := bracesOpen_cons_eq_some_iff.mp open_
      exact .inner first stays (ih open_ here)

/-- The body of an interpolation consists of tokens among which braces match, and a brace stands
behind. -/
theorem ReadsBody.exists_readsAll {depth : Nat} {cursor next : Cursor} {tokens : List Lexeme}
    {close : Nat} (reads : ReadsBody depth cursor tokens close next) :
    ∃ brace behind, ReadsAll cursor tokens brace ∧ bracesOpen depth tokens = some 0 ∧
      brace.rest = '}' :: behind ∧ next = ⟨brace.offset + 1, behind⟩ := by
  induction tokens generalizing depth cursor with
  | nil =>
      cases reads with
      | close last =>
          obtain ⟨-, rfl, behind, here⟩ := last.eq_of_rightBrace
          refine ⟨cursor, behind, .nil, rfl, here, ?_⟩
          rw [Cursor.advance, here]
          rfl
  | cons lexeme others ih =>
      cases reads with
      | inner first stays more =>
          obtain ⟨brace, behind, rest, open_, here, next⟩ := ih more
          exact ⟨brace, behind, .cons first rest, bracesOpen_cons_eq_some_iff.mpr ⟨stays, open_⟩,
            here, next⟩

end Token

end Krl

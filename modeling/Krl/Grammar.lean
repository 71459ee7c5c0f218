/-!
# Grammars

A grammar is a table of productions over nonterminals and classes of tokens. A
production may carry a guard, which looks at the tokens around a completed match
and can veto it. Nothing here depends on a particular language.
-/

namespace Krl

/-- What a place on the right side of a production calls for: a phrase of a
nonterminal, or one token of a class. -/
inductive Symbol (N T : Type) where
  | nonterminal (name : N)
  | terminal (tokens : T)
  deriving DecidableEq, Repr

/-- Whether a match of the tokens from a start index up to a stop index stands. -/
abbrev Guard (K : Type) : Type :=
  List K → (start stop : Nat) → Bool

/-- A production: phrases of `lhs` may be made of the symbols of `rhs` in order. -/
structure Production (N T K : Type) where
  lhs : N
  rhs : List (Symbol N T)
  guard : Option (Guard K)

/-- A grammar over tokens of type `K`. -/
structure Grammar (N T K : Type) where
  productions : List (Production N T K)
  /-- Whether a token belongs to a class. -/
  accepts : T → K → Bool

namespace Grammar

variable {N T K : Type} [DecidableEq N]

/-- The indices of the productions of a nonterminal, in the order of the table. -/
def expansions (grammar : Grammar N T K) (name : N) : List Nat :=
  indices 0 grammar.productions
where
  /-- The indices in a part of the table that begins with a certain index. -/
  indices (index : Nat) : List (Production N T K) → List Nat
    | [] => []
    | production :: others =>
        if production.lhs = name then index :: indices (index + 1) others
        else indices (index + 1) others

/-- Number of positions of a dot in all productions. -/
def positions (grammar : Grammar N T K) : Nat :=
  grammar.productions.foldr (fun production total => production.rhs.length + 1 + total) 0

/-- Whether a symbol can match nothing, given the nonterminals known to. -/
def isNullableSymbol (known : List N) : Symbol N T → Bool
  | .nonterminal name => known.contains name
  | .terminal _ => false

/-- One pass over the table: every production whose right side can match nothing
adds its nonterminal to those known. -/
def nullablePass (productions : List (Production N T K)) (known : List N) : List N :=
  productions.foldl
    (fun known production =>
      if !known.contains production.lhs && production.rhs.all (isNullableSymbol known) then
        production.lhs :: known
      else
        known)
    known

/-- Passes over the table until one adds nothing. Every other pass adds a
nonterminal that has a production, so there are no more passes than productions. -/
def nullableFrom (productions : List (Production N T K)) : (fuel : Nat) → List N → List N
  | 0, known => known
  | fuel + 1, known =>
      let extended := nullablePass productions known
      if extended.length = known.length then known
      else nullableFrom productions fuel extended

/-- The nonterminals that can match nothing, guards left aside. -/
def nullable (grammar : Grammar N T K) : List N :=
  nullableFrom grammar.productions grammar.productions.length []

end Grammar

end Krl

/-!
# Errors

A source is rejected by the tokenizer, by the grammar, or because it has several
readings. The first two kinds of error point at a byte offset as long as there is
one to blame, and carry a location once the source text is known to them.
-/

namespace Krl

/-- What is wrong with a text that begins no token. -/
inductive LexError.Kind where
  | unexpectedCharacter
  | unterminatedString
  | unterminatedRegExp
  | unterminatedChevron
  | unterminatedInterpolation
  | unterminatedComment
  deriving DecidableEq, Repr

/-- The message for each kind of lexical error. -/
def LexError.Kind.message : LexError.Kind → String
  | unexpectedCharacter => "Unexpected character"
  | unterminatedString => "Unterminated string"
  | unterminatedRegExp => "Unterminated regular expression"
  | unterminatedChevron => "Unterminated chevron"
  | unterminatedInterpolation => "Unterminated interpolation"
  | unterminatedComment => "Unterminated block comment"

/-- A text that begins no token, and the byte offset to blame: that of the
character or of the opening delimiter. -/
structure LexError where
  kind : LexError.Kind
  offset : Nat
  deriving DecidableEq, Repr

/-- A position in a source for a reader: line and column count from one, the
column in characters. -/
structure Location where
  filename : Option String
  line : Nat
  column : Nat
  /-- The lines around the position, with a caret below the column. -/
  excerpt : String
  deriving DecidableEq, Repr

/-- Why a source has no tree. -/
inductive ParseError where
  /-- The source is not a sequence of tokens. -/
  | lexical (kind : LexError.Kind) (offset : Nat) (message : String)
      (location : Option Location)
  /-- No derivation of the start symbol. The offset is that of the first token
  that no derivation can take; without one, the source ended too early. -/
  | syntactic (offset : Option Nat) (message : String) (location : Option Location)
  /-- More than one derivation. -/
  | ambiguous (count : Nat)
  /-- The grammar contradicts itself. -/
  | internal (message : String)
  deriving DecidableEq, Repr

namespace ParseError

/-- A lexical error that has not been located yet. -/
def ofLexError (error : LexError) : ParseError :=
  .lexical error.kind error.offset error.kind.message none

/-- The text of a syntax error in which no token is blamed. -/
def noParseText : String := "No possible parsings"

/-- A syntax error that has not been located yet. With an offset and the text of
the token found there it names both. -/
def noParse (offset : Option Nat) (found : Option String) : ParseError :=
  .syntactic offset
    (match offset, found with
      | some position, some token =>
          noParseText ++ " (@" ++ toString position ++ ": unexpected `" ++ token ++ "`)."
      | _, _ => noParseText)
    none

/-- The byte offset the error points at. -/
def offset : ParseError → Option Nat
  | lexical _ offset _ _ => some offset
  | syntactic offset _ _ => offset
  | ambiguous _ | internal _ => none

/-- The position for a reader, once it is attached. -/
def location : ParseError → Option Location
  | lexical _ _ _ location | syntactic _ _ location => location
  | ambiguous _ | internal _ => none

/-- Whether several derivations were found. -/
def isAmbiguity : ParseError → Bool
  | ambiguous _ => true
  | _ => false

/-- The error as text. -/
def message : ParseError → String
  | lexical _ _ message _ | syntactic _ message _ => message
  | ambiguous count => "Parsing Ambiguity: " ++ toString count ++ " parsings found"
  | internal message => "Internal grammar error: " ++ message

end ParseError

end Krl

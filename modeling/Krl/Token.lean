import Krl.Binary64.Shortest
import Krl.Span

/-!
# Tokens

The words of the language: trivia, literals, names, and punctuation. A chevron
literal is a template whose interpolations hold tokens again, so tokens, the
parts of templates, and tokens with their positions are defined together.
-/

namespace Krl

/-- Delimiters and operators. -/
inductive Punct where
  | leftParen | rightParen | leftBracket | rightBracket | leftBrace | rightBrace
  | comma | semicolon | colon | dot
  | assign | equal | arrow | pipe
  | plus | minus | star | slash | percent
  | equalTo | notEqualTo | less | greater | lessEqual | greaterEqual | spaceship | contains
  | both | either
  deriving DecidableEq, Repr

namespace Punct

/-- Every delimiter and operator. -/
def all : List Punct :=
  [leftParen, rightParen, leftBracket, rightBracket, leftBrace, rightBrace,
    comma, semicolon, colon, dot, assign, equal, arrow, pipe,
    plus, minus, star, slash, percent,
    equalTo, notEqualTo, less, greater, lessEqual, greaterEqual, spaceship, contains,
    both, either]

theorem mem_all (punct : Punct) : punct ∈ all := by
  cases punct <;> decide

/-- The characters that write the token. -/
def chars : Punct → List Char
  | leftParen => ['(']
  | rightParen => [')']
  | leftBracket => ['[']
  | rightBracket => [']']
  | leftBrace => ['{']
  | rightBrace => ['}']
  | comma => [',']
  | semicolon => [';']
  | colon => [':']
  | dot => ['.']
  | assign => [':', '=']
  | equal => ['=']
  | arrow => ['=', '>']
  | pipe => ['|']
  | plus => ['+']
  | minus => ['-']
  | star => ['*']
  | slash => ['/']
  | percent => ['%']
  | equalTo => ['=', '=']
  | notEqualTo => ['!', '=']
  | less => ['<']
  | greater => ['>']
  | lessEqual => ['<', '=']
  | greaterEqual => ['>', '=']
  | spaceship => ['<', '=', '>']
  | contains => ['>', '<']
  | both => ['&', '&']
  | either => ['|', '|']

/-- The text that writes the token. -/
def text (punct : Punct) : String :=
  String.ofList punct.chars

/-- No two tokens are written alike. -/
theorem chars_injective {left right : Punct} (same : left.chars = right.chars) :
    left = right := by
  revert same
  cases left <;> cases right <;> decide

/-- No token is written with nothing. -/
theorem chars_ne_nil (punct : Punct) : punct.chars ≠ [] := by
  cases punct <;> decide

end Punct

mutual

/-- A word of the language, with the value it denotes. -/
inductive Token where
  | whitespace
  | lineComment
  | blockComment
  | number (value : Binary64)
  | string (value : String)
  | regexp (pattern flags : String)
  /-- A template, as the list of its parts. -/
  | chevron (parts : List TemplatePart)
  /-- A name or a keyword; the grammar decides where a word is reserved. -/
  | symbol (word : String)
  /-- A name qualified by a domain, such as `ent:count`. -/
  | domainName (domain name : String)
  | punct (mark : Punct)

/-- A piece of a template. -/
inductive TemplatePart where
  /-- Literal text with its escapes resolved, written at `start` to `stop`. -/
  | text (value : String) (start stop : Nat)
  /-- The tokens between `#{`, which opens at `start`, and the brace at `close`. -/
  | interpolation (tokens : List Lexeme) (start close : Nat)

/-- A token and the bytes it was read from. -/
structure Lexeme where
  token : Token
  start : Nat
  stop : Nat

end

namespace Token

/-- Whether the token is whitespace or a comment, which the grammar never sees. -/
def isTrivia : Token → Bool
  | whitespace | lineComment | blockComment => true
  | _ => false

/-- The delimiter or operator the token is. -/
def punct? : Token → Option Punct
  | punct mark => some mark
  | _ => none

/-- The word the token is. -/
def symbol? : Token → Option String
  | symbol word => some word
  | _ => none

/-- How messages name the token. -/
def display : Token → String
  | whitespace => "whitespace"
  | lineComment | blockComment => "comment"
  | number value => value.text
  | string value => "\"" ++ value ++ "\""
  | regexp pattern flags => "re#" ++ pattern ++ "#" ++ flags
  | chevron _ => "<<...>>"
  | symbol word => word
  | domainName domain name => domain ++ ":" ++ name
  | punct mark => mark.text

end Token

namespace Lexeme

/-- The bytes the token was read from. -/
def span (lexeme : Lexeme) : Span :=
  ⟨lexeme.start, lexeme.stop⟩

end Lexeme

end Krl

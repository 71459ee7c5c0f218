import Krl.Diagnostic.Excerpt
import Krl.Diagnostic.Message
import Krl.Diagnostic.Position
import Krl.Error

/-!
# Located errors

Once the source of an error is at hand, its byte offset becomes a position, and
its message shows the line it points at.
-/

namespace Krl.ParseError

/-- Lines shown on each side in the location of an error. -/
def locationContext : Nat := 3

/-- The location of a position in a source. -/
def locationAt (source : String) (filename : Option String) (position : Position) : Location where
  filename := filename
  line := position.line
  column := position.column
  excerpt := excerpt source position.line position.column locationContext

/-- A message with the position it is about and the line that stands there. -/
def locatedMessage (source : String) (filename : Option String) (position : Position)
    (raw : String) : String :=
  Message.clean raw ++ "\n" ++ filename.getD "" ++ ":" ++ toString position.line ++ ":" ++
    toString position.column ++ "\n \n" ++ excerpt source position.line position.column 0

/-- Attach a location to an error and word its message accordingly. An error
that points nowhere in the source stays as it is. -/
def locate (source : String) (filename : Option String) (error : ParseError) : ParseError :=
  match error.offset.bind (Position.ofOffset? source) with
  | none => error
  | some position =>
      let location := some (locationAt source filename position)
      match error with
      | lexical kind offset message _ =>
          lexical kind offset (locatedMessage source filename position message) location
      | syntactic offset message _ =>
          syntactic offset (locatedMessage source filename position message) location
      | other => other

/-- What a number of derivations means: none is a syntax error, one is what a
source should have, and more are an ambiguity. -/
def ofDerivations? : Nat → Option ParseError
  | 0 => some (noParse none none)
  | 1 => none
  | count => some (ambiguous count)

end Krl.ParseError

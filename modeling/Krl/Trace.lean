import Krl.Error
import Krl.Text.Quoted

/-!
# Traces

Reading a source leaves a trace of what was done: the tokens counted, the charts
accepted, the derivations found in them. A trace goes on up to the point where an
error ends the reading.
-/

namespace Krl

/-- A step in reading a source. -/
inductive TraceEvent where
  /-- Reading begins. The length of the source is in bytes. -/
  | parsing (length : Nat) (filename : Option String)
  /-- The source is divided into tokens, trivia included. -/
  | tokenized (count : Nat)
  /-- A derivation of the tokens exists; trivia is left out. -/
  | accepted (tokens : Nat)
  /-- The derivations of the tokens are counted. -/
  | counted (derivations : Nat) (start : String)
  /-- There are several derivations. -/
  | ambiguous (count : Nat)
  deriving DecidableEq, Repr

namespace TraceEvent

/-- How much the event matters to a reader of the trace. -/
def level : TraceEvent → String
  | parsing .. | accepted _ | counted .. => "DEBUG"
  | tokenized _ => "TRACE"
  | ambiguous _ => "WARN"

/-- The filename as the trace shows it. -/
def filenameText : Option String → String
  | none => "None"
  | some name => "Some(" ++ Text.quoted name ++ ")"

/-- What the event tells, by name. -/
def fields : TraceEvent → List (String × String)
  | parsing length filename =>
      [("message", "parsing"), ("len", toString length), ("filename", filenameText filename)]
  | tokenized count => [("message", "tokenized"), ("count", toString count)]
  | accepted tokens => [("message", "chart accepted"), ("tokens", toString tokens)]
  | counted derivations start =>
      [("message", "counted derivations"), ("derivations", toString derivations),
        ("start", start)]
  | ambiguous count => [("message", "ambiguous parse"), ("count", toString count)]

end TraceEvent

/-- A computation that leaves a trace and may end in an error. -/
abbrev Traced : Type → Type :=
  ExceptT ParseError (StateM (List TraceEvent))

namespace Traced

/-- Add an event to the end of the trace. -/
def log (event : TraceEvent) : Traced Unit :=
  modify (· ++ [event])

/-- The outcome of a computation and its whole trace. -/
def outcome {α : Type} (computation : Traced α) : Except ParseError α × List TraceEvent :=
  Id.run (computation.run.run [])

end Traced

end Krl

/-!
# Operators and other fixed words

The closed sets of words that the syntax tree names: operators of expressions and
of events, aggregators, and levels of log statements. Each set has the text that
writes a member, and the way back.
-/

namespace Krl

/-- Operators before an expression. -/
inductive UnaryOp where
  | not | plus | minus
  deriving DecidableEq, Repr

namespace UnaryOp

/-- Every unary operator. -/
def all : List UnaryOp := [not, plus, minus]

/-- The text that writes the operator. -/
def text : UnaryOp → String
  | not => "not"
  | plus => "+"
  | minus => "-"

/-- The operator that the text writes. -/
def ofText? (text : String) : Option UnaryOp :=
  all.find? fun op => op.text == text

end UnaryOp

/-- Operators between two expressions. -/
inductive BinaryOp where
  | or | and
  | eq | notEq | lt | le | gt | ge | spaceship | cmp | like | contains
  | add | sub | mul | div | mod
  deriving DecidableEq, Repr

namespace BinaryOp

/-- Every binary operator. -/
def all : List BinaryOp :=
  [or, and, eq, notEq, lt, le, gt, ge, spaceship, cmp, like, contains,
    add, sub, mul, div, mod]

/-- The text that writes the operator. -/
def text : BinaryOp → String
  | or => "||"
  | and => "&&"
  | eq => "=="
  | notEq => "!="
  | lt => "<"
  | le => "<="
  | gt => ">"
  | ge => ">="
  | spaceship => "<=>"
  | cmp => "cmp"
  | like => "like"
  | contains => "><"
  | add => "+"
  | sub => "-"
  | mul => "*"
  | div => "/"
  | mod => "%"

/-- The operator that the text writes. -/
def ofText? (text : String) : Option BinaryOp :=
  all.find? fun op => op.text == text

end BinaryOp

/-- Operators on events. -/
inductive EventOp where
  | or | and | before | then | after | between | notBetween
  deriving DecidableEq, Repr

namespace EventOp

/-- The operators that a single word writes. -/
def words : List EventOp := [or, and, before, «then», after, between]

/-- The text that writes the operator. -/
def text : EventOp → String
  | or => "or"
  | and => "and"
  | before => "before"
  | «then» => "then"
  | after => "after"
  | between => "between"
  | notBetween => "not between"

/-- The operator that a single word writes. -/
def ofWord? (word : String) : Option EventOp :=
  words.find? fun op => op.text == word

end EventOp

/-- Groups of events that must occur several times. -/
inductive GroupOp where
  | count | repeat
  deriving DecidableEq, Repr

/-- What is computed over the events of a group. -/
inductive AggregateOp where
  | min | max | sum | avg | push
  deriving DecidableEq, Repr

namespace AggregateOp

/-- Every aggregator. -/
def all : List AggregateOp := [min, max, sum, avg, push]

/-- The word that writes the aggregator. -/
def word : AggregateOp → String
  | min => "min"
  | max => "max"
  | sum => "sum"
  | avg => "avg"
  | push => "push"

/-- The aggregator that a word writes. -/
def ofWord? (word : String) : Option AggregateOp :=
  all.find? fun op => op.word == word

end AggregateOp

/-- Levels of log and error statements. -/
inductive LogLevel where
  | error | warn | info | debug
  deriving DecidableEq, Repr

namespace LogLevel

/-- Every level. -/
def all : List LogLevel := [error, warn, info, debug]

/-- The word that writes the level. -/
def word : LogLevel → String
  | error => "error"
  | warn => "warn"
  | info => "info"
  | debug => "debug"

/-- The level that a word writes. -/
def ofWord? (word : String) : Option LogLevel :=
  all.find? fun level => level.word == word

end LogLevel

/-- Which actions of a block run: all, the one a value chooses, or any one. -/
inductive BlockType where
  | every | choose | sample
  deriving DecidableEq, Repr

/-- Whether a rule takes part at all. -/
inductive RuleState where
  | active | inactive
  deriving DecidableEq, Repr

/-- How a member expression addresses its property: `a.b`, `a[b]`, or `a{b}`. -/
inductive MemberMethod where
  | dot | index | path
  deriving DecidableEq, Repr

end Krl

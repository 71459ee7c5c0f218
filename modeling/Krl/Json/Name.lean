import Krl.Json
import Krl.Syntax.Ruleset

/-!
# Names of alternatives

Closed sets of words are documents of one string, the name of the word in the set.
-/

namespace Krl

/-- The name of the operator in documents. -/
def UnaryOp.name : UnaryOp → String
  | not => "Not"
  | plus => "Plus"
  | minus => "Minus"

/-- The name of the operator in documents. -/
def BinaryOp.name : BinaryOp → String
  | or => "Or"
  | and => "And"
  | eq => "Eq"
  | notEq => "NotEq"
  | lt => "Lt"
  | le => "Le"
  | gt => "Gt"
  | ge => "Ge"
  | spaceship => "Spaceship"
  | cmp => "Cmp"
  | like => "Like"
  | contains => "Contains"
  | add => "Add"
  | sub => "Sub"
  | mul => "Mul"
  | div => "Div"
  | mod => "Mod"

/-- The name of the operator in documents. -/
def EventOp.name : EventOp → String
  | or => "Or"
  | and => "And"
  | before => "Before"
  | «then» => "Then"
  | after => "After"
  | between => "Between"
  | notBetween => "NotBetween"

/-- The name of the group in documents. -/
def GroupOp.name : GroupOp → String
  | count => "Count"
  | «repeat» => "Repeat"

/-- The name of the aggregator in documents. -/
def AggregateOp.name : AggregateOp → String
  | min => "Min"
  | max => "Max"
  | sum => "Sum"
  | avg => "Avg"
  | push => "Push"

/-- The name of the level in documents. -/
def LogLevel.name : LogLevel → String
  | error => "Error"
  | warn => "Warn"
  | info => "Info"
  | debug => "Debug"

/-- The name of the type of block in documents. -/
def BlockType.name : BlockType → String
  | every => "Every"
  | choose => "Choose"
  | sample => "Sample"

/-- The name of the state in documents. -/
def RuleState.name : RuleState → String
  | active => "Active"
  | inactive => "Inactive"

/-- The name of the method in documents. -/
def MemberMethod.name : MemberMethod → String
  | dot => "Dot"
  | index => "Index"
  | path => "Path"

/-- Every operator on events. -/
def EventOp.all : List EventOp := words ++ [notBetween]

/-- Every kind of group. -/
def GroupOp.all : List GroupOp := [count, «repeat»]

/-- Every type of block. -/
def BlockType.all : List BlockType := [every, choose, sample]

/-- Every state of a rule. -/
def RuleState.all : List RuleState := [active, inactive]

/-- Every method of access. -/
def MemberMethod.all : List MemberMethod := [dot, index, path]

end Krl

import Krl.Binary64
import Krl.Syntax.Name
import Krl.Syntax.Operator

/-!
# Expressions, statements, and actions

Functions hold statements, statements hold expressions, and an action definition
is a statement with a block of actions, so the three are defined together. The
types are those of a tree that may come from elsewhere than the grammar: they
admit, for instance, a postlude statement inside a function.
-/

namespace Krl

mutual

/-- An expression and the bytes it was read from. -/
structure Expr where
  kind : ExprKind
  span : Span

inductive ExprKind where
  | identifier (name : String)
  | domainIdentifier (domain name : String)
  | string (value : String)
  | number (value : Binary64)
  | boolean (value : Bool)
  | regexp (pattern flags : String)
  /-- A template. Its texts are strings, its interpolations any expressions. -/
  | chevron (parts : List Expr)
  | array (items : List Expr)
  | map (pairs : List MapPair)
  | unary (op : UnaryOp) (operand : Expr)
  | binary (op : BinaryOp) (left right : Expr)
  /-- `test => consequent | alternate` -/
  | conditional (test consequent alternate : Expr)
  | member (object property : Expr) (method : MemberMethod)
  | application (callee : Expr) (arguments : Arguments)
  | function (parameters : Parameters) (body : List Stmt)

/-- `key : value` in a map. -/
structure MapPair where
  key : Expr
  value : Expr
  span : Span

/-- A list of arguments with its parentheses. -/
structure Arguments where
  items : List Argument
  span : Span

inductive Argument where
  | positional (value : Expr)
  | named (argument : NamedArgument)

/-- `name = value` in a list of arguments. -/
structure NamedArgument where
  name : Identifier
  value : Expr
  span : Span

/-- The parameters of a function or of an action, without parentheses. -/
structure Parameters where
  items : List Parameter
  span : Span

/-- A parameter, with the value it takes when no argument is given. -/
structure Parameter where
  name : Identifier
  default : Option Expr
  span : Span

/-- A statement and the bytes it was read from. -/
structure Stmt where
  kind : StmtKind
  span : Span

inductive StmtKind where
  | expression (value : Expr)
  /-- `left = right` -/
  | declaration (left right : Expr)
  | defaction (definition : DefAction)
  /-- `ent:name := value` or `ent:name{path} := value` -/
  | persistent (left : Expr) (path : Option Expr) (right : Expr)
  /-- `clear ent:name` -/
  | clear (name : Expr)
  /-- `raise domain event type for rid attributes attrs` -/
  | raise (eventDomain : Identifier) (eventType : Expr) (forRid attributes : Option Expr)
  /-- `schedule domain event type at time attributes attrs setting(name)` -/
  | schedule (timing : ScheduleTiming) (eventDomain : Identifier) (eventType : Expr)
      (attributes : Option Expr) (setting : Option Identifier)
  | log (level : LogLevel) (value : Expr)
  | error (level : LogLevel) (value : Expr)
  /-- A statement that runs under a condition. -/
  | guarded (condition : GuardCondition) (statement : Stmt)
  | last

/-- `name = defaction(parameters) { ... }` -/
structure DefAction where
  name : Identifier
  parameters : Parameters
  body : List Stmt
  actionBlock : ActionBlock
  returns : List Expr

/-- Actions under a condition; the discriminant is what `choose` goes by. -/
structure ActionBlock where
  condition : Option Expr
  blockType : BlockType
  discriminant : Option Expr
  actions : List Action
  span : Span

/-- `label => action(arguments) setting(names)` -/
structure Action where
  label : Option Identifier
  action : Expr
  arguments : Arguments
  setting : List Identifier
  span : Span

/-- When a scheduled event is raised. -/
inductive ScheduleTiming where
  | at (time : Expr)
  | repeat (timespec : Expr)

/-- When a guarded statement runs: in the last iteration, or if a test holds. -/
inductive GuardCondition where
  | onFinal
  | if (test : Expr)

end

instance : Inhabited Expr := ⟨⟨.boolean false, default⟩⟩
instance : Inhabited Stmt := ⟨⟨.last, default⟩⟩

/-- The name as an expression. -/
def Identifier.toExpr (identifier : Identifier) : Expr :=
  ⟨.identifier identifier.value, identifier.span⟩

/-- The bytes an argument was read from. -/
def Argument.span : Argument → Span
  | .positional value => value.span
  | .named argument => argument.span

/-- The assignment operator of a statement that has one. -/
def StmtKind.op? : StmtKind → Option String
  | .declaration .. => some "="
  | .persistent .. => some ":="
  | _ => none

end Krl

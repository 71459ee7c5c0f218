import Krl.Json.Name

/-!
# Outlines

An outline shows how a program is put together by the text under its parts.
-/

namespace Krl

section

variable (source : String)

/-- The text under a span. -/
def Span.outline (span : Span) : Json :=
  .ofOption .string (span.slice? source)

/-- The outline of an expression: operators, calls, and functions with their parts,
any other expression as it is written. -/
def Expr.outline : Expr → Json
  | ⟨.binary op left right, _⟩ =>
      .array [.string op.text, left.outline, right.outline]
  | ⟨.unary op operand, _⟩ => .array [.string op.text, operand.outline]
  | ⟨.application callee arguments, _⟩ =>
      .array [.string "call", callee.outline,
        .ofList (fun argument => argument.span.outline source) arguments.items]
  | ⟨.function parameters _, _⟩ =>
      .array [.string "function", parameters.span.outline source,
        .bool parameters.span.isEmpty,
        .ofList (fun parameter => parameter.span.outline source) parameters.items]
  | ⟨_, span⟩ => span.outline source

/-- The expression that a statement evaluates or assigns. -/
def StmtKind.value? : StmtKind → Option Expr
  | .expression value => some value
  | .declaration _ right | .persistent _ _ right => some right
  | _ => none

/-- The outline of a statement. -/
def Stmt.outline : Stmt → Json
  | ⟨kind, span⟩ =>
      .object [("op", .ofOption .string kind.op?), ("text", span.outline source),
        ("len", .ofNat span.length), ("expr", .ofOption (Expr.outline source) kind.value?),
        ("guarded",
          match kind with
          | .guarded _ statement => statement.outline
          | _ => .null)]

mutual

/-- The outline of an event expression: operators with their operands, any other
event as it is written. -/
def Event.outline : Event → Json
  | ⟨.operator op operands, _⟩ => .array [.string op.text, .array (eventOutlines operands)]
  | ⟨_, span⟩ => span.outline source

/-- The outlines of some event expressions. -/
def eventOutlines : List Event → List Json
  | [] => []
  | event :: others => event.outline :: eventOutlines others

end

/-- The outline of an action. -/
def Action.outline (action : Action) : Json :=
  .object [("text", action.span.outline source),
    ("args", .ofList (fun argument => argument.span.outline source) action.arguments.items)]

/-- The outline of a rule. -/
def Rule.outline (rule : Rule) : Json :=
  let branch (statements : Option (List Stmt)) : Json :=
    .ofOption (Json.ofList (Stmt.outline source)) statements
  .object [("name", .string rule.name.value),
    ("state", .string rule.state.name),
    ("text", rule.span.outline source),
    ("event", .ofOption (fun select => select.event.outline source) rule.select),
    ("prelude", .ofList (Stmt.outline source) rule.prelude),
    ("actions",
      .ofOption (fun block => .ofList (Action.outline source) block.actions) rule.actionBlock),
    ("fired", branch (rule.postlude.bind RulePostlude.fired)),
    ("notfired", branch (rule.postlude.bind RulePostlude.notFired)),
    ("always", branch (rule.postlude.bind RulePostlude.always))]

/-- The outline of a ruleset. -/
def Ruleset.outline (ruleset : Ruleset) : Json :=
  .object [("rid", .string ruleset.rid.value), ("text", ruleset.rid.span.outline source),
    ("global", .ofList (Stmt.outline source) ruleset.globals),
    ("rules", .ofList (Rule.outline source) ruleset.rules)]

/-- The outline of a program. -/
def Program.outline (program : Program) : Json :=
  .object [("ruleset", .ofOption (Ruleset.outline source) program.ruleset?),
    ("statements", .ofList (Stmt.outline source) program.statementList)]

end

end Krl

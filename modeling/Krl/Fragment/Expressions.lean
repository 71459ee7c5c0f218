import Krl.Fragment.Reducing

/-!
# Reducers of expressions and statements
-/

namespace Krl.Reducers

open Fragment (into)
open Reducing

/-- A conditional. -/
def conditional : Reducer := fun span =>
  return .piece .expression
    ⟨.conditional (← piece .expression 0) (← piece .expression 2) (← piece .expression 4), span⟩

/-- An operator between two expressions. -/
def binary : Reducer := fun span => do
  let op ← known "operator" BinaryOp.ofText? (← word 1)
  return .piece .expression ⟨.binary op (← piece .expression 0) (← piece .expression 2), span⟩

/-- An operator before an expression. -/
def unary : Reducer := fun span => do
  let op ← known "operator" UnaryOp.ofText? (← word 0)
  return .piece .expression ⟨.unary op (← piece .expression 1), span⟩

/-- A member under a name. -/
def memberDot : Reducer := fun span => do
  let property := (← identifier 2).toExpr
  return .piece .expression ⟨.member (← piece .expression 0) property .dot, span⟩

/-- A member under the value of an expression. -/
def memberAt (method : MemberMethod) : Reducer := fun span => do
  let property ← piece .expression 2
  return .piece .expression ⟨.member (← piece .expression 0) property method, span⟩

/-- A call. -/
def application : Reducer := fun span =>
  return .piece .expression ⟨.application (← piece .expression 0) (← piece .arguments 1), span⟩

/-- Arguments in parentheses. -/
def arguments : Reducer := fun span =>
  return .piece .arguments ⟨← items 1 (into .argument), span⟩

/-- An argument without a name. -/
def argumentPositional : Reducer := fun _ =>
  return .piece .argument (.positional (← piece .expression 0))

/-- An argument with a name. -/
def argumentNamed : Reducer := fun span =>
  return .piece .argument (.named ⟨← identifier 0, ← piece .expression 2, span⟩)

/-- A function. -/
def function : Reducer := fun span =>
  return .piece .expression
    ⟨.function (← piece .parameters 2) (← items 5 (into .statement)), span⟩

/-- No parameters. -/
def parametersEmpty : Reducer := fun span =>
  return .piece .parameters ⟨[], span⟩

/-- Parameters between parentheses. -/
def parameters : Reducer := fun span =>
  return .piece .parameters ⟨← items 0 (into .parameter), span⟩

/-- A parameter. -/
def parameter : Reducer := fun span =>
  return .piece .parameter ⟨← identifier 0, none, span⟩

/-- A parameter with the value it takes when there is no argument. -/
def parameterDefault : Reducer := fun span =>
  return .piece .parameter ⟨← identifier 0, some (← piece .expression 2), span⟩

/-- A name as an expression. -/
def name : Reducer := fun _ =>
  return .piece .expression (← identifier 0).toExpr

/-- A token as an expression. -/
def literal (value : Leaf → Except ParseError Expr) : Reducer := fun _ => do
  let leaf ← piece .token 0
  return .piece .expression (← ofExcept (value leaf))

/-- A name with its domain. -/
def domainName : Reducer := literal Leaf.domainName

/-- A number. -/
def number : Reducer := literal Leaf.number

/-- A string. -/
def string : Reducer := literal Leaf.string

/-- A regular expression. -/
def regexp : Reducer := literal Leaf.regexp

/-- A truth value. -/
def boolean : Reducer := fun span =>
  return .piece .expression ⟨.boolean ((← word 0) == "true"), span⟩

/-- A template. Its interpolations are parsed now. -/
def template : Reducer := fun span => do
  let leaf ← piece .token 0
  return .piece .expression ⟨.chevron (← leaf.template), span⟩

/-- The empty array. -/
def arrayEmpty : Reducer := fun span =>
  return .piece .expression ⟨.array [], span⟩

/-- An array. -/
def array : Reducer := fun span =>
  return .piece .expression ⟨.array (← items 1 (into .expression)), span⟩

/-- The empty map. -/
def mapEmpty : Reducer := fun span =>
  return .piece .expression ⟨.map [], span⟩

/-- A map. -/
def map : Reducer := fun span =>
  return .piece .expression ⟨.map (← items 1 (into .mapPair)), span⟩

/-- A key with its value. The key is a string. -/
def mapPair : Reducer := fun span => do
  let leaf ← piece .token 0
  return .piece .mapPair ⟨← ofExcept leaf.string, ← piece .expression 2, span⟩

/-- An expression as a statement. -/
def statementExpression : Reducer := fun _ => do
  let value ← piece .expression 0
  return .piece .statement ⟨.expression value, value.span⟩

/-- The reducers of `Productions.operators`. -/
def operators : List Reducer :=
  [pass 0, conditional, binary, pass 0, binary, pass 0] ++ List.replicate 10 binary ++
    [pass 0] ++ List.replicate 2 binary ++ [pass 0] ++ List.replicate 3 binary ++ [pass 0] ++
    List.replicate 3 unary ++ [pass 0]

/-- The reducers of `Productions.suffixes`. -/
def suffixes : List Reducer :=
  [pass 0, memberDot, memberAt .index, memberAt .path, application]

/-- The reducers of `Productions.operands`. -/
def operands : List Reducer :=
  [name, domainName, number, string, regexp, template, boolean, boolean, pass 0, pass 0, pass 0,
    pass 1]

/-- The reducers of `Productions.collections`. -/
def collections : List Reducer :=
  [arrayEmpty, array, array, listFirst, listPush 2, mapEmpty, map, map, listFirst, listPush 2,
    mapPair]

/-- The reducers of `Productions.functions`. -/
def functions : List Reducer :=
  [function, parametersEmpty, parameters, parameters, listFirst, listPush 2, parameter,
    parameterDefault]

/-- The reducers of `Productions.calls`. -/
def calls : List Reducer :=
  [arguments, listEmpty, pass 0, pass 0, listFirst, listPush 2, argumentPositional,
    argumentNamed]

/-- The reducers of `Productions.statements`. -/
def statements : List Reducer :=
  [listEmpty, pass 0, pass 0, listFirst, listPush 2, statementExpression, pass 0]

/-- The reducers of `Productions.expressionRules`. -/
def expressionRules : List Reducer :=
  operators ++ suffixes ++ operands ++ collections ++ functions ++ calls ++ statements

end Krl.Reducers

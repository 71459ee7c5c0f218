import Krl.Language.Guards

/-!
# Productions of declarations and actions

Declarations and actions follow one another without separators; a semicolon may
stand after each.
-/

namespace Krl.Productions

/-- Declarations of variables and of actions. -/
def declarations : List Entry :=
  [rule .declarations [] fun _ => [],
    rule .declarations [the .declarations, the .declarationItem]
      fun _ items item => items ++ [item],
    same .declarationItem .declarationOrDefaction id,
    rule .declarationItem [the .declarationOrDefaction, mark .semicolon] fun _ item _ => item,
    same .declarationOrDefaction .declaration id,
    same .declarationOrDefaction .defaction id,
    rule .declaration [the .declarationLeft, mark .equal, the .expression]
      fun span left _ right => ⟨.declaration left right, span⟩,
    rule .declarationLeft [token .identifier] fun _ name => name.toExpr,
    rule .declarationLeft [token .domainName] fun _ name => name,
    rule .declarationLeft [the .declarationLeft, mark .dot, token .identifier]
      fun span object _ property => ⟨.member object property.toExpr .dot, span⟩,
    rule .declarationLeft
      [the .declarationLeft, mark .leftBracket, the .expression, mark .rightBracket]
      fun span object _ property _ => ⟨.member object property .index, span⟩,
    rule .declarationLeft
      [the .declarationLeft, mark .leftBrace, the .expression, mark .rightBrace]
      fun span object _ property _ => ⟨.member object property .path, span⟩]

/-- Definitions of actions. -/
def defactions : List Entry :=
  [rule .defaction
      [token .identifier, mark .equal, word "defaction", mark .leftParen, the .parameters,
        mark .rightParen, mark .leftBrace, the .plainDeclarations, the .actionBlock,
        the .returnsOpt, mark .rightBrace]
      fun span name _ _ _ parameters _ _ body block returns _ =>
        ⟨.defaction ⟨name, parameters, body, block, returns⟩, span⟩,
    rule .plainDeclarations [] fun _ => [],
    rule .plainDeclarations [the .plainDeclarations, the .plainDeclaration]
      fun _ items item => items ++ [item],
    same .plainDeclaration .declaration id,
    rule .plainDeclaration [the .declaration, mark .semicolon] fun _ item _ => item,
    rule .returnsOpt [] fun _ => [],
    rule .returnsOpt [word "return", the .expressions] fun _ _ items => items,
    rule .returnsOpt [word "returns", the .expressions] fun _ _ items => items,
    rule .expressions [the .expression] fun _ item => [item],
    rule .expressions [the .expressions, mark .comma, the .expression]
      fun _ items _ item => items ++ [item]]

/-- Blocks of actions. -/
def actionBlocks : List Entry :=
  [rule .actionBlock [the .actionSet]
      fun span set => ⟨none, set.blockType, set.discriminant, set.actions, span⟩,
    rule .actionBlock [word "if", the .expression, word "then", the .actionSet]
      fun span _ test _ set => ⟨some test, set.blockType, set.discriminant, set.actions, span⟩,
    rule .actionSet [the .actionItem] fun _ item => ⟨.every, none, [item]⟩,
    rule .actionSet [word "every", mark .leftBrace, the .actions, mark .rightBrace]
      fun _ _ _ items _ => ⟨.every, none, items⟩,
    rule .actionSet [word "sample", mark .leftBrace, the .actions, mark .rightBrace]
      fun _ _ _ items _ => ⟨.sample, none, items⟩,
    rule .actionSet
      [word "choose", the .expression, mark .leftBrace, the .actions, mark .rightBrace]
      fun _ _ discriminant _ items _ => ⟨.choose, some discriminant, items⟩,
    rule .actions [the .actionItem] fun _ item => [item],
    rule .actions [the .actions, the .actionItem] fun _ items item => items ++ [item]]

/-- Single actions. -/
def actions : List Entry :=
  [same .actionItem .action id,
    rule .actionItem [the .action, mark .semicolon] fun _ item _ => item,
    same .action .actionCore id,
    rule .action [token .identifier, mark .arrow, the .actionCore]
      fun span label _ action => { action with label := some label, span := span },
    guarded notAfterGroup <|
      rule .actionCore [the .actionName, the .arguments, the .settingOpt]
        fun span name arguments setting => ⟨none, name, arguments, setting, span⟩,
    rule .actionName [token .identifier] fun _ name => name.toExpr,
    rule .actionName [token .domainName] fun _ name => name,
    rule .settingOpt [] fun _ => [],
    rule .settingOpt [word "setting", mark .leftParen, the .identifiers, mark .rightParen]
      fun _ _ _ names _ => names]

/-- Lists of names between commas. -/
def identifierLists : List Entry :=
  [rule .identifiers [token .identifier] fun _ name => [name],
    rule .identifiers [the .identifiers, mark .comma, token .identifier]
      fun _ names _ name => names ++ [name]]

/-- All productions of declarations and actions. -/
def declarationRules : List Entry :=
  declarations ++ defactions ++ actionBlocks ++ actions ++ identifierLists

end Krl.Productions

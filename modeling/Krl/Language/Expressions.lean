import Krl.Language.Vocabulary

/-!
# Productions of expressions and statements

Binary operators are layered by precedence, the loosest first, and group to the
left. A conditional is looser than all of them and groups to the right.
-/

namespace Krl.Productions

/-- Conditionals, and the layers of binary operators. -/
def operators : List Entry :=
  [same .expression .disjunction id,
    rule .expression
      [the .disjunction, mark .arrow, the .disjunction, mark .pipe, the .expression]
      fun span test _ consequent _ alternate =>
        ⟨.conditional test consequent alternate, span⟩,
    rule .disjunction [the .disjunction, mark .either, the .conjunction]
      fun span left _ right => ⟨.binary .or left right, span⟩,
    same .disjunction .conjunction id,
    rule .conjunction [the .conjunction, mark .both, the .comparison]
      fun span left _ right => ⟨.binary .and left right, span⟩,
    same .conjunction .comparison id] ++
  ([(mark .less, .lt), (mark .greater, .gt), (mark .lessEqual, .le), (mark .greaterEqual, .ge),
      (mark .equalTo, .eq), (mark .notEqualTo, .notEq), (mark .spaceship, .spaceship),
      (mark .contains, .contains), (word "like", .like), (word "cmp", .cmp)].map
    fun ((place, op) : Symbol Nonterminal Terminal × BinaryOp) =>
      rule .comparison [the .comparison, place, the .sum]
        fun span left _ right => ⟨.binary op left right, span⟩) ++
  [same .comparison .sum id] ++
  ([(mark .plus, .add), (mark .minus, .sub)].map
    fun ((place, op) : Symbol Nonterminal Terminal × BinaryOp) =>
      rule .sum [the .sum, place, the .product]
        fun span left _ right => ⟨.binary op left right, span⟩) ++
  [same .sum .product id] ++
  ([(mark .star, .mul), (mark .slash, .div), (mark .percent, .mod)].map
    fun ((place, op) : Symbol Nonterminal Terminal × BinaryOp) =>
      rule .product [the .product, place, the .unary]
        fun span left _ right => ⟨.binary op left right, span⟩) ++
  [same .product .unary id] ++
  ([(word "not", .not), (mark .minus, .minus), (mark .plus, .plus)].map
    fun ((place, op) : Symbol Nonterminal Terminal × UnaryOp) =>
      rule .unary [place, the .unary] fun span _ operand => ⟨.unary op operand, span⟩) ++
  [same .unary .suffixed id]

/-- Member accesses and calls. -/
def suffixes : List Entry :=
  [same .suffixed .primary id,
    rule .suffixed [the .suffixed, mark .dot, token .identifier]
      fun span object _ property => ⟨.member object property.toExpr .dot, span⟩,
    rule .suffixed [the .suffixed, mark .leftBracket, the .expression, mark .rightBracket]
      fun span object _ property _ => ⟨.member object property .index, span⟩,
    rule .suffixed [the .suffixed, mark .leftBrace, the .expression, mark .rightBrace]
      fun span object _ property _ => ⟨.member object property .path, span⟩,
    rule .suffixed [the .suffixed, the .arguments]
      fun span callee arguments => ⟨.application callee arguments, span⟩]

/-- Operands: names, literals, and expressions in parentheses. -/
def operands : List Entry :=
  [rule .primary [token .identifier] fun _ name => name.toExpr,
    rule .primary [token .domainName] fun _ name => name,
    rule .primary [token .number] fun _ literal => literal,
    rule .primary [token .string] fun _ literal => literal,
    rule .primary [token .regexp] fun _ literal => literal,
    template .primary id,
    rule .primary [word "true"] fun span _ => ⟨.boolean true, span⟩,
    rule .primary [word "false"] fun span _ => ⟨.boolean false, span⟩,
    same .primary .arrayLiteral id,
    same .primary .mapLiteral id,
    same .primary .function id,
    rule .primary [mark .leftParen, the .expression, mark .rightParen]
      fun _ _ inner _ => inner]

/-- Arrays and maps. A comma may follow the last element. -/
def collections : List Entry :=
  [rule .arrayLiteral [mark .leftBracket, mark .rightBracket]
      fun span _ _ => ⟨.array [], span⟩,
    rule .arrayLiteral [mark .leftBracket, the .arrayItems, mark .rightBracket]
      fun span _ items _ => ⟨.array items, span⟩,
    rule .arrayLiteral [mark .leftBracket, the .arrayItems, mark .comma, mark .rightBracket]
      fun span _ items _ _ => ⟨.array items, span⟩,
    rule .arrayItems [the .expression] fun _ item => [item],
    rule .arrayItems [the .arrayItems, mark .comma, the .expression]
      fun _ items _ item => items ++ [item],
    rule .mapLiteral [mark .leftBrace, mark .rightBrace] fun span _ _ => ⟨.map [], span⟩,
    rule .mapLiteral [mark .leftBrace, the .mapPairs, mark .rightBrace]
      fun span _ pairs _ => ⟨.map pairs, span⟩,
    rule .mapLiteral [mark .leftBrace, the .mapPairs, mark .comma, mark .rightBrace]
      fun span _ pairs _ _ => ⟨.map pairs, span⟩,
    rule .mapPairs [the .mapPair] fun _ pair => [pair],
    rule .mapPairs [the .mapPairs, mark .comma, the .mapPair]
      fun _ pairs _ pair => pairs ++ [pair],
    rule .mapPair [token .string, mark .colon, the .expression]
      fun span key _ value => ⟨key, value, span⟩]

/-- Functions and their parameters. -/
def functions : List Entry :=
  [rule .function
      [word "function", mark .leftParen, the .parameters, mark .rightParen,
        mark .leftBrace, the .statements, mark .rightBrace]
      fun span _ _ parameters _ _ body _ => ⟨.function parameters body, span⟩,
    rule .parameters [] fun span => ⟨[], span⟩,
    rule .parameters [the .parameterList] fun span items => ⟨items, span⟩,
    rule .parameters [the .parameterList, mark .comma] fun span items _ => ⟨items, span⟩,
    rule .parameterList [the .parameter] fun _ item => [item],
    rule .parameterList [the .parameterList, mark .comma, the .parameter]
      fun _ items _ item => items ++ [item],
    rule .parameter [token .identifier] fun span name => ⟨name, none, span⟩,
    rule .parameter [token .identifier, mark .equal, the .expression]
      fun span name _ value => ⟨name, some value, span⟩]

/-- Arguments of calls and of actions. -/
def calls : List Entry :=
  [rule .arguments [mark .leftParen, the .argumentList, mark .rightParen]
      fun span _ items _ => ⟨items, span⟩,
    rule .argumentList [] fun _ => [],
    same .argumentList .argumentSequence id,
    rule .argumentList [the .argumentSequence, mark .comma] fun _ items _ => items,
    rule .argumentSequence [the .argument] fun _ item => [item],
    rule .argumentSequence [the .argumentSequence, mark .comma, the .argument]
      fun _ items _ item => items ++ [item],
    rule .argument [the .expression] fun _ value => .positional value,
    rule .argument [token .identifier, mark .equal, the .expression]
      fun span name _ value => .named ⟨name, value, span⟩]

/-- Statements of functions and of sources without a ruleset. -/
def statements : List Entry :=
  [rule .statements [] fun _ => [],
    same .statements .statementSequence id,
    rule .statements [the .statementSequence, mark .semicolon] fun _ items _ => items,
    rule .statementSequence [the .statement] fun _ item => [item],
    rule .statementSequence [the .statementSequence, mark .semicolon, the .statement]
      fun _ items _ item => items ++ [item],
    rule .statement [the .expression] fun _ value => ⟨.expression value, value.span⟩,
    same .statement .declaration id]

/-- All productions of expressions and statements. -/
def expressionRules : List Entry :=
  operators ++ suffixes ++ operands ++ collections ++ functions ++ calls ++ statements

end Krl.Productions

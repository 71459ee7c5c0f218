import Krl.Proofs.Language.Letters

/-!
# How the productions are told apart

The criteria for the productions of rulesets. The masks of the nonterminals are
collected by going over the productions until nothing is added, and so are the sights
that lengthen phrases. Nearly every phrase may then stand before whatever does not
lengthen it.
-/

namespace Krl

namespace Distinction

/-- The letters that are not told apart in the second place of a sight. -/
def groups : List Nat :=
  let some_ : List Nat := [
    Letter.set [Letter.finish, Letter.ofPunct .rightParen, Letter.ofPunct .rightBracket,
      Letter.ofPunct .rightBrace],
    Letter.set [Letter.ofPunct .equal],
    Letter.set [Letter.ofPunct .arrow],
    Letter.set [Letter.ofPunct .dot, Letter.ofPunct .leftBracket, Letter.ofPunct .leftBrace],
    Letter.set [Letter.regexp],
    Letter.set (["always", "fired", "notfired", "return", "returns"].map Letter.ofWord),
    Letter.set (Letter.persistent :: ["error", "warn", "info", "debug"].map Letter.ofWord),
    Letter.set [Letter.ofWord "final"]]
  some_ ++ [2 ^ Letter.count - 1 - 1 - some_.foldr (· ||| ·) 0]

/-- How tokens are looked at. -/
def optics : Optics Terminal where
  width := Letter.count
  groups := groups
  letters := Terminal.letters
  turn := Terminal.turn Punct.turn

/-- The sights that a phrase may begin with where it is called for. An action is not
named like an aggregator right after a group of events, and there only. -/
def allowed (name : Nonterminal) : Nat :=
  if name = .actionCore then
    optics.sights (optics.anything - Letter.set [Letter.aggregator])
  else if name = .aggregatorOpt then
    optics.sights (optics.anything - Letter.set [Letter.aggregatorName])
  else
    optics.everywhere

/-- Number of bits of a mask. -/
def size : Nat := 920

/-- The mask of a nonterminal in a table. -/
def lookup (table : Nat) (name : Nonterminal) : Nat :=
  table >>> (name.ctorIdx * size) % 2 ^ size

/-- A table with nothing but the mask of a nonterminal. -/
def entered (name : Nonterminal) (mask : Nat) : Nat :=
  mask <<< (name.ctorIdx * size)

abbrev Row := Production Nonterminal Terminal Leaf

/-- The table after going over some productions. The table is put together before the
next production is looked at. -/
def swept (mask : (table : Nat) → Row → Nat) : List Row → (table : Nat) → Nat
  | [], table => table
  | production :: others, table =>
      match table ||| entered production.lhs (mask table production) with
      | 0 => swept mask others 0
      | larger + 1 => swept mask others (larger + 1)

/-- The table after going over the productions so many times. -/
def collected (mask : (table : Nat) → Row → Nat) (rows : List Row) :
    (count : Nat) → (table : Nat) → Nat
  | 0, table => table
  | count + 1, table =>
      match swept mask rows table with
      | 0 => 0
      | larger + 1 => collected mask rows count (larger + 1)

/-- The view with the masks of nonterminals from a table. -/
def viewOf (table : Nat) : View Nonterminal Terminal :=
  { toOptics := optics, allowed := allowed, entry := lookup table }

/-- What phrases begin with. -/
def entryTable : Nat :=
  collected (fun table production => (viewOf table).mask 1 production.rhs)
    language.grammar.productions.reverse 3 0

def view : View Nonterminal Terminal := viewOf entryTable

/-- What follows a phrase in a longer one that begins with the same symbols. -/
def surplus (shorter longer : List (Symbol Nonterminal Terminal)) : Nat :=
  if shorter.length < longer.length && shorter.isPrefixOf longer then
    view.mask optics.everywhere (longer.drop shorter.length)
  else
    0

/-- The sights by which phrases of a nonterminal go on themselves. -/
def ownGrowth (name : Nonterminal) : Nat :=
  let beginnings := Criteria.beginnings language.grammar name
  let lengthened := (Criteria.extensions language.grammar name).foldr
    (fun symbols known => view.mask optics.everywhere symbols ||| known) 0
  (beginnings.foldr (fun shorter known =>
    beginnings.foldr (fun longer known => surplus shorter longer ||| known) known) lengthened) &&&
      view.allowed name

/-- The symbols after which a list of symbols can end, the last one first. -/
def endings (table : Nat) : List (Symbol Nonterminal Terminal) → Nat
  | .nonterminal name :: others =>
      lookup table name ||| if (view.entry name).testBit 0 then endings table others else 0
  | _ => 0

/-- The nonterminals that have productions. -/
def names : List Nonterminal :=
  (language.grammar.productions.map Production.lhs).eraseDups

/-- The sights by which phrases go on. -/
def growthTable : Nat :=
  collected (fun table production => endings table production.rhs.reverse)
    language.grammar.productions.reverse 2
    (names.foldr (fun name known => entered name (ownGrowth name) ||| known) 0)

/-- The sights that do not lengthen a phrase. -/
def unlengthened (name : Nonterminal) : Nat :=
  optics.everywhere - lookup growthTable name

def marks (puncts : List Punct) : List Nat :=
  puncts.map Letter.ofPunct

def words (texts : List String) : List Nat :=
  texts.map Letter.ofWord

/-- The letters behind a list of statements. -/
def closers : List Nat :=
  Letter.finish :: marks [.rightParen, .rightBracket, .rightBrace]

/-- The letters behind a block of actions. -/
def behindActions : List Nat :=
  marks [.rightBrace] ++ words ["always", "fired", "notfired", "return", "returns"]

/-- The letters that an expression can go on with. -/
def operatorLetters : List Nat :=
  marks [.plus, .minus, .star, .slash, .percent, .less, .greater, .lessEqual, .greaterEqual,
    .equalTo, .notEqualTo, .spaceship, .contains, .both, .either, .dot, .leftParen, .leftBracket,
    .leftBrace, .arrow] ++ words ["like", "cmp"]

/-- What stands behind an expression: anything that does not lengthen it, or the brace
of a block of actions that the expression chooses from. -/
def expressionLimits (name : Nonterminal) : List Nat :=
  [unlengthened name,
    optics.spread (Letter.set (marks [.leftBrace])) (Letter.set behindActions) |||
      unlengthened name &&& optics.sights (Letter.set operatorLetters)]

/-- What stands behind a phrase. -/
def limits : Nonterminal → List Nat
  | .main | .ruleset | .metaOpt | .metaBlock | .metaProperties | .metaProperty => []
  | .statements | .parameters => [optics.sights (Letter.set closers)]
  | .statement =>
      [optics.sights (Letter.set (closers ++ marks [.semicolon] ++ words ["if", "on"]))]
  | .statementSequence =>
      [optics.sights (Letter.set closers) |||
        optics.spread (Letter.set (marks [.semicolon])) (Letter.set closers)]
  | .postludeStatements => [optics.sights (Letter.set (marks [.rightBrace]))]
  | .argumentList => [optics.sights (Letter.set (marks [.rightParen]))]
  | .argument => [optics.sights (Letter.set (marks [.comma, .rightParen]))]
  | .actionSet | .actionBlock => [optics.sights (Letter.set behindActions)]
  | .actionBlockOpt =>
      [optics.sights (Letter.set (marks [.rightBrace] ++ words ["always", "fired", "notfired"]))]
  | .postludeStatement => [optics.sights (Letter.set (marks [.semicolon, .rightBrace]))]
  | .postludeCore =>
      [optics.sights (Letter.set (marks [.semicolon, .rightBrace] ++ words ["if"])) |||
        optics.spread (Letter.set (words ["on"])) (Letter.set (words ["final"]))]
  | .argumentSequence =>
      [optics.sights (Letter.set (marks [.rightParen])) |||
        optics.spread (Letter.set (marks [.comma])) (Letter.set (marks [.rightParen]))]
  | .postludeSequence =>
      [optics.sights (Letter.set (marks [.rightBrace])) |||
        optics.spread (Letter.set (marks [.semicolon])) (Letter.set (marks [.rightBrace]))]
  | .expression => expressionLimits .expression
  | .disjunction => expressionLimits .disjunction
  | .conjunction => expressionLimits .conjunction
  | .comparison => expressionLimits .comparison
  | .sum => expressionLimits .sum
  | .product => expressionLimits .product
  | .unary => expressionLimits .unary
  | .suffixed => expressionLimits .suffixed
  | .primary => expressionLimits .primary
  | name => [unlengthened name]

/-- Different words and different marks are different tokens. -/
def clash : Terminal → Terminal → Bool
  | .word first, .word second => first != second
  | .punct first, .punct second => first != second
  | _, _ => false

/-- Nonterminals with phrases that are told apart by what stands behind the expression
that they open with. -/
def openingPairs : List (Nonterminal × Nonterminal) :=
  [(.declaration, .defaction), (.expression, .declaration), (.statement, .persistentAssignment),
    (.statement, .raiseStatement), (.statement, .scheduleStatement)]

open Productions in
/-- Right sides that are told apart by more than the next two letters. -/
def excusedPairs :
    List (List (Symbol Nonterminal Terminal) × List (Symbol Nonterminal Terminal)) :=
  ([word "with", the .withSpaced], [word "with", the .withJoined]) ::
    openingPairs.map fun (left, right) => ([the left], [the right])

/-- The criteria for rulesets. -/
def criteria : Criteria Nonterminal Terminal where
  toView := view
  limits := limits
  clash := clash
  excused := fun left right => excusedPairs.contains (left, right)

end Distinction

end Krl

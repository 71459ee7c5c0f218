import Krl.Proofs.Language.Openings

/-!
# Going over the productions

All that has to be computed to see that the productions leave no choice, properties of
rulesets apart. The tables of masks take a while to put together, so everything is
checked at once.
-/

namespace Krl

namespace Distinction

open Grammar Productions

/-- The masks of the nonterminals cover their productions. -/
def masksCover : Bool :=
  language.grammar.productions.all fun production =>
    view.mask 1 production.rhs ||| view.entry production.lhs == view.entry production.lhs

/-- The productions of every nonterminal leave no choice behind which its limits stand. -/
def productionsDecide : Bool :=
  names.all fun name => (limits name).all (criteria.decides language.grammar name)

def beginsWithToken : List (Symbol Nonterminal Terminal) → Bool
  | .terminal _ :: _ => true
  | _ => false

/-- What stands behind an expression tells two phrases apart. -/
def separates (tail : Nat) (one other : List (Symbol Nonterminal Terminal)) : Bool :=
  beginsWithToken (one ++ other) &&
    criteria.permits .expression (criteria.mask tail one ||| criteria.mask tail other) &&
      criteria.apart tail one other

/-- Phrases that open with an expression are told apart by what stands behind it. -/
def openingsApart (tail : Nat) (left right : Nonterminal) : Bool :=
  (openings [.nonterminal left]).all fun one =>
    (openings [.nonterminal right]).all (separates tail one)

/-- Where both phrases of a pair can stand, they are told apart. -/
def openingsDecide : Bool :=
  names.all fun name => (limits name).all fun limit =>
    openingPairs.all fun pair =>
      !(language.grammar.rightSides name).contains [.nonterminal pair.1] ||
        !(language.grammar.rightSides name).contains [.nonterminal pair.2] ||
          openingsApart (criteria.behind language.grammar name limit) pair.1 pair.2

/-- Two ways of listing bindings are told apart by what stands behind the first one. -/
def bindingsDecide : Bool :=
  (limits .withOpt).all fun limit =>
    let tail := criteria.behind language.grammar .withOpt limit
    let spaced := criteria.behind language.grammar .withSpaced tail
    let joined := criteria.mask (criteria.behind language.grammar .withJoined tail)
      [word "and", the .withBinding]
    criteria.permits .withBinding (spaced ||| joined) && spaced &&& joined == 0

/-- The sights behind a whole source. -/
def behindAll : Nat :=
  optics.sights (Letter.set [Letter.finish])

/-- What follows the properties of a ruleset. -/
def bodyOfRuleset : List (Symbol Nonterminal Terminal) :=
  [the .globalOpt, the .rules, mark .rightBrace]

/-- The sights behind the block of properties of a ruleset. -/
def behindBlock : Nat :=
  criteria.mask behindAll bodyOfRuleset

/-- The sights behind the properties of a ruleset. -/
def behindProperties : Nat :=
  criteria.mask behindBlock [mark .rightBrace]

/-- The sights behind a property of a ruleset. -/
def behindProperty : Nat :=
  behindProperties ||| criteria.mask optics.everywhere [the .metaProperty]

/-- Names that are provided to all, and to some rulesets. -/
def provision (key : String) :
    List (Symbol Nonterminal Terminal) × List (Symbol Nonterminal Terminal) :=
  ([word key, the .identifiers],
    [word key, word "keys", the .identifiers, word "to", the .rulesetIds])

/-- The right sides between which the grammar leaves a choice. -/
def openPairs : List (List (Symbol Nonterminal Terminal) × List (Symbol Nonterminal Terminal)) :=
  ["provides", "provide"].map provision

/-- The properties of rulesets leave no other choice. -/
def propertiesDecide : Bool :=
  let properties := language.grammar.rightSides .metaProperty
  holdsPairwise (fun left right => openPairs.contains (left, right) ||
    criteria.apart behindProperty left right) properties &&
      properties.all (criteria.endsSeen behindProperty) &&
        behindProperties &&& criteria.mask optics.everywhere [the .metaProperty] == 0

/-- Around the properties, rulesets leave no choice. -/
def rulesetsDecide : Bool :=
  criteria.mask behindAll [the .ruleset] &&& criteria.mask behindAll [the .statements] == 0 &&
    criteria.permits .rulesetId
        (criteria.mask behindAll (mark .leftBrace :: the .metaOpt :: bodyOfRuleset)) &&
      criteria.mask behindBlock [the .metaBlock] &&& behindBlock == 0 &&
        criteria.endsSeen behindAll bodyOfRuleset

/-- Lists of statements do not begin like rulesets. -/
def statementsDecide : Bool :=
  criteria.mask behindAll [the .statements] &&&
    optics.sights (Letter.set [Letter.ofWord "ruleset"]) == 0

/-- The phrases that may have groups of events or actions in them. -/
def holding : List Nonterminal :=
  [.main, .ruleset, .rules, .rule, .selectOpt, .ruleSelect, .eventOr, .eventAnd, .eventSequence,
    .eventBetween, .eventPrimary, .events, .eventGroup, .globalOpt, .preludeOpt, .declarations,
    .declarationItem, .declarationOrDefaction, .declaration, .defaction, .actionBlockOpt,
    .actionBlock, .actionSet, .actions, .actionItem, .action, .actionCore]

/-- The sights of an aggregator in its place, and a parenthesis behind it. -/
def called : Nat :=
  optics.spread (Letter.set [Letter.aggregator]) (Letter.set [Letter.ofPunct .leftParen])

/-- All other sights. -/
def uncalled : Nat :=
  optics.everywhere - called

/-- Behind phrases with groups or actions in them, no symbols begin with the call of an
aggregator. -/
def uncalledBehind : List (Symbol Nonterminal Terminal) → Bool
  | [] => true
  | .nonterminal name :: others =>
      (!holding.contains name || criteria.mask uncalled others ||| uncalled == uncalled) &&
        uncalledBehind others
  | .terminal _ :: others => uncalledBehind others

/-- Productions of such phrases do not go on with the call of an aggregator behind them. -/
def callsDecide : Bool :=
  language.grammar.productions.all fun production =>
    !holding.contains production.lhs || uncalledBehind production.rhs

/-- Phrases that can make up a whole text. -/
def wholePermitted : Bool :=
  [Nonterminal.statements, .expression, .rule].all fun name => criteria.permits name behindAll

/-- All that is checked by going over the productions. -/
def checked : Bool :=
  masksCover && productionsDecide && openingsDecide && bindingsDecide && propertiesDecide &&
    rulesetsDecide && statementsDecide && callsDecide && wholePermitted

theorem checked_eq_true : checked = true := by
  decide +kernel

/-- The productions leave no choice, properties of rulesets apart. -/
structure Decided : Prop where
  masks : masksCover = true
  productions : productionsDecide = true
  openings : openingsDecide = true
  bindings : bindingsDecide = true
  properties : propertiesDecide = true
  rulesets : rulesetsDecide = true
  statements : statementsDecide = true
  calls : callsDecide = true
  whole : wholePermitted = true

theorem decided_language : Decided := by
  have checks := checked_eq_true
  simp only [checked, Bool.and_eq_true] at checks
  obtain ⟨⟨⟨⟨⟨⟨⟨⟨masks, productions⟩, openings⟩, bindings⟩, properties⟩, rulesets⟩, statements⟩,
    calls⟩, whole⟩ := checks
  exact ⟨masks, productions, openings, bindings, properties, rulesets, statements, calls, whole⟩

end Distinction

end Krl

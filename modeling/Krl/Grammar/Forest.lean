import Krl.Grammar.Chart
import Std.Data.TreeMap

/-!
# Counting derivations

The derivations of a finished chart are counted by taking items apart: the
symbols before a dot derive some tokens in as many ways as there are ways to
derive the symbols before the last one and then the last one, over all places
where the two can meet. Each count is kept, so that no item is taken apart twice,
and with each count comes one derivation.
-/

namespace Krl

/-- A derivation. A node tells the production it applies and the tokens it covers. -/
inductive Derivation where
  | leaf (token : Nat)
  | node (production start stop : Nat) (children : List Derivation)

instance : Inhabited Derivation := ⟨.leaf 0⟩

/-- A number of derivations of some symbols, and the children that one of them has
for these. The sample means nothing when the number is zero. -/
structure Tally where
  count : Nat
  sample : List Derivation

namespace Tally

/-- No derivation. -/
def none : Tally := ⟨0, []⟩

/-- The derivation of nothing. -/
def nothing : Tally := ⟨1, []⟩

/-- The derivations of either kind. -/
def either (left right : Tally) : Tally :=
  ⟨left.count + right.count, if left.count = 0 then right.sample else left.sample⟩

/-- The derivations of one kind followed by one of the other. -/
def both (left right : Tally) : Tally :=
  ⟨left.count * right.count, left.sample ++ right.sample⟩

end Tally

/-- A question about a chart: the ways in which the symbols before an item's dot
derive the tokens from the start of the item up to an index. -/
structure Query where
  item : Item
  stop : Nat
  deriving DecidableEq, Repr

namespace Query

/-- Queries are ordered by their components. -/
def order : Query → Query → Ordering :=
  compareLex (fun left right => Item.order left.item right.item) (compareOn stop)

instance : Std.TransCmp (fun left right : Query => Item.order left.item right.item) where
  eq_swap := by
    intro left right
    exact @Std.OrientedCmp.eq_swap _ Item.order _ left.item right.item
  isLE_trans := by
    intro left middle right
    exact @Std.TransCmp.isLE_trans _ Item.order _ left.item middle.item right.item

instance : Std.TransCmp order :=
  inferInstanceAs (Std.TransCmp
    (compareLex (fun left right => Item.order left.item right.item) (compareOn stop)))

instance : Std.LawfulEqCmp order where
  compare_self := Std.ReflCmp.compare_self
  eq_of_compare := by
    intro left right same
    simp only [order, compareLex_eq_eq, compareOn, Nat.compare_eq_eq] at same
    have item := Std.LawfulEqCmp.eq_of_compare same.1
    cases left
    cases right
    simp_all

end Query

/-- The answers found so far. A query that is being answered has no answer yet;
queries are listed as `opened`, the last one first. -/
structure Answers where
  table : Std.TreeMap Query (Option Tally) Query.order
  opened : List Query

namespace Answers

/-- Before any query. -/
def empty : Answers := ⟨∅, []⟩

end Answers

/-- A way to take an item apart at `stop`: the item before its last symbol, the
token index where that symbol starts, and the match of the symbol if it is a
nonterminal. -/
structure Split where
  before : Item
  middle : Nat
  child : Option Item

namespace Grammar

variable {N T K : Type} [DecidableEq N]

/-- The ways to take apart an item with its dot after a symbol. -/
def splits (grammar : Grammar N T K) (chart : Chart N) (item : Item) (stop : Nat) : List Split :=
  let before := { item with dot := item.dot - 1 }
  let last : Option (Symbol N T) :=
    (grammar.productions[item.production]?).bind fun production => production.rhs[before.dot]?
  match last with
  | none => []
  | some (.terminal _) => if item.start < stop then [⟨before, stop - 1, none⟩] else []
  | some (.nonterminal name) =>
      match chart[stop]? with
      | none => []
      | some set =>
          (set.completed name).filterMap fun child =>
            if item.start ≤ child.start then some ⟨before, child.start, some child⟩ else none

/-- Answer a query and all queries it leads to. A query that comes up again while
it is being answered counts nothing, as a derivation that contains itself is none.
The number of items in the chart is fuel enough, since every query in progress is
about another one of them. -/
def tally (grammar : Grammar N T K) (chart : Chart N) :
    (fuel : Nat) → Item → (stop : Nat) → Answers → Tally × Answers
  | 0, _, _, answers => (.none, answers)
  | fuel + 1, item, stop, answers =>
      if !chart[stop]?.any (·.members.contains item) then
        (.none, answers)
      else if item.dot = 0 then
        (if item.start = stop then .nothing else .none, answers)
      else
        match answers.table[(⟨item, stop⟩ : Query)]? with
        | some known => (known.getD .none, answers)
        | none =>
            let query : Query := ⟨item, stop⟩
            let opened : Answers := ⟨answers.table.insert query none, query :: answers.opened⟩
            let (total, answers) := (grammar.splits chart item stop).foldl
              (fun (total, answers) split =>
                let (left, answers) := tally grammar chart fuel split.before split.middle answers
                match split.child with
                | none => (total.either (left.both ⟨1, [.leaf split.middle]⟩), answers)
                | some child =>
                    let (right, answers) := tally grammar chart fuel child stop answers
                    let node := .node child.production child.start stop right.sample
                    (total.either (left.both ⟨right.count, [node]⟩), answers))
              (.none, opened)
            (total, ⟨answers.table.insert query (some total), answers.opened⟩)

/-- The derivations of a nonterminal over the tokens from `start` up to `stop`. -/
def derivations (grammar : Grammar N T K) (chart : Chart N) (name : N) (start stop : Nat)
    (answers : Answers) : Tally × Answers :=
  (chart.spanning name start stop).foldl
    (fun (total, answers) item =>
      let (ways, answers) := grammar.tally chart (chart.itemCount + 1) item stop answers
      (total.either ⟨ways.count, [.node item.production start stop ways.sample]⟩, answers))
    (.none, answers)

end Grammar

end Krl

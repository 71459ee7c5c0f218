import Krl.Grammar
import Std.Data.TreeSet

/-!
# Charts

A chart records, for every boundary between two tokens, which productions could
have matched how far by there. The set of a boundary is closed under three steps:
a dot before a nonterminal predicts its productions, a dot before a class of
tokens moves over the next token into the next set, and a dot at the end moves
the dots that waited for the phrase. A nonterminal that can match nothing is
moved over as soon as it is predicted, so that a phrase without tokens need not
find the dots that start to wait for it later.
-/

namespace Krl

/-- A production, the dot that tells how much of its right side has matched, and
the token index where the match starts. Each is a word of 32 bits, so fewer than
`2 ^ 32` productions and tokens are assumed. -/
structure Item where
  production : Nat
  dot : Nat
  start : Nat
  deriving DecidableEq, Repr

namespace Item

/-- Items are ordered by their components. -/
def order : Item → Item → Ordering :=
  compareLex (compareOn production) (compareLex (compareOn dot) (compareOn start))

instance : Std.TransCmp order :=
  inferInstanceAs (Std.TransCmp
    (compareLex (compareOn production) (compareLex (compareOn dot) (compareOn start))))

instance : Std.LawfulEqCmp order where
  compare_self := Std.ReflCmp.compare_self
  eq_of_compare := by
    intro left right same
    simp only [order, compareLex_eq_eq, compareOn, Nat.compare_eq_eq] at same
    obtain ⟨production, dot, start⟩ := same
    cases left
    cases right
    simp_all

/-- The item with its dot one symbol further. -/
def advance (item : Item) : Item :=
  { item with dot := item.dot + 1 }

end Item

/-- The items at a boundary between tokens. Those that have been handled are listed,
the last one first; among these, the ones that wait for a nonterminal and the ones
that have matched one are kept by its name. -/
structure ItemSet (N : Type) where
  members : Std.TreeSet Item Item.order
  handled : List Item
  waiting : List (N × Item)
  complete : List (N × Item)

namespace ItemSet

variable {N : Type} [DecidableEq N]

/-- The set without items. -/
def empty : ItemSet N :=
  ⟨∅, [], [], []⟩

/-- The items that wait for a nonterminal. -/
def waitingFor (set : ItemSet N) (name : N) : List Item :=
  set.waiting.filterMap fun (awaited, item) => if awaited = name then some item else none

/-- Whether an item waits for the nonterminal. -/
def isAwaited (set : ItemSet N) (name : N) : Bool :=
  set.waiting.any fun (awaited, _) => awaited = name

/-- The items that have matched a nonterminal. -/
def completed (set : ItemSet N) (name : N) : List Item :=
  set.complete.filterMap fun (matched, item) => if matched = name then some item else none

end ItemSet

/-- The sets of the boundaries before the first token, before the second, and so
on. -/
abbrev Chart (N : Type) : Type :=
  Array (ItemSet N)

/-- A set in the making: which of its items have still to be handled, and which
items have moved over the next token. -/
structure Stage (N : Type) where
  set : ItemSet N
  agenda : List Item
  moved : List Item

namespace Stage

variable {N : Type}

/-- Note that an item is being handled. -/
def take (stage : Stage N) (item : Item) (others : List Item) : Stage N :=
  { stage with
    set := { stage.set with handled := item :: stage.set.handled }
    agenda := others }

/-- The set where an item began: an earlier one, or the one in the making. -/
def origin (stage : Stage N) (chart : Chart N) (item : Item) : ItemSet N :=
  chart[item.start]?.getD stage.set

end Stage

/-- The matches of a nonterminal over the tokens from `start` up to `stop`. -/
def Chart.spanning {N : Type} [DecidableEq N] (chart : Chart N) (name : N) (start stop : Nat) :
    List Item :=
  match chart[stop]? with
  | some set => (set.completed name).filter fun item => item.start = start
  | none => []

/-- Number of items in a chart. -/
def Chart.itemCount {N : Type} (chart : Chart N) : Nat :=
  chart.toList.foldr (fun set total => set.members.size + total) 0

/-- Why no derivation covers the tokens. -/
inductive Rejection where
  /-- No derivation can take the token at this index. -/
  | stuck (token : Nat)
  /-- All tokens can be taken, but the last one ends no derivation. -/
  | short
  deriving DecidableEq, Repr

namespace Grammar

variable {N T K : Type} [DecidableEq N]

/-- Whether the item is a completed match that its guard does not let stand. -/
def vetoes (grammar : Grammar N T K) (tokens : List K) (stop : Nat) (item : Item) : Bool :=
  match grammar.productions[item.production]? with
  | some production =>
      item.dot == production.rhs.length &&
        production.guard.any fun guard => !guard tokens item.start stop
  | none => false

/-- Put an item into the set at `stop`, unless it is there or vetoed. -/
def add (grammar : Grammar N T K) (tokens : List K) (stop : Nat) (stage : Stage N)
    (item : Item) : Stage N :=
  if stage.set.members.contains item || grammar.vetoes tokens stop item then
    stage
  else
    { stage with
      set := { stage.set with members := stage.set.members.insert item }
      agenda := item :: stage.agenda }

/-- Put several items into the set at `stop`. -/
def addAll (grammar : Grammar N T K) (tokens : List K) (stop : Nat) (stage : Stage N)
    (items : List Item) : Stage N :=
  items.foldl (grammar.add tokens stop) stage

/-- The items that start all productions of a nonterminal. -/
def predictions (grammar : Grammar N T K) (name : N) (start : Nat) : List Item :=
  (grammar.expansions name).map fun production => ⟨production, 0, start⟩

/-- Take the step that the dot of an item calls for. The chart holds the sets of
all earlier boundaries, and `next` is the token after this one. -/
def handle (grammar : Grammar N T K) (nullable : List N) (tokens : List K) (chart : Chart N)
    (next : Option K) (stage : Stage N) (item : Item) : Stage N :=
  let here := chart.size
  match grammar.productions[item.production]? with
  | none => stage
  | some production =>
      match production.rhs[item.dot]? with
      | none =>
          let parents := (stage.origin chart item).waitingFor production.lhs
          let stage := { stage with
            set := { stage.set with complete := (production.lhs, item) :: stage.set.complete } }
          grammar.addAll tokens here stage (parents.map Item.advance)
      | some (.nonterminal name) =>
          let isNew := !stage.set.isAwaited name
          let stage := { stage with
            set := { stage.set with waiting := (name, item) :: stage.set.waiting } }
          let stage :=
            if isNew then grammar.addAll tokens here stage (grammar.predictions name here)
            else stage
          if nullable.contains name then grammar.add tokens here stage item.advance else stage
      | some (.terminal expected) =>
          if next.any (grammar.accepts expected) then
            { stage with moved := item.advance :: stage.moved }
          else
            stage

/-- Handle items until none is left. Every item is handled once, so the number of
items the set can hold is fuel enough. -/
def drain (grammar : Grammar N T K) (nullable : List N) (tokens : List K) (chart : Chart N)
    (next : Option K) : (fuel : Nat) → Stage N → Stage N
  | 0, stage => stage
  | fuel + 1, stage =>
      match stage.agenda with
      | [] => stage
      | item :: others =>
          drain grammar nullable tokens chart next fuel
            (grammar.handle nullable tokens chart next (stage.take item others) item)

/-- A stage of the set at `stop` that holds some items, none of them handled. -/
def seed (grammar : Grammar N T K) (tokens : List K) (stop : Nat) (items : List Item) : Stage N :=
  grammar.addAll tokens stop ⟨.empty, [], []⟩ items

/-- The most items that the set of a boundary can hold. -/
def capacity (grammar : Grammar N T K) (boundary : Nat) : Nat :=
  grammar.positions * (boundary + 1)

/-- Close the set in the making, which follows those of the chart. -/
def close (grammar : Grammar N T K) (nullable : List N) (tokens : List K) (chart : Chart N)
    (next : Option K) (stage : Stage N) : Stage N :=
  grammar.drain nullable tokens chart next (grammar.capacity chart.size) stage

/-- Close the set in the making and, one after another, the sets behind each of
the tokens that are left. -/
def fill (grammar : Grammar N T K) (nullable : List N) (tokens : List K) :
    (left : List K) → Chart N → Stage N → Except Rejection (Chart N)
  | [], chart, stage => .ok (chart.push (grammar.close nullable tokens chart none stage).set)
  | token :: left, chart, stage =>
      let closed := grammar.close nullable tokens chart (some token) stage
      let next := grammar.seed tokens (chart.size + 1) closed.moved
      if next.agenda.isEmpty then .error (.stuck chart.size)
      else grammar.fill nullable tokens left (chart.push closed.set) next

/-- The chart of the tokens, provided the start symbol derives them. -/
def recognize (grammar : Grammar N T K) (start : N) (tokens : List K) :
    Except Rejection (Chart N) :=
  let first := grammar.seed tokens 0 (grammar.predictions start 0)
  match grammar.fill grammar.nullable tokens tokens #[] first with
  | .error rejection => .error rejection
  | .ok chart =>
      if (chart.spanning start 0 tokens.length).isEmpty then .error .short else .ok chart

end Grammar

end Krl

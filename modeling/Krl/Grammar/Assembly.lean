import Krl.Grammar.Semantics

/-!
# Assembling values from a chart

The one derivation of a text need not be written down to get its value. A walk over the
finished chart takes the start symbol apart, from the top down and from the right to the left,
and runs a reducer for each production once the values of its parts are there. Jobs wait on
one stack and values on another. All values are of one type, and nothing but their number is
known of those that a reducer is handed, so that the walk and the reducers can fail in ways
that no text should bring about.
-/

namespace Krl

/-- A production with the reducer that makes a value of the values of its parts. The reducer is
also told which bytes the phrase covers. -/
structure Assembling (N T K V : Type) (m : Type → Type) extends Production N T K where
  reduce : Span → List V → m V

/-- A grammar whose derivations are assembled to values of one type. -/
structure Assembly (N T K V : Type) (m : Type → Type) where
  productions : List (Assembling N T K V m)
  /-- Whether a token belongs to a class. -/
  accepts : T → K → Bool
  /-- The value that a token stands for. -/
  token : K → V
  /-- What becomes of a walk that the chart contradicts. -/
  internal : {α : Type} → String → m α
  /-- How errors name a nonterminal. -/
  label : N → String

/-- What is left to do in a walk. -/
inductive Job (N : Type) where
  /-- Take apart the phrase of a nonterminal over some tokens. -/
  | expand (name : N) (start stop : Nat)
  /-- Put the value of a token on the stack. -/
  | shift (token : Nat)
  /-- Replace the values of the parts of a production by what its reducer makes of them. -/
  | reduce (production start stop : Nat)
  deriving DecidableEq, Repr

/-- The stacks of a walk under way. The first job is next, and the first value is the latest. -/
structure Stacks (N V : Type) where
  jobs : List (Job N)
  values : List V
  answers : Answers

namespace Derivation

mutual

/-- The number of jobs that it takes to assemble the value of a derivation. -/
def steps : Derivation → Nat
  | .leaf _ => 1
  | .node _ _ _ children => stepsOf children + 2

/-- The number of jobs for several derivations. -/
def stepsOf : List Derivation → Nat
  | [] => 0
  | tree :: others => steps tree + stepsOf others

end

end Derivation

namespace Grammar

variable {N T K : Type} [DecidableEq N]

/-- Whether there is a way in which the symbols before the dot of an item derive the tokens up to
an index. Answers are kept, so that nothing is counted twice. -/
def isReadable (grammar : Grammar N T K) (chart : Chart N) (item : Item) (stop : Nat) :
    StateM Answers Bool := fun answers =>
  let (tally, answers) := grammar.tally chart (chart.itemCount + 1) item stop answers
  (tally.count != 0, answers)

/-- The first match of a nonterminal over some tokens that has a derivation. -/
def match? (grammar : Grammar N T K) (chart : Chart N) (name : N) (start stop : Nat) :
    StateM Answers (Option Item) :=
  (chart.spanning name start stop).findSomeM? fun item => do
    return if ← grammar.isReadable chart item stop then some item else none

/-- Where the parts of a way to take an item apart meet, if the last one is the match of a
nonterminal and both have a derivation. -/
def meeting? (grammar : Grammar N T K) (chart : Chart N) (stop : Nat) (split : Split) :
    StateM Answers (Option Nat) := do
  match split.child with
  | none => return none
  | some child =>
      if ← grammar.isReadable chart split.before split.middle then
        return if ← grammar.isReadable chart child stop then some split.middle else none
      else
        return none

/-- Where the last symbol of an item starts in the first way to take the item apart that has a
derivation. The symbol has to be a nonterminal. -/
def middle? (grammar : Grammar N T K) (chart : Chart N) (item : Item) (stop : Nat) :
    StateM Answers (Option Nat) :=
  (grammar.splits chart item stop).findSomeM? (grammar.meeting? chart stop)

end Grammar

namespace Assembly

variable {N T K V : Type} {m : Type → Type}

/-- The grammar without its reducers. -/
def grammar (assembly : Assembly N T K V m) : Grammar N T K where
  productions := assembly.productions.map Assembling.toProduction
  accepts := assembly.accepts

variable [DecidableEq N] [Monad m]

/-- Queue the parts of a match of a production, the last one first, so that the first one is
the next job. The symbols are those not queued yet, in reverse order. -/
def queue (assembly : Assembly N T K V m) (chart : Chart N) (production start : Nat) :
    (symbols : List (Symbol N T)) → (stop : Nat) → List (Job N) →
      StateT Answers m (List (Job N))
  | [], _, jobs => return jobs
  | .terminal _ :: others, stop, jobs =>
      match stop with
      | 0 => StateT.lift (assembly.internal "token before the input")
      | before + 1 => queue assembly chart production start others before (.shift before :: jobs)
  | .nonterminal name :: others, stop, jobs => do
      let item : Item := ⟨production, others.length + 1, start⟩
      match ← modifyGet (assembly.grammar.middle? chart item stop) with
      | some middle =>
          queue assembly chart production start others middle (.expand name middle stop :: jobs)
      | none =>
          StateT.lift (assembly.internal
            ("no split for " ++ assembly.label name ++ " before " ++ toString stop))

/-- Take the job that is next. The extents tell which bytes some tokens cover. -/
def step (assembly : Assembly N T K V m) (chart : Chart N) (tokens : List K)
    (extent : Nat → Nat → Span) (walk : Stacks N V) : Job N → m (Stacks N V)
  | .shift token =>
      match tokens[token]? with
      | some found => return { walk with values := assembly.token found :: walk.values }
      | none => assembly.internal "token behind the input"
  | .expand name start stop => do
      match assembly.grammar.match? chart name start stop walk.answers with
      | (none, _) => assembly.internal ("no derivation of " ++ assembly.label name)
      | (some item, answers) =>
          match assembly.productions[item.production]? with
          | none => assembly.internal "no such production"
          | some production =>
              let (jobs, answers) ← (assembly.queue chart item.production start
                production.rhs.reverse stop
                (.reduce item.production start stop :: walk.jobs)).run answers
              return { walk with jobs := jobs, answers := answers }
  | .reduce index start stop => do
      match assembly.productions[index]? with
      | none => assembly.internal "no such production"
      | some production =>
          let arity := production.rhs.length
          if walk.values.length < arity then
            assembly.internal "reducer is short of children"
          else
            let value ← production.reduce (extent start stop) (walk.values.take arity).reverse
            return { walk with values := value :: walk.values.drop arity }

/-- Take one job after another until none is left, which should leave one value. Each job
takes a unit of fuel. -/
def run (assembly : Assembly N T K V m) (chart : Chart N) (tokens : List K)
    (extent : Nat → Nat → Span) : (fuel : Nat) → Stacks N V → m V
  | 0, _ => assembly.internal "derivation without end"
  | fuel + 1, walk =>
      match walk.jobs with
      | [] =>
          match walk.values with
          | [value] => return value
          | _ => assembly.internal "derivation left stray values"
      | job :: jobs => do
          run assembly chart tokens extent fuel
            (← assembly.step chart tokens extent { walk with jobs := jobs } job)

/-- The value of the one derivation of the start symbol over all tokens. The derivation that
was counted tells how many jobs there are. -/
def build (assembly : Assembly N T K V m) (chart : Chart N) (tokens : List K)
    (extent : Nat → Nat → Span) (start : N) (tally : Tally) (answers : Answers) : m V :=
  assembly.run chart tokens extent (Derivation.stepsOf tally.sample + 1)
    ⟨[.expand start 0 tokens.length], [], answers⟩

mutual

/-- The fold of the reducers over a derivation. -/
def assemble (assembly : Assembly N T K V m) (tokens : List K) (extent : Nat → Nat → Span) :
    Derivation → m V
  | .leaf token =>
      match tokens[token]? with
      | some found => return assembly.token found
      | none => assembly.internal "token behind the input"
  | .node production start stop children => do
      let values ← assembleAll assembly tokens extent children
      match assembly.productions[production]? with
      | none => assembly.internal "no such production"
      | some found => found.reduce (extent start stop) values

/-- The values of several derivations, from the first to the last. -/
def assembleAll (assembly : Assembly N T K V m) (tokens : List K) (extent : Nat → Nat → Span) :
    List Derivation → m (List V)
  | [] => return []
  | tree :: others => do
      let value ← assemble assembly tokens extent tree
      return value :: (← assembleAll assembly tokens extent others)

end

end Assembly

end Krl

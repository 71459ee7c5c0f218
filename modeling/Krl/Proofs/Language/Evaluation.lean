import Krl.Proofs.Grammar.Judgement
import Krl.Proofs.Language.Placing

/-!
# What derivations evaluate to

The value of a derivation is what the action of a production makes of the values of the phrases
and the tokens on its right side. So a property holds of all values if every production makes
it hold, given that it holds of the parts. To see that a production does, its right side is
followed from symbol to symbol, and a state tells what the parts so far come to.
-/

namespace Krl

namespace Traced

variable {α β : Type}

/-- The value that a computation may end in. -/
def Yields (computation : Traced α) (value : α) : Prop :=
  ∃ trace traced, computation.outcomeFrom trace = (.ok value, traced)

theorem yields_of_fst {computation : Traced α} {value : α} {trace : List TraceEvent}
    (ends : (computation.outcomeFrom trace).1 = .ok value) : Yields computation value :=
  ⟨trace, (computation.outcomeFrom trace).2, Prod.ext ends rfl⟩

theorem yields_pure_iff {value result : α} :
    Yields (pure value) result ↔ value = result := by
  constructor
  · rintro ⟨trace, traced, same⟩
    cases same
    rfl
  · rintro rfl
    exact ⟨[], [], rfl⟩

theorem Yields.of_bind {computation : Traced α} {next : α → Traced β} {result : β}
    (yields : Yields (computation >>= next) result) :
    ∃ value, Yields computation value ∧ Yields (next value) result := by
  obtain ⟨trace, traced, same⟩ := yields
  rw [outcomeFrom_bind] at same
  split at same
  next value between found => exact ⟨value, ⟨trace, between, found⟩, between, traced, same⟩
  next => cases same

theorem Yields.of_map {computation : Traced α} {after : α → β} {result : β}
    (yields : Yields (after <$> computation) result) :
    ∃ value, Yields computation value ∧ after value = result := by
  rw [map_eq_pure_bind] at yields
  obtain ⟨value, first, rest⟩ := yields.of_bind
  exact ⟨value, first, yields_pure_iff.mp rest⟩

theorem Yields.congr {computation other : Traced α} {value : α} (yields : Yields computation value)
    (same : computation = other) : Yields other value :=
  same ▸ yields

theorem Yields.map {computation : Traced α} {value : α} (yields : Yields computation value)
    (after : α → β) : Yields (after <$> computation) (after value) := by
  obtain ⟨trace, traced, same⟩ := yields
  rw [map_eq_pure_bind]
  refine ⟨trace, traced, ?_⟩
  rw [outcomeFrom_bind, same]
  rfl

/-- The computation ends in the value, whatever was traced before. -/
def Settles (computation : Traced α) (value : α) : Prop :=
  ∀ trace, (computation.outcomeFrom trace).1 = .ok value

theorem settles_pure (value : α) : Settles (pure value) value :=
  fun _ => rfl

theorem Settles.congr {computation other : Traced α} {value : α}
    (settles : Settles computation value) (same : computation = other) : Settles other value :=
  same ▸ settles

theorem Settles.bind {computation : Traced α} {next : α → Traced β} {value : α} {result : β}
    (first : Settles computation value) (rest : Settles (next value) result) :
    Settles (computation >>= next) result := by
  intro trace
  have ends := first trace
  rw [outcomeFrom_bind]
  generalize computation.outcomeFrom trace = outcome at ends
  obtain ⟨_, traced⟩ := outcome
  cases ends
  exact rest traced

theorem Agrees.exists_of_yields {errors : ParseError → ParseError → Prop} {values : α → α → Prop}
    {computation other : Traced α} {value : α} (agrees : Agrees errors values computation other)
    (yields : Yields other value) (trace : List TraceEvent) :
    ∃ result, values result value ∧ (computation.outcomeFrom trace).1 = .ok result := by
  obtain ⟨trace', traced, same⟩ := yields
  have agree := agrees trace trace'
  rw [same] at agree
  generalize (computation.outcomeFrom trace).1 = outcome at agree ⊢
  cases agree with
  | ok same => exact ⟨_, same, rfl⟩

end Traced

/-- What is known of the value of a phrase over the tokens from one index up to another, and
of what the token at an index means. -/
structure Invariant where
  value : (name : Nonterminal) → (first last : Nat) → name.Value → Prop
  datum : (tokens : Terminal) → (index : Nat) → tokens.Datum → Prop

namespace Invariant

/-- A curried function comes to a result over the tokens from one index up to another, by
arguments of which the invariant holds. -/
inductive Supplies (invariant : Invariant) {Result : Type} :
    (symbols : List (Symbol Nonterminal Terminal)) → (first last : Nat) →
      Curried Nonterminal.Value Terminal.Datum symbols Result → Result → Prop where
  | nil {here : Nat} {result : Result} : Supplies invariant [] here here result result
  | nonterminal {name : Nonterminal} {others : List (Symbol Nonterminal Terminal)}
      {first middle last : Nat}
      {function : Curried Nonterminal.Value Terminal.Datum (.nonterminal name :: others) Result}
      {value : name.Value} {result : Result}
      (onward : first ≤ middle) (known : invariant.value name first middle value)
      (rest : Supplies invariant others middle last (function value) result) :
      Supplies invariant (.nonterminal name :: others) first last function result
  | terminal {tokens : Terminal} {others : List (Symbol Nonterminal Terminal)}
      {here last : Nat}
      {function : Curried Nonterminal.Value Terminal.Datum (.terminal tokens :: others) Result}
      {datum : tokens.Datum} {result : Result}
      (known : invariant.datum tokens here datum)
      (rest : Supplies invariant others (here + 1) last (function datum) result) :
      Supplies invariant (.terminal tokens :: others) here last function result

variable {invariant : Invariant}

theorem Supplies.le {Result : Type} {symbols : List (Symbol Nonterminal Terminal)}
    {first last : Nat} {function : Curried Nonterminal.Value Terminal.Datum symbols Result}
    {result : Result} (supplies : invariant.Supplies symbols first last function result) :
    first ≤ last := by
  induction supplies with
  | nil => exact Nat.le_refl _
  | nonterminal onward _ _ ih => exact Nat.le_trans onward ih
  | terminal _ _ ih => omega

section Derivations

variable {input : Input Leaf}
  (data : ∀ (index : Nat) (leaf : Leaf), input.tokens[index]? = some leaf → ∀ tokens datum,
    Terminal.read tokens leaf = some datum → invariant.datum tokens index datum)
  (made : ∀ entry ∈ language.reductions, ∀ first last tree computation value,
    language.grammar.IsDerivation input.tokens entry.lhs first last tree →
      Traced.Yields (language.evaluate input entry.lhs tree) value →
        invariant.Supplies entry.rhs first last
          (entry.action (language.spanBetween input first last)) computation →
            Traced.Yields computation value → invariant.value entry.lhs first last value)

include data made

/-- Derivations supply an action with arguments. The induction is on the derivations. -/
theorem exists_supplies {symbols : List (Symbol Nonterminal Terminal)} {start stop : Nat}
    {trees : List Derivation}
    (derived : language.grammar.Derives input.tokens symbols start stop trees) {Result : Type}
    {action : Curried Nonterminal.Value Terminal.Datum symbols (Traced Result)} {value : Result}
    (yields : Traced.Yields (language.apply input Result symbols action trees) value) :
    ∃ computation, invariant.Supplies symbols start stop action computation ∧
      Traced.Yields computation value := by
  induction derived generalizing Result with
  | nil => exact ⟨_, .nil, yields.congr (Language.apply_nil language action)⟩
  | @leaf expected others here stop siblings token found accepted rest ih =>
      obtain ⟨datum, read⟩ := Option.isSome_iff_exists.mp accepted
      have first : (input.tokens[here]?).bind (language.read expected) = some datum := by
        rw [found, Option.bind_some, read]
      obtain ⟨computation, supplies, yielded⟩ :=
        ih (yields.congr (Language.apply_leaf language first action))
      exact ⟨computation, .terminal (data here token found expected datum read) supplies, yielded⟩
  | @node index production others start middle stop children siblings listed admitted inner rest
      innerIh restIh =>
      obtain ⟨reduction, entry, rfl⟩ := Language.production_of_reduction listed
      obtain ⟨phrase, first, behind⟩ :=
        Traced.Yields.of_bind (yields.congr (Language.apply_node language action))
      obtain ⟨part, supplied, yieldedPart⟩ :=
        innerIh (first.congr (Language.evaluate_node entry input start middle children))
      obtain ⟨computation, supplies, yielded⟩ := restIh behind
      have known := made reduction (List.mem_of_getElem? entry) _ _ _ _ phrase
        (.node listed admitted inner .nil) first supplied yieldedPart
      exact ⟨computation, .nonterminal inner.le known supplies, yielded⟩

/-- An invariant that every production keeps holds of the value of a derivation. -/
theorem holds_evaluate {name : Nonterminal} {first last : Nat} {tree : Derivation}
    (derivation : language.grammar.IsDerivation input.tokens name first last tree)
    {value : name.Value} (yields : Traced.Yields (language.evaluate input name tree) value) :
    invariant.value name first last value := by
  let action : Curried Nonterminal.Value Terminal.Datum [.nonterminal name] (Traced name.Value) :=
    fun value => (pure value : Traced name.Value)
  have whole : language.apply input name.Value [.nonterminal name] action [tree] =
      language.evaluate input name tree :=
    (Language.apply_node language action).trans ((congrArg (Bind.bind _)
      (funext fun phrase => Language.apply_nil language _)).trans (bind_pure _))
  obtain ⟨computation, supplies, yielded⟩ :=
    exists_supplies data made derivation (yields.congr whole.symm)
  cases supplies with
  | nonterminal _ known rest =>
      cases rest
      cases Traced.yields_pure_iff.mp yielded
      exact known

end Derivations

end Invariant

section Threads

variable {State : Type} (phrase : (name : Nonterminal) → name.Value → State → State → Prop)
  (token : (tokens : Terminal) → tokens.Datum → State → State → Prop)

/-- Whatever states the arguments of a curried function lead to, one after another, the result
is as it should be in the last of them. -/
def Threads {Result : Type} (result : State → Result → Prop) :
    (symbols : List (Symbol Nonterminal Terminal)) → State →
      Curried Nonterminal.Value Terminal.Datum symbols Result → Prop
  | [], state, value => result state value
  | .nonterminal name :: others, state, function =>
      ∀ value next, phrase name value state next → Threads result others next (function value)
  | .terminal tokens :: others, state, function =>
      ∀ datum next, token tokens datum state next → Threads result others next (function datum)

variable {phrase token}

theorem threads_map_iff {Middle Result : Type} {result : State → Result → Prop}
    {after : Middle → Result} {symbols : List (Symbol Nonterminal Terminal)} {state : State}
    {function : Curried Nonterminal.Value Terminal.Datum symbols Middle} :
    Threads phrase token result symbols state (Curried.map after symbols function) ↔
      Threads phrase token (fun state value => result state (after value)) symbols state
        function := by
  induction symbols generalizing state with
  | nil => exact .rfl
  | cons symbol others ih =>
      cases symbol with
      | nonterminal name =>
          exact forall_congr' fun value => forall_congr' fun next => imp_congr_right fun _ => ih
      | terminal tokens =>
          exact forall_congr' fun datum => forall_congr' fun next => imp_congr_right fun _ => ih

/-- What the result depends on besides the arguments may be known from the start. -/
theorem threads_imp_iff {condition : Prop} {Result : Type} {result : State → Result → Prop}
    {symbols : List (Symbol Nonterminal Terminal)} {state : State}
    {function : Curried Nonterminal.Value Terminal.Datum symbols Result} :
    Threads phrase token (fun state value => condition → result state value) symbols state
        function ↔
      (condition → Threads phrase token result symbols state function) := by
  induction symbols generalizing state with
  | nil => exact .rfl
  | cons symbol others ih =>
      cases symbol with
      | nonterminal name =>
          refine (forall_congr' fun value => forall_congr' fun next =>
            imp_congr_right fun _ => ih).trans ?_
          exact ⟨fun known given value next led => known value next led given,
            fun known value next led given => known given value next led⟩
      | terminal tokens =>
          refine (forall_congr' fun datum => forall_congr' fun next =>
            imp_congr_right fun _ => ih).trans ?_
          exact ⟨fun known given datum next led => known datum next led given,
            fun known datum next led given => known given datum next led⟩

/-- A function is followed over the tokens that supply its arguments, if each of these leads
from states at its first token to states behind its last one. -/
theorem Invariant.Supplies.threads {invariant : Invariant} {reached : State → Nat → Prop}
    (phrases : ∀ name first last value state, invariant.value name first last value →
      reached state first → ∃ next, phrase name value state next ∧ reached next last)
    (tokens : ∀ tokens index datum state, invariant.datum tokens index datum →
      reached state index → ∃ next, token tokens datum state next ∧ reached next (index + 1))
    {Result : Type} {result : State → Result → Prop}
    {symbols : List (Symbol Nonterminal Terminal)} {first last : Nat}
    {function : Curried Nonterminal.Value Terminal.Datum symbols Result} {value : Result}
    (supplies : invariant.Supplies symbols first last function value) {state : State}
    (begins : reached state first)
    (threads : Threads phrase token result symbols state function) :
    ∃ final, reached final last ∧ result final value := by
  induction supplies generalizing state with
  | nil => exact ⟨state, begins, threads⟩
  | nonterminal _ known _ ih =>
      obtain ⟨next, led, arrived⟩ := phrases _ _ _ _ state known begins
      exact ih arrived (threads _ next led)
  | terminal known _ ih =>
      obtain ⟨next, led, arrived⟩ := tokens _ _ _ state known begins
      exact ih arrived (threads _ next led)

namespace Productions

/-- The values of a production are as they should be, whatever states its parts lead to. -/
def Makes (phrase : (name : Nonterminal) → name.Value → State → State → Prop)
    (token : (tokens : Terminal) → tokens.Datum → State → State → Prop) (initial : State)
    (made : (name : Nonterminal) → Span → State → name.Value → Prop) (entry : Entry) : Prop :=
  ∀ span, Threads phrase token
    (fun state computation => ∀ value, Traced.Yields computation value →
      made entry.lhs span state value)
    entry.rhs initial (entry.action span)

variable {initial : State} {made : (name : Nonterminal) → Span → State → name.Value → Prop}

theorem makes_rule_iff {lhs : Nonterminal} {rhs : List (Symbol Nonterminal Terminal)}
    {action : Span → Curried Nonterminal.Value Terminal.Datum rhs lhs.Value} :
    Makes phrase token initial made (rule lhs rhs action) ↔
      ∀ span, Threads phrase token (made lhs span) rhs initial (action span) := by
  refine forall_congr' fun span => threads_map_iff.trans ?_
  have same : ∀ (state : State) (value : lhs.Value),
      (∀ result, Traced.Yields (pure value) result → made lhs span state result) ↔
        made lhs span state value :=
    fun state value => by simp only [Traced.yields_pure_iff, forall_eq']
  exact iff_of_eq (congrArg (fun result => Threads phrase token result rhs initial (action span))
    (funext fun state => funext fun value => propext (same state value)))

theorem makes_same_iff {lhs name : Nonterminal} {value : name.Value → lhs.Value} :
    Makes phrase token initial made (same lhs name value) ↔
      ∀ span item next, phrase name item initial next → made lhs span next (value item) :=
  makes_rule_iff

theorem makes_guarded_iff {guard : Guard Leaf} {entry : Entry} :
    Makes phrase token initial made (guarded guard entry) ↔
      Makes phrase token initial made entry :=
  .rfl

/-- A template has its value from the token. -/
theorem makes_template_iff {lhs : Nonterminal} {value : Expr → lhs.Value} :
    Makes phrase token initial made (template lhs value) ↔
      ∀ span (parts : Traced Expr) next, token .chevron parts initial next →
        ∀ expr, Traced.Yields parts expr → made lhs span next (value expr) := by
  refine forall_congr' fun span => forall_congr' fun parts => forall_congr' fun next =>
    imp_congr_right fun _ => ?_
  constructor
  · intro every expr yields
    exact every _ (yields.map value)
  · intro every result yields
    obtain ⟨expr, yielded, rfl⟩ := yields.of_map
    exact every expr yielded

end Productions

end Threads

end Krl

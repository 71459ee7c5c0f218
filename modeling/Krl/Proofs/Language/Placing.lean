import Krl.Proofs.Grammar.Meaning
import Krl.Proofs.Language.Naturality

/-!
# Evaluation up to places

Two evaluations of a derivation agree when their values are equal after each has got
other offsets, and so are the errors that they end in. Evaluation asks for nothing but
this of the tokens and of the parts of templates.
-/

namespace Krl

/-- Both outcomes are values that are related, or errors that are. -/
inductive Agree {α : Type} (errors : ParseError → ParseError → Prop) (values : α → α → Prop) :
    Except ParseError α → Except ParseError α → Prop where
  | ok {value value' : α} (same : values value value') :
      Agree errors values (.ok value) (.ok value')
  | error {error error' : ParseError} (same : errors error error') :
      Agree errors values (.error error) (.error error')

theorem Agree.symm {α : Type} {errors : ParseError → ParseError → Prop} {values : α → α → Prop}
    {one other : Except ParseError α} (agree : Agree errors values one other) :
    Agree (Function.swap errors) (Function.swap values) other one := by
  cases agree with
  | ok same => exact .ok same
  | error same => exact .error same

namespace Traced

/-- The outcome of a computation that begins with a trace. -/
def outcomeFrom {α : Type} (computation : Traced α) (trace : List TraceEvent) :
    Except ParseError α × List TraceEvent :=
  Id.run (computation.run.run trace)

/-- Both computations have outcomes that agree, whatever was traced before. -/
def Agrees {α : Type} (errors : ParseError → ParseError → Prop) (values : α → α → Prop)
    (one other : Traced α) : Prop :=
  ∀ trace trace', Agree errors values (one.outcomeFrom trace).1 (other.outcomeFrom trace').1

variable {α β : Type} {errors : ParseError → ParseError → Prop} {values : α → α → Prop}
  {results : β → β → Prop}

theorem outcomeFrom_bind (computation : Traced α) (next : α → Traced β)
    (trace : List TraceEvent) :
    (computation >>= next).outcomeFrom trace =
      match computation.outcomeFrom trace with
      | (.ok value, traced) => (next value).outcomeFrom traced
      | (.error error, traced) => (.error error, traced) := by
  simp only [outcomeFrom, ExceptT.run_bind, StateT.run_bind, Id.run_bind]
  generalize (StateT.run (ExceptT.run computation) trace).run = before
  obtain ⟨outcome, traced⟩ := before
  cases outcome <;> rfl

theorem Agrees.symm {one other : Traced α} (agrees : Agrees errors values one other) :
    Agrees (Function.swap errors) (Function.swap values) other one :=
  fun trace trace' => (agrees trace' trace).symm

theorem Agrees.pure {value value' : α} (same : values value value') :
    Agrees errors values (pure value) (pure value') :=
  fun _ _ => .ok same

theorem Agrees.throw {error error' : ParseError} (same : errors error error') :
    Agrees errors values (throw error) (throw error') :=
  fun _ _ => .error same

theorem Agrees.bind {one other : Traced α} {next next' : α → Traced β}
    (first : Agrees errors values one other)
    (rest : ∀ value value', values value value' →
      Agrees errors results (next value) (next' value')) :
    Agrees errors results (one >>= next) (other >>= next') := by
  intro trace trace'
  have agree := first trace trace'
  rw [outcomeFrom_bind, outcomeFrom_bind]
  generalize one.outcomeFrom trace = before at agree
  generalize other.outcomeFrom trace' = before' at agree
  obtain ⟨outcome, traced⟩ := before
  obtain ⟨outcome', traced'⟩ := before'
  cases agree with
  | ok same => exact rest _ _ same traced traced'
  | error same => exact .error same

theorem Agrees.mono {errors' : ParseError → ParseError → Prop} {one other : Traced α}
    (agrees : Agrees errors values one other)
    (weaker : ∀ error error', errors error error' → errors' error error') :
    Agrees errors' values one other := by
  intro trace trace'
  have agree := agrees trace trace'
  generalize (one.outcomeFrom trace).1 = outcome at agree
  generalize (other.outcomeFrom trace').1 = outcome' at agree
  cases agree with
  | ok same => exact .ok same
  | error same => exact .error (weaker _ _ same)

theorem Agrees.log (event event' : TraceEvent) :
    Agrees errors (fun _ _ => True) (log event) (log event') :=
  fun _ _ => .ok trivial

theorem Agrees.map {one other : Traced α} (first : Agrees errors values one other)
    {after after' : α → β} (keeps : ∀ value value', values value value' →
      results (after value) (after' value')) :
    Agrees errors results (after <$> one) (after' <$> other) := by
  rw [map_eq_pure_bind, map_eq_pure_bind]
  exact first.bind fun value value' same => .pure (keeps value value' same)

end Traced

/-- Values that are equal after each has got other offsets. -/
def SamePlaced {α : Type} [HasPlaces α] (place place' : Nat → Nat) (one other : α) : Prop :=
  placed place one = placed place' other

/-- Data of tokens that are equal after each has got other offsets. Templates agree when
their values do. -/
def SameDatum (errors : ParseError → ParseError → Prop) (place place' : Nat → Nat) :
    (tokens : Terminal) → tokens.Datum → tokens.Datum → Prop
  | .chevron, one, other => Traced.Agrees errors (SamePlaced place place') one other
  | tokens, one, other => SamePlaced (α := tokens.Datum) place place' one other

/-- Evaluations that agree up to places. -/
def placing (errors : ParseError → ParseError → Prop) (place place' : Nat → Nat) :
    Correspondence (m := Traced) Nonterminal.Value Terminal.Datum where
  value name one other := SamePlaced (α := name.Value) place place' one other
  datum := SameDatum errors place place'
  span := SamePlaced place place'
  outcome values one other := Traced.Agrees errors values one other
  bind first rest := first.bind rest

namespace Productions

variable {errors : ParseError → ParseError → Prop} {place place' : Nat → Nat}

/-- What a curried function makes of parts that are equal up to places is equal up to
places as well, if the function keeps places. -/
theorem curried_of_keeps (errors : ParseError → ParseError → Prop) {Result : Type}
    [HasPlaces Result] {symbols : List (Symbol Nonterminal Terminal)}
    (plain : symbols.all isPlain = true)
    {one other both : Curried Nonterminal.Value Terminal.Datum symbols Result}
    (left : Keeps place symbols one both) (right : Keeps place' symbols other both) :
    (placing errors place place').Curried (SamePlaced place place') symbols one other := by
  induction symbols with
  | nil => exact left.trans right.symm
  | cons symbol others ih =>
      rw [List.all_cons, Bool.and_eq_true] at plain
      cases symbol with
      | nonterminal name =>
          intro value value' same
          have right := right value'
          rw [show placed place' value' = placed place value from same.symm] at right
          exact ih plain.2 (left value) right
      | terminal tokens =>
          intro datum datum' same
          have same : placed place datum = placed place' datum' := by
            cases tokens <;> first | exact same | cases plain.1
          have right := right datum'
          rw [show placed place' datum' = placed place datum from same.symm] at right
          exact ih plain.2 (left datum) right

theorem respects_of_natural (monotone : Monotone place) (monotone' : Monotone place')
    {entry : Entry} (natural : Natural entry) : (placing errors place place').Respects entry := by
  induction natural with
  | @rule lhs rhs action plain keeps =>
      intro span span' same
      have right := keeps place' monotone' span'
      rw [← show span.placed place = span'.placed place' from same] at right
      have curried := curried_of_keeps errors plain (keeps place monotone span) right
      exact curried.map fun _ _ same => .pure same
  | @template lhs value keeps =>
      intro span span' _ parts parts' agree
      refine Traced.Agrees.map agree fun expr expr' same => ?_
      have same : expr.placed place = expr'.placed place' := same
      show placed place (value expr) = placed place' (value expr')
      rw [keeps, keeps, same]
  | guarded _ _ ih => exact ih

/-- Evaluation of the language keeps values equal up to places. -/
theorem respects_language (errors : ParseError → ParseError → Prop) (monotone : Monotone place)
    (monotone' : Monotone place') :
    ∀ reduction ∈ language.reductions, (placing errors place place').Respects reduction :=
  fun reduction listed => respects_of_natural monotone monotone' (natural_of_mem reduction listed)

end Productions

end Krl

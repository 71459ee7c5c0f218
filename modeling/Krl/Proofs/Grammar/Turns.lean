import Krl.Proofs.Grammar.Recognition
import Mathlib.Algebra.GroupWithZero.Nat

/-!
# Working off the agenda

Closing a set takes one turn for each of its items. It does not matter which item of the agenda
is next: an item comes onto the agenda only when it comes into the set, so it has one turn at
most, and there are no more turns than items that can stand at the boundary. When the agenda
runs out, the set holds what is reached at the boundary, in whatever order that was found.
-/

namespace Krl

namespace Grammar

variable {N T K : Type}

/-- The number of positions is summed over the productions. -/
theorem positions_eq_sum (grammar : Grammar N T K) :
    grammar.positions =
      (grammar.productions.map fun production => production.rhs.length + 1).sum := by
  rw [positions, List.sum_eq_foldr, List.foldr_map]

/-- An item of the set is on the agenda or handled, and the set has no others. -/
theorem Orderly.size_eq {stage : Stage N} (orderly : Orderly stage) :
    stage.set.members.size = stage.agenda.length + stage.set.handled.length := by
  have distinct : stage.set.members.toList.Nodup := by
    apply stage.set.members.distinct_toList.imp
    intro one other differ same
    exact differ (Std.LawfulEqCmp.compare_eq_iff_eq.mpr same)
  have same : stage.set.members.toList.Perm (stage.agenda ++ stage.set.handled) := by
    rw [List.perm_ext_iff_of_nodup distinct orderly.distinct]
    intro item
    rw [Std.TreeSet.mem_toList, orderly.listed]
  rw [← Std.TreeSet.length_toList, same.length_eq, List.length_append]

variable [DecidableEq N]

/-- Items are taken off the agenda and handled, one after another and in any order. They are
listed, the last one first. -/
inductive Turns (grammar : Grammar N T K) (tokens : List K) (chart : Chart N) (next : Option K)
    (first : Stage N) : List Item → Stage N → Prop where
  | none : Turns grammar tokens chart next first [] first
  | turn {handled others : List Item} {stage : Stage N} {item : Item}
      (earlier : Turns grammar tokens chart next first handled stage)
      (chosen : stage.agenda.Perm (item :: others)) :
      Turns grammar tokens chart next first (item :: handled)
        (grammar.handle grammar.nullable tokens chart next (stage.take item others) item)

section Turns

variable {grammar : Grammar N T K} {tokens : List K} {start : N} {chart : Chart N}
  {next : Option K} {first last : Stage N} {handled : List Item}

/-- The items that have had a turn are the ones that are handled. -/
theorem Turns.handled_eq (turns : grammar.Turns tokens chart next first handled last) :
    last.set.handled = handled ++ first.set.handled := by
  induction turns with
  | none => rfl
  | @turn handled others stage item _ _ ih =>
      rw [handle_eq, handled_addAll, List.cons_append, ← ih]
      rfl

/-- Turns take nothing out of the set. -/
theorem Turns.grows (turns : grammar.Turns tokens chart next first handled last) :
    ∀ item ∈ first.set.members, item ∈ last.set.members := by
  induction turns with
  | none => exact fun _ member => member
  | turn _ _ ih =>
      intro other member
      rw [handle_eq]
      exact mem_addAll_iff.mpr (.inl (ih other member))

theorem Turns.progress (turns : grammar.Turns tokens chart next first handled last)
    (earlier : grammar.GatheredChart tokens start chart)
    (progress : grammar.Progress tokens start chart next first) :
    grammar.Progress tokens start chart next last := by
  induction turns with
  | none => exact progress
  | turn _ chosen ih => exact ih.handle earlier chosen

/-- Draining takes turns. -/
theorem Turns.drain (turns : grammar.Turns tokens chart next first handled last) (fuel : Nat) :
    ∃ more, grammar.Turns tokens chart next first more
      (grammar.drain grammar.nullable tokens chart next fuel last) := by
  induction fuel generalizing handled last with
  | zero => exact ⟨handled, turns⟩
  | succ fuel ih =>
      rw [Grammar.drain]
      split
      next => exact ⟨handled, turns⟩
      next item others agenda => exact ih (turns.turn (.of_eq agenda))

end Turns

/-- How the agenda of a stage is worked off, whichever item of it is handled next. -/
structure WorkedOff (grammar : Grammar N T K) (tokens : List K) (chart : Chart N)
    (next : Option K) (first : Stage N) : Prop where
  /-- No item is put into the set twice or handled twice, and what was put in is what is on
  the agenda or has been handled. -/
  once : ∀ handled last, grammar.Turns tokens chart next first handled last →
    (last.agenda ++ handled).Nodup ∧
      ∀ item, item ∈ last.set.members ↔ item ∈ last.agenda ++ handled
  /-- There are no more turns than items, and no more items than positions at this boundary
  and the ones before. -/
  bounded : ∀ handled last, grammar.Turns tokens chart next first handled last →
    handled.length ≤ last.set.members.size ∧
      last.set.members.size ≤
        (grammar.productions.map fun production => production.rhs.length + 1).sum *
          (chart.size + 1)
  /-- Closing the set takes turns until no item is left. -/
  closes : grammar.Turns tokens chart next first
      (grammar.close grammar.nullable tokens chart next first).set.handled
      (grammar.close grammar.nullable tokens chart next first) ∧
    (grammar.close grammar.nullable tokens chart next first).agenda = []
  /-- Whoever comes to the end of the agenda comes to the same set. -/
  same : ∀ handled last, grammar.Turns tokens chart next first handled last → last.agenda = [] →
    ∀ item, item ∈ last.set.members ↔
      item ∈ (grammar.close grammar.nullable tokens chart next first).set.members

section Opening

variable {grammar : Grammar N T K} {tokens : List K} {start : N}

/-- What turns come to when no item is left is what is reached at the boundary. -/
theorem Fresh.gathered_of_turns {chart : Chart N} {next : Option K} {first last : Stage N}
    {handled : List Item} (fresh : grammar.Fresh tokens start chart.size first)
    (earlier : grammar.GatheredChart tokens start chart)
    (turns : grammar.Turns tokens chart next first handled last) (finished : last.agenda = []) :
    grammar.Gathered tokens start last.set chart.size :=
  (turns.progress earlier (fresh.progress next)).gathered finished
    (fresh.seeded.mono turns.grows) earlier

theorem Fresh.workedOff {chart : Chart N} {first : Stage N}
    (fresh : grammar.Fresh tokens start chart.size first)
    (earlier : grammar.GatheredChart tokens start chart) (next : Option K) :
    grammar.WorkedOff tokens chart next first := by
  have enough := Nat.le_add_right (grammar.capacity chart.size) first.set.handled.length
  obtain ⟨_, finished, _⟩ := (fresh.progress next).drain earlier enough
  have begins : grammar.Turns tokens chart next first [] first := .none
  obtain ⟨closing, closes⟩ := begins.drain (grammar.capacity chart.size)
  have handled_eq {handled : List Item} {last : Stage N}
      (turns : grammar.Turns tokens chart next first handled last) :
      last.set.handled = handled := by
    rw [turns.handled_eq, fresh.unhandled, List.append_nil]
  constructor
  · intro handled last turns
    obtain ⟨distinct, listed⟩ := (turns.progress earlier (fresh.progress next)).orderly
    rw [handled_eq turns] at distinct listed
    exact ⟨distinct, fun item => (listed item).symm⟩
  · intro handled last turns
    have progress := turns.progress earlier (fresh.progress next)
    have most := progress.length_le
    rw [capacity, positions_eq_sum] at most
    rw [progress.orderly.size_eq, handled_eq turns] at *
    exact ⟨Nat.le_add_left _ _, most⟩
  · refine ⟨?_, finished⟩
    rw [Grammar.close, handled_eq closes]
    exact closes
  · intro handled last turns ended item
    have one := fresh.gathered_of_turns earlier turns ended
    have other := fresh.gathered_of_turns earlier closes finished
    exact (one.reaches_iff item).trans (other.reaches_iff item).symm

/-- The sets before a boundary, which are closed, and the stage in which the set of the
boundary is opened. -/
def opening (grammar : Grammar N T K) (start : N) (tokens : List K) : Nat → Chart N × Stage N
  | 0 => (#[], grammar.seed tokens 0 (grammar.predictions start 0))
  | here + 1 =>
      let (chart, stage) := opening grammar start tokens here
      let closed := grammar.close grammar.nullable tokens chart tokens[here]? stage
      (chart.push closed.set, grammar.seed tokens (here + 1) closed.moved)

theorem size_opening (here : Nat) : (grammar.opening start tokens here).1.size = here := by
  induction here with
  | zero => rfl
  | succ here ih => rw [opening, Array.size_push, ih]

/-- The sets before a boundary hold what is reached there, and the set of the boundary begins
with what the token before has moved. -/
theorem fresh_opening (grammar : Grammar N T K) (start : N) {tokens : List K} {here : Nat}
    (within : here ≤ tokens.length) :
    grammar.GatheredChart tokens start (grammar.opening start tokens here).1 ∧
      grammar.Fresh tokens start (grammar.opening start tokens here).1.size
        (grammar.opening start tokens here).2 := by
  induction here with
  | zero =>
      refine ⟨?_, fresh_first⟩
      intro here set found
      cases found
  | succ here ih =>
      obtain ⟨earlier, fresh⟩ := ih (Nat.le_of_succ_le within)
      have found : tokens[here]? = some tokens[here] := List.getElem?_eq_getElem within
      have closed := fresh.close earlier tokens[here]?
      refine ⟨earlier.push closed.gathered, ?_⟩
      rw [found, size_opening] at closed
      rw [size_opening, opening, found]
      exact closed.fresh found

/-- What an outcome has to do with the openings: the chart holds the sets that are closed behind
the last token, or no item is left behind the token that is blamed. -/
def Follows (grammar : Grammar N T K) (start : N) (tokens : List K) :
    Except Rejection (Chart N) → Prop
  | .ok chart => chart = (grammar.opening start tokens (tokens.length + 1)).1
  | .error (.stuck token) => (grammar.opening start tokens (token + 1)).2.agenda = []
  | .error .short => True

/-- To fill a chart is to close one opening after another. -/
theorem follows_fill {here : Nat} {left : List K} (rest : tokens.drop here = left)
    (within : here ≤ tokens.length) :
    grammar.Follows start tokens (grammar.fill grammar.nullable tokens left
      (grammar.opening start tokens here).1 (grammar.opening start tokens here).2) := by
  induction left generalizing here with
  | nil =>
      have atEnd := Nat.le_antisymm within (List.drop_eq_nil_iff.mp rest)
      rw [fill, Follows, ← atEnd, opening, List.getElem?_eq_none (Nat.le_of_eq atEnd.symm)]
  | cons token left ih =>
      obtain ⟨found, remaining⟩ := of_drop_eq_cons rest
      have later := ih remaining.symm (List.getElem?_eq_some_iff.mp found).1
      rw [opening, found] at later
      rw [fill, size_opening]
      split
      next empty =>
          rw [List.isEmpty_iff] at empty
          rw [Follows, opening, found]
          exact empty
      next => exact later

/-- Recognition closes one opening after another. -/
theorem follows_recognize (grammar : Grammar N T K) (start : N) (tokens : List K) :
    grammar.Follows start tokens (grammar.recognize start tokens) := by
  have filled : grammar.Follows start tokens (grammar.fill grammar.nullable tokens tokens #[]
      (grammar.seed tokens 0 (grammar.predictions start 0))) :=
    follows_fill List.drop_zero (Nat.zero_le _)
  rw [recognize]
  split
  next fails =>
      rw [fails] at filled
      exact filled
  next fills =>
      rw [fills] at filled
      split
      · trivial
      · exact filled

end Opening

end Grammar

end Krl

import Krl.Proofs.Syntax.Lists
import Krl.Syntax.Ruleset

/-!
# Groups of events and actions in a tree

Groups of events stand in what rules select, below any operators. Actions stand in the blocks of
rules and of definitions; the grammar has definitions among the global declarations and in the
preludes of rules only.
-/

namespace Krl

mutual

/-- The groups in an event, at any depth. -/
def Event.groups : Event → List Event
  | ⟨.expression _, _⟩ => []
  | ⟨.operator _ operands, _⟩ => eventsGroups operands
  | ⟨.any _ operands, _⟩ => eventsGroups operands
  | ⟨.group op times event, span⟩ => ⟨.group op times event, span⟩ :: event.groups

def eventsGroups : List Event → List Event
  | [] => []
  | event :: others => event.groups ++ eventsGroups others

end

@[simp] theorem eventsGroups_eq (events : List Event) :
    eventsGroups events = events.flatMap Event.groups :=
  eq_flatMap_of_cons rfl (fun _ _ => rfl) events

/-- The aggregator that a group of events has stored. -/
def Event.aggregator? : Event → Option EventAggregator
  | ⟨.group _ _ ⟨.expression value, _⟩, _⟩ => value.aggregator
  | _ => none

/-- The actions of a statement that defines one. -/
def Stmt.actions : Stmt → List Action
  | ⟨.defaction definition, _⟩ => definition.actionBlock.actions
  | _ => []

/-- The groups of events that a rule selects. -/
def Rule.groups (rule : Rule) : List Event :=
  rule.select.toList.flatMap fun select => select.event.groups

/-- The actions of a rule, and of what is defined in it. -/
def Rule.actions (rule : Rule) : List Action :=
  rule.prelude.flatMap Stmt.actions ++ rule.actionBlock.toList.flatMap ActionBlock.actions

/-- The groups of events that the rules of a ruleset select. -/
def Ruleset.groups (ruleset : Ruleset) : List Event :=
  ruleset.rules.flatMap Rule.groups

/-- The actions of a ruleset. -/
def Ruleset.actions (ruleset : Ruleset) : List Action :=
  ruleset.globals.flatMap Stmt.actions ++ ruleset.rules.flatMap Rule.actions

/-- The groups of events in a program. -/
def Program.groups : Program → List Event
  | ruleset value => value.groups
  | statements _ => []

/-- The actions in a program. -/
def Program.actions : Program → List Action
  | ruleset value => value.actions
  | statements _ => []

end Krl

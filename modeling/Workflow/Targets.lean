import Workflow.Machine
import Workflow.Verdict

/-!
# Targets

The states that a state may hand control to, and the check that each of them is declared in the same
scope. Branches are scopes of their own: they cannot name states around them.
-/

namespace Workflow

namespace State

/-- All targets of a state. A Choice state may hand control to the targets of its rules and then to
its default; the other kinds to the target of their transition and then, if they have catchers, to
those of the catchers. -/
def targets : State → List String
  | .pass s => s.transition.toList.filterMap Transition.target?
  | .wait s => s.transition.toList.filterMap Transition.target?
  | .task s =>
    s.transition.toList.filterMap Transition.target? ++ s.catchers.filterMap Catcher.next
  | .parallel s =>
    s.transition.toList.filterMap Transition.target? ++ s.catchers.filterMap Catcher.next
  | .choice s => s.rules.filterMap ChoiceRule.next ++ s.defaultState.toList
  | .succeed _ | .fail _ => []

end State

namespace Targets

/-- The targets of one state. -/
def checkEntry (location : Location) (declared : States) (e : Entry) : Verdict :=
  match e.state.targets.find? fun target => !declared.contains target with
  | some target => .reject (location.state e.name) (.unknownTarget target)
  | none => .accept

/-- The state to start at. A scope without one is not at fault here. -/
def checkStart (location : Location) (m : Machine) : Verdict :=
  match m.startAt with
  | some name => .require (States.contains m.states name) location (.unknownTarget name)
  | none => .accept

/-- The start of a scope, reported at the scope itself, then the targets of its states, each
reported at its state. -/
def check (location : Location) (m : Machine) : Verdict := do
  checkStart location m
  Verdict.each (checkEntry location m.states) m.states

end Targets

end Workflow

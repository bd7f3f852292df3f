import Workflow.Graph
import Workflow.Settings.Basic

/-!
# Termination and reachability

Which way a Choice state goes is not known before a run, so a scope passes as soon as some way from
its start leads to a terminal state; circles are no fault as long as a way leads out of them. States
that no way from the start leads to, errors included, are reported on request.
-/

namespace Workflow

namespace Termination

/-- The node of the state to start at. -/
def start? (m : Machine) : Option Nat := m.startAt.bind (States.index? m.states)

/-- How many states of a scope can reach its end; nothing if its start is not declared. -/
def count? (m : Machine) : Option Nat :=
  (start? m).map fun _ =>
    let g := Graph.ofStates m.states
    (g.marks g.terminating).count true

/-- The state to report for a scope that cannot end, and how. -/
def problemAt (style : Diagnostics) (g : Graph) (start : Nat) : Nat × Problem :=
  match style with
  | .unified => (start, .noTerminalPath)
  | .split =>
    match g.cycleHead? start with
    | some v => (v, .cycle)
    | none => (start, .noTerminalPath)

/-- The start of a scope can reach a terminal state. A scope whose start is not declared is not at
fault here. -/
def check (style : Diagnostics) (location : Location) (m : Machine) : Verdict :=
  match start? m with
  | none => .accept
  | some start =>
    let g := Graph.ofStates m.states
    if start ∈ g.terminating then .accept
    else
      let (v, problem) := problemAt style g start
      .reject (location.state (g.name v)) problem

/-- The names of the states that cannot be reached from the start, in the order of declaration. A
state that only catches errors can be reached. -/
def unreachable (m : Machine) : List String :=
  match start? m with
  | none => []
  | some start =>
    let g := Graph.ofStates m.states
    let reached := g.reachable start true
    ((List.range g.size).filter fun v => v ∉ reached).map g.name

/-- Every state can be reached; the first one that cannot is reported. -/
def checkReachable (location : Location) (m : Machine) : Verdict :=
  match unreachable m with
  | name :: _ => .reject (location.state name) .unreachable
  | [] => .accept

end Termination

end Workflow

import Workflow.Event
import Workflow.Fields
import Workflow.StatePaths
import Workflow.Termination

/-!
# Validation

A definition is validated scope by scope, the branches of a Parallel state inside the scope that it
belongs to. Each scope goes through the same checks in the same order: nesting depth, its own
fields, the fields of its states, their paths, their targets, its branches, termination, and on
request reachability. The first violation ends the validation.

A run is the verdict together with the events up to it.
-/

namespace Workflow

/-- A verdict and the events on the way to it. -/
structure Run where
  log : List Event
  verdict : Verdict

namespace Run

/-- A check without events. -/
def silent (v : Verdict) : Run := ⟨[], v⟩

/-- An event. -/
def report (e : Event) : Run := ⟨[e], .accept⟩

/-- Goes on with the next run if this one accepts. -/
def andThen (r : Run) (next : Unit → Run) : Run :=
  match r.verdict with
  | .ok () =>
    let rest := next ()
    ⟨r.log ++ rest.log, rest.verdict⟩
  | .error _ => r

instance : AndThen Run := ⟨andThen⟩

/-- The verdict of two runs is that of their checks one after the other. -/
theorem verdict_seq (r s : Run) : (r >> s).verdict = r.verdict >>= fun _ => s.verdict := by
  change (r.andThen fun _ => s).verdict = _
  rw [andThen]
  cases h : r.verdict with
  | ok u => rfl
  | error v => exact h

/-- The events of two runs are those of both, or of the first alone if it rejects. -/
theorem log_seq (r s : Run) :
    (r >> s).log = r.log ++ if r.verdict.isOk then s.log else [] := by
  change (r.andThen fun _ => s).log = _
  rw [andThen]
  cases r.verdict with
  | ok u => simp [Except.isOk, Except.toBool]
  | error v => simp [Except.isOk, Except.toBool]

end Run

namespace Validation

/-- The nesting depth of a scope is within its limit, if there is one. -/
def checkDepth (settings : Settings) (location : Location) (depth : Nat) : Verdict :=
  .require (!settings.limitsNesting || depth ≤ settings.maxNestingDepth) location
    (.nestingTooDeep depth settings.maxNestingDepth)

/-- The checks of a scope before its branches. -/
def enter (settings : Settings) (location : Location) (depth : Nat) (m : Machine) : Run :=
  .silent (checkDepth settings location depth)
    >> .report (.entered location depth)
    >> .silent (Fields.checkScope location m)
    >> .silent (Fields.checkStates location m.states)
    >> .silent (StatePaths.checkStates location m.states)
    >> .silent (Targets.check location m)

/-- How many states of a scope can reach its end, if its start is declared. -/
def measure (location : Location) (m : Machine) : Run :=
  match Termination.count? m with
  | some count => .report (.measured location count m.states.length)
  | none => .silent .accept

/-- The checks of a scope after its branches. -/
def leave (settings : Settings) (location : Location) (m : Machine) : Run :=
  measure location m
    >> .silent (Termination.check settings.diagnostics location m)
    >> .silent
      (if settings.rejectUnreachableStates then Termination.checkReachable location m else .accept)

mutual

/-- Validates a scope and all scopes inside it. -/
def runScope (settings : Settings) (location : Location) (depth : Nat) : Machine → Run
  | m@{ states, .. } =>
    enter settings location depth m
      >> runStates settings location depth states
      >> leave settings location m

/-- Validates the branches of the states of a scope, in the order of declaration. -/
def runStates (settings : Settings) (location : Location) (depth : Nat) : List Entry → Run
  | [] => .silent .accept
  | { name, state := .parallel { branches, .. } } :: rest =>
    runBranches settings (location.state name) depth 0 branches
      >> runStates settings location depth rest
  | _ :: rest => runStates settings location depth rest

/-- Validates branches, the first of which has the given index, one level deeper than the scope that
they belong to. -/
def runBranches (settings : Settings) (location : Location) (depth index : Nat) : List Branch → Run
  | [] => .silent .accept
  | { machine, .. } :: rest =>
    runScope settings (location.branch index) (depth + 1) machine
      >> runBranches settings location depth (index + 1) rest

end

theorem runScope_eq (settings : Settings) (location : Location) (depth : Nat) (m : Machine) :
    runScope settings location depth m =
      (enter settings location depth m
        >> runStates settings location depth m.states
        >> leave settings location m) := by
  cases m
  rfl

theorem runStates_cons (settings : Settings) (location : Location) (depth : Nat) (e : Entry)
    (rest : List Entry) :
    runStates settings location depth (e :: rest) =
      (runBranches settings (location.state e.name) depth 0 e.state.branches
        >> runStates settings location depth rest) := by
  obtain ⟨name, state⟩ := e
  cases state with
  | parallel s => cases s; rfl
  | _ => rfl

theorem runBranches_cons (settings : Settings) (location : Location) (depth index : Nat)
    (b : Branch) (rest : List Branch) :
    runBranches settings location depth index (b :: rest) =
      (runScope settings (location.branch index) (depth + 1) b.machine
        >> runBranches settings location depth (index + 1) rest) := by
  cases b
  rfl

/-- The event that ends a validation. -/
def closing (m : Machine) : Verdict → Event
  | .ok () => .accepted m.states.length
  | .error v => .rejected v

/-- Validates a definition, with its events. -/
def run (settings : Settings) (m : Machine) : Run :=
  let r := runScope settings .root 0 m
  ⟨r.log ++ [closing m r.verdict], r.verdict⟩

end Validation

/-- The verdict on a definition. -/
def validate (settings : Settings) (m : Machine) : Verdict := (Validation.run settings m).verdict

end Workflow

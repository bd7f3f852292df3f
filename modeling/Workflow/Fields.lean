import Workflow.Machine
import Workflow.Verdict

/-!
# Field checks

Checks that look at one element only: that required values are there and not empty, that numbers are
in range, and that retriers, catchers and conditions are well formed in themselves. The states of a
branch are not looked at here; a branch is a scope of its own.
-/

namespace Workflow

namespace Fields

/-- A text that must be there and not be empty. -/
def requireText (location : Location) (field : Field) (value : Option String) : Verdict :=
  .require (value.any fun s => !s.isEmpty) location (.missing field)

/-- A number that must be positive if it is there. -/
def requirePositive (location : Location) (field : Field) (value : Option Int) : Verdict :=
  match value with
  | some v => .require (0 < v) location (.outOfRange (.notPositive field v))
  | none => .accept

/-- A transition that must be there and name its target. -/
def checkTransition (location : Location) : Option Transition → Verdict
  | none => .reject location (.missing .transition)
  | some (.next name) => requireText location .next (some name)
  | some .finish => .accept

/-- Whether the codes are the list that matches every error. -/
def isMatchAllList (codes : List String) : Bool := codes == [ErrorCode.all]

/-- A list of error codes: not empty, and the code that matches every error only on its own. -/
def checkCodes (location : Location) (codes : List String) : Verdict := do
  Verdict.require (!codes.isEmpty) location (.badCodes .empty)
  Verdict.require (codes.length == 1 || !codes.any ErrorCode.isMatchAll) location
    (.badCodes .matchAllNotAlone)

/-- A list of retriers or of catchers. Each element passes its own check and has well-formed codes;
one that follows a match-all list is reported for that alone. `place` gives the location of the
element of an index, and `afterAll` says whether the element before matches everything. -/
def checkPolicies {α : Type} (place : Nat → Location) (notLast : CodesFault)
    (codes : α → List String) (check : Location → α → Verdict) (index : Nat) (afterAll : Bool) :
    List α → Verdict
  | [] => .accept
  | policy :: rest => do
    Verdict.require (!afterAll) (place index) (.badCodes notLast)
    check (place index) policy
    checkCodes (place index) (codes policy)
    checkPolicies place notLast codes check (index + 1) (isMatchAllList (codes policy)) rest

/-- A number of attempts, of which none at all is allowed. -/
def checkAttempts (location : Location) : Option Int → Verdict
  | some attempts => .require (0 ≤ attempts) location (.outOfRange (.negativeAttempts attempts))
  | none => .accept

/-- A rate at which the interval grows and does not shrink. -/
def checkRate (location : Location) : Option Double → Verdict
  | some rate => .require rate.atLeastOne location (.outOfRange (.rateBelowOne rate))
  | none => .accept

/-- The numbers of a retrier. -/
def checkRetrier (location : Location) (r : Retrier) : Verdict := do
  checkAttempts location r.maxAttempts
  requirePositive location .intervalSeconds r.intervalSeconds
  checkRate location r.backoffRate

/-- The retriers of a state, each at its index. -/
def checkRetriers (location : Location) (retriers : List Retrier) : Verdict :=
  checkPolicies location.retrier .matchAllNotLastRetrier Retrier.errorEquals checkRetrier 0 false
    retriers

/-- The target of a catcher. -/
def checkCatcher (location : Location) (c : Catcher) : Verdict :=
  requireText location .next c.next

/-- The catchers of a state, each at its index. -/
def checkCatchers (location : Location) (catchers : List Catcher) : Verdict :=
  checkPolicies location.catcher .matchAllNotLastCatcher Catcher.errorEquals checkCatcher 0 false
    catchers

/-- A comparison has a path to look at and something to expect, which JSON null is not. -/
def checkComparison (location : Location) (c : Comparison) : Verdict := do
  requireText location .subject c.subject
  Verdict.require (c.expected.any fun value => !value.isNull) location (.missing .expectedValue)

mutual

/-- A condition tree: every conjunction and disjunction has members, every negation has a condition,
and every comparison is complete. -/
def checkCondition (location : Location) : Condition → Verdict
  | .comparison test => checkComparison location test
  | .all conditions => do
    Verdict.require (!conditions.isEmpty) location (.missing .conditions)
    checkConditions location conditions
  | .any conditions => do
    Verdict.require (!conditions.isEmpty) location (.missing .conditions)
    checkConditions location conditions
  | .negation condition => checkGivenCondition location condition

/-- The members of a conjunction or disjunction, in order. -/
def checkConditions (location : Location) : List Condition → Verdict
  | [] => .accept
  | c :: cs => do
    checkCondition location c
    checkConditions location cs

/-- A condition that must be there. -/
def checkGivenCondition (location : Location) : Option Condition → Verdict
  | none => .reject location (.missing .condition)
  | some c => checkCondition location c

end

/-- A rule names a state to go to and has a condition. -/
def checkRule (location : Location) (rule : ChoiceRule) : Verdict := do
  requireText location .next rule.next
  checkGivenCondition location rule.condition

/-- A heartbeat that is due within the timeout, where both are given. -/
def checkHeartbeat (location : Location) : (timeout heartbeat : Option Int) → Verdict
  | some timeout, some heartbeat =>
    .require (heartbeat ≤ timeout) location (.outOfRange (.heartbeatAboveTimeout heartbeat timeout))
  | _, _ => .accept

/-- The fields of a Task state. -/
def checkTask (location : Location) (s : TaskState) : Verdict := do
  requirePositive location .timeoutSeconds s.timeoutSeconds
  requirePositive location .heartbeatSeconds s.heartbeatSeconds
  checkHeartbeat location s.timeoutSeconds s.heartbeatSeconds
  requireText location .resource s.resource
  checkRetriers location s.retriers
  checkCatchers location s.catchers
  checkTransition location s.transition

/-- What a Wait state waits for. -/
def checkWaitFor (location : Location) : Option WaitFor → Verdict
  | none => .reject location (.missing .waitFor)
  | some (.seconds count) => requirePositive location .seconds (some count)
  | some (.secondsPath path) => requireText location .secondsPath (some path)
  | some (.timestamp none) => .reject location (.missing .timestamp)
  | some (.timestamp (some _)) => .accept
  | some (.timestampPath path) => requireText location .timestampPath (some path)

/-- The fields of a Wait state. -/
def checkWait (location : Location) (s : WaitState) : Verdict := do
  checkWaitFor location s.waitFor
  checkTransition location s.transition

/-- A default state that is named if it is given. -/
def checkDefault (location : Location) : Option String → Verdict
  | some name => requireText location .default (some name)
  | none => .accept

/-- The fields of a Choice state, each rule at its index. -/
def checkChoice (location : Location) (s : ChoiceState) : Verdict := do
  Verdict.require (!s.rules.isEmpty) location .noRules
  checkDefault location s.defaultState
  Verdict.eachFrom (fun i rule => checkRule (location.choice i) rule) 0 s.rules

/-- The fields of a Parallel state itself. -/
def checkParallel (location : Location) (s : ParallelState) : Verdict := do
  Verdict.require (!s.branches.isEmpty) location .noBranches
  checkRetriers location s.retriers
  checkCatchers location s.catchers
  checkTransition location s.transition

/-- The fields of a state. -/
def checkState (location : Location) : State → Verdict
  | .pass s => checkTransition location s.transition
  | .task s => checkTask location s
  | .wait s => checkWait location s
  | .choice s => checkChoice location s
  | .succeed _ => .accept
  | .fail s => requireText location .cause s.cause
  | .parallel s => checkParallel location s

/-- The names declared in a scope, in order: none empty, and none that stands in `seen` or twice. -/
def checkNames (location : Location) (seen : List String) : List String → Verdict
  | [] => .accept
  | name :: rest => do
    Verdict.require (!name.isEmpty) location (.missing .stateName)
    Verdict.require (name ∉ seen) (location.state name) (.duplicateName name)
    checkNames location (name :: seen) rest

/-- The fields of a scope itself. -/
def checkScope (location : Location) (m : Machine) : Verdict := do
  requireText location .startAt m.startAt
  requirePositive location .timeoutSeconds m.timeoutSeconds
  Verdict.require (!m.states.isEmpty) location (.missing .states)
  checkNames location [] (States.names m.states)

/-- The fields of all states of a scope, in the order of their declaration. -/
def checkStates (location : Location) (states : States) : Verdict :=
  Verdict.each (fun e => checkState (location.state e.name) e.state) states

end Fields

end Workflow

import Workflow.Proofs.CarriedPaths
import Workflow.Proofs.FieldRules
import Workflow.Proofs.Walk
import Workflow.Settings.Basic

/-!
# Elements and their problems

A location is a list of steps; the element that it stands for is found by
taking them one by one through the definition (`Element.locate`). What it means
that an element has a problem is said here for each problem that a diagnostic
can report, in terms of the element and what it lies in. No check is mentioned
but that of a path, whose fault is part of the problem: whether the checks tell
the truth is the matter of `Diagnosis.lean`.
-/

namespace Workflow

/-- Whether the step enters a branch, and so another scope. -/
def Step.isBranch : Step → Bool
  | .branch _ => true
  | .state _ | .choice _ | .retrier _ | .catcher _ => false

/-- An element that a location may stand for, with what its rules refer to. -/
inductive Element where
  | scope (m : Machine)
  | state (m : Machine) (name : String) (s : State)
  | rule (rule : ChoiceRule)
  | retrier (s : State) (index : Nat) (r : Retrier)
  | catcher (s : State) (index : Nat) (c : Catcher)

namespace Element

/-- The element one step further in, if there is one. -/
def child : Element → Step → Option Element
  | .scope m, .state name => (States.get? m.states name).map (.state m name)
  | .state _ _ s, .branch i => (s.branches[i]?).map fun b => .scope b.machine
  | .state _ _ s, .choice i => (s.rules[i]?).map .rule
  | .state _ _ s, .retrier i => (s.retriers[i]?).map (.retrier s i)
  | .state _ _ s, .catcher i => (s.catchers[i]?).map (.catcher s i)
  | _, _ => none

/-- The element at the end of steps from an element. -/
def locate (e : Element) (steps : List Step) : Option Element :=
  steps.foldlM child e

variable {m : Machine} {name : String} {s : State} {i : Nat}

theorem child_branch {b : Branch} (h : s.branches[i]? = some b) :
    (state m name s).child (.branch i) = some (.scope b.machine) := by
  rw [child, h]
  rfl

theorem child_choice {r : ChoiceRule} (h : s.rules[i]? = some r) :
    (state m name s).child (.choice i) = some (.rule r) := by
  rw [child, h]
  rfl

theorem child_retrier {r : Retrier} (h : s.retriers[i]? = some r) :
    (state m name s).child (.retrier i) = some (.retrier s i r) := by
  rw [child, h]
  rfl

theorem child_catcher {c : Catcher} (h : s.catchers[i]? = some c) :
    (state m name s).child (.catcher i) = some (.catcher s i c) := by
  rw [child, h]
  rfl

theorem locate_cons {e inner : Element} {step : Step} {steps : List Step}
    (h : e.child step = some inner) :
    e.locate (step :: steps) = inner.locate steps := by
  rw [locate, List.foldlM_cons, h]
  rfl

end Element

/-- The element of a definition that a location stands for. -/
def Machine.locate (m : Machine) (l : Location) : Option Element :=
  (Element.scope m).locate l.steps

/-! ## Missing values -/

/-- A part of a condition is incomplete in itself. -/
inductive Condition.Incomplete : Condition → Field → Prop where
  | subject {test : Comparison} :
      ¬ Given test.subject → Incomplete (.comparison test) .subject
  | expectedValue {test : Comparison} :
      (∀ value, test.expected = some value → value.isNull = true) →
        Incomplete (.comparison test) .expectedValue
  | allConditions : Incomplete (.all []) .conditions
  | anyConditions : Incomplete (.any []) .conditions
  | condition : Incomplete (.negation none) .condition

/-- A field of the state is absent or empty, and the state needs it. -/
inductive State.Lacks : State → Field → Prop where
  | resource {s : TaskState} :
      ¬ Given s.resource → Lacks (.task s) .resource
  | waitFor {s : WaitState} : s.waitFor = none → Lacks (.wait s) .waitFor
  | secondsPath {s : WaitState} :
      s.waitFor = some (.secondsPath "") → Lacks (.wait s) .secondsPath
  | timestamp {s : WaitState} :
      s.waitFor = some (.timestamp none) → Lacks (.wait s) .timestamp
  | timestampPath {s : WaitState} :
      s.waitFor = some (.timestampPath "") → Lacks (.wait s) .timestampPath
  | default {s : ChoiceState} :
      s.defaultState = some "" → Lacks (.choice s) .default
  | cause {s : FailState} : ¬ Given s.cause → Lacks (.fail s) .cause
  | transition {s : State} :
      s.kind = .pass ∨ s.kind = .task ∨ s.kind = .wait ∨ s.kind = .parallel →
        s.transition = none → Lacks s .transition
  | next {s : State} : s.transition = some (.next "") → Lacks s .next

/-- A field of the element is absent or empty, and the element needs it. A
rule answers for its condition with all parts of it. -/
inductive Element.Lacks : Element → Field → Prop where
  | startAt {m : Machine} : ¬ Given m.startAt → Lacks (.scope m) .startAt
  | states {m : Machine} : m.states = [] → Lacks (.scope m) .states
  | stateName {m : Machine} :
      "" ∈ States.names m.states → Lacks (.scope m) .stateName
  | state {m : Machine} {name : String} {s : State} {field : Field} :
      s.Lacks field → Lacks (.state m name s) field
  | ruleNext {rule : ChoiceRule} :
      ¬ Given rule.next → Lacks (.rule rule) .next
  | ruleCondition {rule : ChoiceRule} :
      rule.condition = none → Lacks (.rule rule) .condition
  | conditionPart {rule : ChoiceRule} {c part : Condition} {field : Field} :
      rule.condition = some c → Condition.PartOf part c →
        part.Incomplete field → Lacks (.rule rule) field
  | catcherNext {s : State} {i : Nat} {c : Catcher} :
      ¬ Given c.next → Lacks (.catcher s i c) .next

/-! ## Numbers out of range -/

/-- A number of a retrier is out of its range. -/
inductive Retrier.OutOfRange (r : Retrier) : RangeFault → Prop where
  | maxAttempts {v : Int} :
      r.maxAttempts = some v → v < 0 → r.OutOfRange (.negativeAttempts v)
  | intervalSeconds {v : Int} :
      r.intervalSeconds = some v → v ≤ 0 →
        r.OutOfRange (.notPositive .intervalSeconds v)
  | backoffRate {x : Double} :
      r.backoffRate = some x → ¬ x.AtLeastOne →
        r.OutOfRange (.rateBelowOne x)

/-- A number of a state is out of its range. -/
inductive State.OutOfRange : State → RangeFault → Prop where
  | timeoutSeconds {s : TaskState} {v : Int} :
      s.timeoutSeconds = some v → v ≤ 0 →
        OutOfRange (.task s) (.notPositive .timeoutSeconds v)
  | heartbeatSeconds {s : TaskState} {v : Int} :
      s.heartbeatSeconds = some v → v ≤ 0 →
        OutOfRange (.task s) (.notPositive .heartbeatSeconds v)
  | heartbeatAboveTimeout {s : TaskState} {heartbeat timeout : Int} :
      s.heartbeatSeconds = some heartbeat → s.timeoutSeconds = some timeout →
        timeout < heartbeat →
          OutOfRange (.task s) (.heartbeatAboveTimeout heartbeat timeout)
  | seconds {s : WaitState} {v : Int} :
      s.waitFor = some (.seconds v) → v ≤ 0 →
        OutOfRange (.wait s) (.notPositive .seconds v)

/-- A number of the element is out of its range; the fault names its field and
the number. -/
inductive Element.OutOfRange : Element → RangeFault → Prop where
  | timeoutSeconds {m : Machine} {v : Int} :
      m.timeoutSeconds = some v → v ≤ 0 →
        OutOfRange (.scope m) (.notPositive .timeoutSeconds v)
  | state {m : Machine} {name : String} {s : State} {fault : RangeFault} :
      s.OutOfRange fault → OutOfRange (.state m name s) fault
  | retrier {s : State} {i : Nat} {r : Retrier} {fault : RangeFault} :
      r.OutOfRange fault → OutOfRange (.retrier s i r) fault

/-! ## Error codes -/

/-- A list of error codes is at fault in itself. -/
inductive BadCodes (codes : List String) : CodesFault → Prop where
  | empty : codes = [] → BadCodes codes .empty
  | notAlone : ErrorCode.all ∈ codes → codes ≠ [ErrorCode.all] →
      BadCodes codes .matchAllNotAlone

/-- The policy right before the given index matches every error. -/
def AfterMatchAll {α : Type} (codes : α → List String) (policies : List α)
    (index : Nat) : Prop :=
  ∃ j before, index = j + 1 ∧ policies[j]? = some before ∧
    codes before = [ErrorCode.all]

/-- The codes of a retrier or catcher are at fault, in themselves or because
nothing is left for them to match. -/
inductive Element.CodesAtFault : Element → CodesFault → Prop where
  | retrier {s : State} {i : Nat} {r : Retrier} {fault : CodesFault} :
      BadCodes r.errorEquals fault → CodesAtFault (.retrier s i r) fault
  | catcher {s : State} {i : Nat} {c : Catcher} {fault : CodesFault} :
      BadCodes c.errorEquals fault → CodesAtFault (.catcher s i c) fault
  | retrierNotLast {s : State} {i : Nat} {r : Retrier} :
      AfterMatchAll Retrier.errorEquals s.retriers i →
        CodesAtFault (.retrier s i r) .matchAllNotLastRetrier
  | catcherNotLast {s : State} {i : Nat} {c : Catcher} :
      AfterMatchAll Catcher.errorEquals s.catchers i →
        CodesAtFault (.catcher s i c) .matchAllNotLastCatcher

/-! ## Problems of an element -/

/-- The element carries a path, in the given field and dialect. -/
def Element.Carries : Element → Field → Path.Dialect → String → Prop
  | .state _ _ s => s.Carries
  | .rule r => r.Carries
  | .catcher _ _ c => c.Carries
  | .scope _ | .retrier _ _ _ => fun _ _ _ => False

namespace Element

/-- A scope at the location lies too deep. -/
inductive HasNestingProblem (settings : Settings) (location : Location) :
    Element → Problem → Prop where
  | tooDeep {m : Machine} :
      settings.maxNestingDepth ≠ 0 →
        settings.maxNestingDepth < location.branchDepth →
        HasNestingProblem settings location (.scope m)
          (.nestingTooDeep location.branchDepth settings.maxNestingDepth)

/-- The element breaks a rule about its fields. -/
inductive HasFieldProblem : Element → Problem → Prop where
  | missing {e : Element} {field : Field} :
      e.Lacks field → HasFieldProblem e (.missing field)
  | outOfRange {e : Element} {fault : RangeFault} :
      e.OutOfRange fault → HasFieldProblem e (.outOfRange fault)
  | badCodes {e : Element} {fault : CodesFault} :
      e.CodesAtFault fault → HasFieldProblem e (.badCodes fault)
  | noRules {m : Machine} {name : String} {s : ChoiceState} :
      s.rules = [] → HasFieldProblem (.state m name (.choice s)) .noRules
  | noBranches {m : Machine} {name : String} {s : ParallelState} :
      s.branches = [] →
        HasFieldProblem (.state m name (.parallel s)) .noBranches
  | duplicateName {m : Machine} {name : String} {s : State} :
      2 ≤ (States.names m.states).count name →
        HasFieldProblem (.state m name s) (.duplicateName name)

/-- The element carries a path that is not written in its dialect, and the
fault is the one that the path is refused for. -/
inductive HasPathProblem : Element → Problem → Prop where
  | badPath {e : Element} {field : Field} {path : String} {d : Path.Dialect}
      {fault : Path.Fault} :
      e.Carries field d path → Path.check d path = .error fault →
        HasPathProblem e (.badPath field path d fault)

/-- The element goes on with a state that is not declared in its scope. -/
inductive HasTargetProblem : Element → Problem → Prop where
  | start {m : Machine} {name : String} :
      m.startAt = some name → name ∉ States.names m.states →
        HasTargetProblem (.scope m) (.unknownTarget name)
  | target {m : Machine} {name target : String} {s : State} :
      target ∈ s.targets → target ∉ States.names m.states →
        HasTargetProblem (.state m name s) (.unknownTarget target)

/-- The state stands in the way of its scope's end, or is never reached. -/
inductive HasWalkProblem (settings : Settings) :
    Element → Problem → Prop where
  /-- The scope is bound to come to the state and from there back to it: it
  cannot end, and nothing that it comes to can fan out. -/
  | cycle {m : Machine} {start name : String} {s : State} :
      settings.diagnostics = .split → m.startAt = some start →
        ¬ States.CanEnd m.states start →
        States.Reaches m.states State.nextTargets start name →
        Relation.TransGen (States.Step m.states State.nextTargets)
          name name →
        (∀ b t, States.Reaches m.states State.nextTargets start b →
          States.get? m.states b = some t → ¬ t.Branching) →
        HasWalkProblem settings (.state m name s) .cycle
  | noTerminalPath {m : Machine} {name : String} {s : State} :
      m.startAt = some name → ¬ States.CanEnd m.states name →
        HasWalkProblem settings (.state m name s) .noTerminalPath
  | unreachable {m : Machine} {start name : String} {s : State} :
      settings.rejectUnreachableStates = true → m.startAt = some start →
        ¬ States.Reaches m.states State.targets start name →
        HasWalkProblem settings (.state m name s) .unreachable

/-- The element at the location has the problem. -/
inductive HasProblem (settings : Settings) (location : Location)
    (e : Element) (problem : Problem) : Prop where
  | nesting : e.HasNestingProblem settings location problem →
      HasProblem settings location e problem
  | fields : e.HasFieldProblem problem → HasProblem settings location e problem
  | paths : e.HasPathProblem problem → HasProblem settings location e problem
  | targets : e.HasTargetProblem problem →
      HasProblem settings location e problem
  | walks : e.HasWalkProblem settings problem →
      HasProblem settings location e problem

end Element

end Workflow

import Workflow.Condition
import Workflow.Recovery

/-!
# States and machines

A machine is a scope of named states with one of them to start at. The branches of a Parallel state
are machines of their own, so states, branches and machines are defined together. Names may be
repeated or missing and references may dangle: a definition is represented as it was written.
-/

namespace Workflow

/-- What follows a finished state. -/
inductive Transition where
  /-- The named state of the same scope runs next. -/
  | next (target : String)
  /-- The scope ends. -/
  | finish
deriving DecidableEq, Repr

namespace Transition

/-- The state that runs next. -/
def target? : Transition → Option String
  | .next name => some name
  | .finish => none

def isFinish (t : Transition) : Bool := t == .finish

end Transition

/-- The kinds of states. -/
inductive StateKind where
  | pass
  | task
  | wait
  | choice
  | succeed
  | fail
  | parallel
deriving DecidableEq, Repr

/-- The name of a kind in a definition. -/
def StateKind.name : StateKind → String
  | .pass => "Pass"
  | .task => "Task"
  | .wait => "Wait"
  | .choice => "Choice"
  | .succeed => "Succeed"
  | .fail => "Fail"
  | .parallel => "Parallel"

/-- Hands its input on, or a fixed result in its place. -/
structure PassState where
  comment : Option String := none
  inputPath : Option String := none
  outputPath : Option String := none
  resultPath : Option String := none
  result : Option Literal := none
  transition : Option Transition := none
deriving BEq

/-- Runs the work that `resource` names. -/
structure TaskState where
  comment : Option String := none
  inputPath : Option String := none
  outputPath : Option String := none
  resultPath : Option String := none
  resource : Option String := none
  timeoutSeconds : Option Int := none
  heartbeatSeconds : Option Int := none
  retriers : List Retrier := []
  catchers : List Catcher := []
  transition : Option Transition := none
deriving BEq

/-- What a Wait state waits for: a number of seconds or a point in time, given at once or read from
the input. A point in time is a number of seconds since the epoch. -/
inductive WaitFor where
  | seconds (count : Int)
  | secondsPath (path : String)
  | timestamp (instant : Option Int)
  | timestampPath (path : String)
deriving DecidableEq, Repr

/-- Delays the run. -/
structure WaitState where
  comment : Option String := none
  inputPath : Option String := none
  outputPath : Option String := none
  waitFor : Option WaitFor := none
  transition : Option Transition := none
deriving BEq

/-- Goes where its first matching rule says, or else to its default state. -/
structure ChoiceState where
  comment : Option String := none
  inputPath : Option String := none
  outputPath : Option String := none
  rules : List ChoiceRule := []
  defaultState : Option String := none
deriving BEq

/-- Ends the scope with success. -/
structure SucceedState where
  comment : Option String := none
  inputPath : Option String := none
  outputPath : Option String := none
deriving BEq

/-- Ends the scope with a failure. -/
structure FailState where
  comment : Option String := none
  error : Option String := none
  cause : Option String := none
deriving BEq

mutual

/-- A scope: its states in the order of their declaration and the one to start at. -/
structure Machine where
  comment : Option String := none
  version : Option String := none
  timeoutSeconds : Option Int := none
  startAt : Option String := none
  states : List Entry := []

/-- A declaration of a state under a name. -/
structure Entry where
  name : String
  state : State

/-- A state of one of the seven kinds. -/
inductive State where
  | pass (state : PassState)
  | task (state : TaskState)
  | wait (state : WaitState)
  | choice (state : ChoiceState)
  | succeed (state : SucceedState)
  | fail (state : FailState)
  | parallel (state : ParallelState)

/-- Runs its branches side by side. -/
structure ParallelState where
  comment : Option String := none
  inputPath : Option String := none
  outputPath : Option String := none
  resultPath : Option String := none
  branches : List Branch := []
  retriers : List Retrier := []
  catchers : List Catcher := []
  transition : Option Transition := none

/-- A branch of a Parallel state, a scope of its own. -/
structure Branch where
  comment : Option String := none
  machine : Machine

end

namespace State

def kind : State → StateKind
  | .pass _ => .pass
  | .task _ => .task
  | .wait _ => .wait
  | .choice _ => .choice
  | .succeed _ => .succeed
  | .fail _ => .fail
  | .parallel _ => .parallel

def comment : State → Option String
  | .pass s => s.comment
  | .task s => s.comment
  | .wait s => s.comment
  | .choice s => s.comment
  | .succeed s => s.comment
  | .fail s => s.comment
  | .parallel s => s.comment

/-- The input path; a Fail state has none. -/
def inputPath : State → Option String
  | .pass s => s.inputPath
  | .task s => s.inputPath
  | .wait s => s.inputPath
  | .choice s => s.inputPath
  | .succeed s => s.inputPath
  | .fail _ => none
  | .parallel s => s.inputPath

/-- The output path; a Fail state has none. -/
def outputPath : State → Option String
  | .pass s => s.outputPath
  | .task s => s.outputPath
  | .wait s => s.outputPath
  | .choice s => s.outputPath
  | .succeed s => s.outputPath
  | .fail _ => none
  | .parallel s => s.outputPath

/-- The result path of the kinds that have a result of their own. -/
def resultPath : State → Option String
  | .pass s => s.resultPath
  | .task s => s.resultPath
  | .parallel s => s.resultPath
  | .wait _ | .choice _ | .succeed _ | .fail _ => none

/-- The transition of the kinds that go on to one state. -/
def transition : State → Option Transition
  | .pass s => s.transition
  | .task s => s.transition
  | .wait s => s.transition
  | .parallel s => s.transition
  | .choice _ | .succeed _ | .fail _ => none

def retriers : State → List Retrier
  | .task s => s.retriers
  | .parallel s => s.retriers
  | .pass _ | .wait _ | .choice _ | .succeed _ | .fail _ => []

def catchers : State → List Catcher
  | .task s => s.catchers
  | .parallel s => s.catchers
  | .pass _ | .wait _ | .choice _ | .succeed _ | .fail _ => []

/-- The branches of a Parallel state. -/
def branches : State → List Branch
  | .parallel s => s.branches
  | .pass _ | .task _ | .wait _ | .choice _ | .succeed _ | .fail _ => []

end State

end Workflow

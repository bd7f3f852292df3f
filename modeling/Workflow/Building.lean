import Workflow.Machine

/-!
# Building states step by step

Each state kind starts from its required parts and takes its other parts one at a time. A later call
for the same single part replaces it; retriers, catchers, rules and branches are added at the end.
-/

namespace Workflow

namespace PassState

def withNext (s : PassState) (name : String) : PassState :=
  { s with transition := some (.next name) }

def withEnd (s : PassState) : PassState := { s with transition := some .finish }

def withInputPath (s : PassState) (path : String) : PassState := { s with inputPath := some path }

def withOutputPath (s : PassState) (path : String) : PassState := { s with outputPath := some path }

def withResultPath (s : PassState) (path : String) : PassState := { s with resultPath := some path }

def withResult (s : PassState) (result : Literal) : PassState := { s with result := some result }

end PassState

namespace TaskState

/-- The task that runs the given resource. -/
def running (resource : String) : TaskState := { resource := some resource }

def withNext (s : TaskState) (name : String) : TaskState :=
  { s with transition := some (.next name) }

def withEnd (s : TaskState) : TaskState := { s with transition := some .finish }

def withTimeoutSeconds (s : TaskState) (seconds : Int) : TaskState :=
  { s with timeoutSeconds := some seconds }

def withHeartbeatSeconds (s : TaskState) (seconds : Int) : TaskState :=
  { s with heartbeatSeconds := some seconds }

def withResultPath (s : TaskState) (path : String) : TaskState := { s with resultPath := some path }

def withRetrier (s : TaskState) (r : Retrier) : TaskState :=
  { s with retriers := s.retriers ++ [r] }

def withCatcher (s : TaskState) (c : Catcher) : TaskState :=
  { s with catchers := s.catchers ++ [c] }

end TaskState

namespace WaitState

/-- The state that waits as given. -/
def waiting (waitFor : WaitFor) : WaitState := { waitFor := some waitFor }

def withNext (s : WaitState) (name : String) : WaitState :=
  { s with transition := some (.next name) }

def withEnd (s : WaitState) : WaitState := { s with transition := some .finish }

end WaitState

namespace ChoiceState

def withRule (s : ChoiceState) (rule : ChoiceRule) : ChoiceState :=
  { s with rules := s.rules ++ [rule] }

def withDefault (s : ChoiceState) (name : String) : ChoiceState :=
  { s with defaultState := some name }

end ChoiceState

namespace FailState

/-- The failure for the given cause. -/
def because (cause : String) : FailState := { cause := some cause }

def withError (s : FailState) (error : String) : FailState := { s with error := some error }

end FailState

namespace ParallelState

def withBranch (s : ParallelState) (b : Branch) : ParallelState :=
  { s with branches := s.branches ++ [b] }

def withResultPath (s : ParallelState) (path : String) : ParallelState :=
  { s with resultPath := some path }

def withNext (s : ParallelState) (name : String) : ParallelState :=
  { s with transition := some (.next name) }

def withEnd (s : ParallelState) : ParallelState := { s with transition := some .finish }

def withRetrier (s : ParallelState) (r : Retrier) : ParallelState :=
  { s with retriers := s.retriers ++ [r] }

def withCatcher (s : ParallelState) (c : Catcher) : ParallelState :=
  { s with catchers := s.catchers ++ [c] }

end ParallelState

end Workflow

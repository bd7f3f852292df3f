import Workflow.Double.Shortest

/-!
# Recovery policies

What a Task or Parallel state does about errors: a retrier runs it again, a catcher goes on with
another state. Each names the errors that it matches by their codes.
-/

namespace Workflow

namespace ErrorCode

/-- The code that matches every error. -/
def all : String := "States.ALL"

def timeout : String := "States.Timeout"

def taskFailed : String := "States.TaskFailed"

def permissions : String := "States.Permissions"

def resultPathMatchFailure : String := "States.ResultPathMatchFailure"

def branchFailed : String := "States.BranchFailed"

def noChoiceMatched : String := "States.NoChoiceMatched"

/-- Whether the code matches every error. -/
def isMatchAll (code : String) : Bool := code == all

end ErrorCode

/-- A rule for running a state again after an error. -/
structure Retrier where
  errorEquals : List String := []
  intervalSeconds : Option Int := none
  maxAttempts : Option Int := none
  backoffRate : Option Double := none
deriving BEq

namespace Retrier

def defaultIntervalSeconds : Int := 1

def defaultMaxAttempts : Int := 3

def defaultBackoffRate : Double := .ofNat 2

/-- The retrier of the given codes, all else left to the defaults. -/
def matching (codes : List String) : Retrier := { errorEquals := codes }

/-- The time before the first repetition. -/
def effectiveIntervalSeconds (r : Retrier) : Int := r.intervalSeconds.getD defaultIntervalSeconds

def effectiveMaxAttempts (r : Retrier) : Int := r.maxAttempts.getD defaultMaxAttempts

def effectiveBackoffRate (r : Retrier) : Double := r.backoffRate.getD defaultBackoffRate

def withIntervalSeconds (r : Retrier) (seconds : Int) : Retrier :=
  { r with intervalSeconds := some seconds }

def withMaxAttempts (r : Retrier) (attempts : Int) : Retrier :=
  { r with maxAttempts := some attempts }

def withBackoffRate (r : Retrier) (rate : Double) : Retrier :=
  { r with backoffRate := some rate }

end Retrier

/-- A rule for going on with another state after an error. -/
structure Catcher where
  errorEquals : List String := []
  resultPath : Option String := none
  next : Option String := none
deriving BEq

namespace Catcher

/-- The catcher that goes to `next` on the given codes. -/
def matching (codes : List String) (next : String) : Catcher :=
  { errorEquals := codes, next := some next }

def withResultPath (c : Catcher) (path : String) : Catcher :=
  { c with resultPath := some path }

end Catcher

end Workflow

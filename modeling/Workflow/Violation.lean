import Workflow.Double.Shortest
import Workflow.Location
import Workflow.Path.Basic
import Workflow.Recovery

/-!
# Violations

What can be wrong with a definition. A violation is a problem and the place it was found at; the
problem holds the causes as data, and the wording of messages is here alone.
-/

namespace Workflow

/-- The parts of a definition that messages name. -/
inductive Field where
  | startAt
  | states
  | stateName
  | timeoutSeconds
  | heartbeatSeconds
  | resource
  | transition
  | next
  | default
  | inputPath
  | outputPath
  | resultPath
  | errorEquals
  | intervalSeconds
  | maxAttempts
  | backoffRate
  | waitFor
  | seconds
  | secondsPath
  | timestamp
  | timestampPath
  | cause
  | condition
  | conditions
  | subject
  | expectedValue
deriving DecidableEq, Repr

/-- The name of a field in messages. -/
def Field.name : Field → String
  | .startAt => "StartAt"
  | .states => "States"
  | .stateName => "StateName"
  | .timeoutSeconds => "TimeoutSeconds"
  | .heartbeatSeconds => "HeartbeatSeconds"
  | .resource => "Resource"
  | .transition => "Transition"
  | .next => "Next"
  | .default => "Default"
  | .inputPath => "InputPath"
  | .outputPath => "OutputPath"
  | .resultPath => "ResultPath"
  | .errorEquals => "ErrorEquals"
  | .intervalSeconds => "IntervalSeconds"
  | .maxAttempts => "MaxAttempts"
  | .backoffRate => "BackoffRate"
  | .waitFor => "WaitFor"
  | .seconds => "Seconds"
  | .secondsPath => "SecondsPath"
  | .timestamp => "Timestamp"
  | .timestampPath => "TimestampPath"
  | .cause => "Cause"
  | .condition => "Condition"
  | .conditions => "Conditions"
  | .subject => "Variable"
  | .expectedValue => "ExpectedValue"

/-- How a number is out of its range. -/
inductive RangeFault where
  | notPositive (field : Field) (value : Int)
  | negativeAttempts (value : Int)
  | rateBelowOne (rate : Double)
  | heartbeatAboveTimeout (heartbeat timeout : Int)
deriving DecidableEq

namespace RangeFault

/-- The field whose number is out of its range. -/
def field : RangeFault → Field
  | .notPositive field _ => field
  | .negativeAttempts _ => .maxAttempts
  | .rateBelowOne _ => .backoffRate
  | .heartbeatAboveTimeout _ _ => .heartbeatSeconds

def reason : RangeFault → String
  | .notPositive _ v => "must be positive (got " ++ toString v ++ ")"
  | .negativeAttempts v => "must not be negative (got " ++ toString v ++ ")"
  | .rateBelowOne rate => "must be greater than or equal to 1.0 (got " ++ rate.toText ++ ")"
  | .heartbeatAboveTimeout heartbeat timeout =>
    "must be smaller than or equal to " ++ Field.timeoutSeconds.name ++ " (" ++
      toString heartbeat ++ " > " ++ toString timeout ++ ")"

end RangeFault

/-- What is wrong with a list of error codes. -/
inductive CodesFault where
  | empty
  /-- The code that matches everything stands beside others. -/
  | matchAllNotAlone
  /-- The retrier before this one already matches everything. -/
  | matchAllNotLastRetrier
  /-- The catcher before this one already matches everything. -/
  | matchAllNotLastCatcher
deriving DecidableEq, Repr

def CodesFault.reason : CodesFault → String
  | .empty => "must not be empty"
  | .matchAllNotAlone => "must contain " ++ ErrorCode.all ++ " as its only error code"
  | .matchAllNotLastRetrier => ErrorCode.all ++ " must only be used in the last Retrier"
  | .matchAllNotLastCatcher => ErrorCode.all ++ " must only be used in the last Catcher"

/-- A rule that a definition breaks, with what it was broken by. -/
inductive Problem where
  | missing (field : Field)
  | outOfRange (fault : RangeFault)
  | badPath (field : Field) (path : String) (dialect : Path.Dialect) (fault : Path.Fault)
  | unknownTarget (target : String)
  | duplicateName (name : String)
  | badCodes (fault : CodesFault)
  | noRules
  | noBranches
  | cycle
  | noTerminalPath
  | nestingTooDeep (depth limit : Nat)
  | unreachable
deriving DecidableEq

namespace Problem

/-- The stable code of the rule. -/
def code : Problem → String
  | .missing _ => "MISSING_REQUIRED_FIELD"
  | .outOfRange _ => "INVALID_NUMERIC_RANGE"
  | .badPath .. => "INVALID_PATH_SYNTAX"
  | .unknownTarget _ => "UNKNOWN_TRANSITION_TARGET"
  | .duplicateName _ => "DUPLICATE_STATE_NAME"
  | .badCodes _ => "INVALID_ERROR_CODE_LIST"
  | .noRules => "EMPTY_CHOICE_RULE_LIST"
  | .noBranches => "EMPTY_BRANCH_LIST"
  | .cycle => "CYCLE_DETECTED"
  | .noTerminalPath => "NO_TERMINAL_PATH"
  | .nestingTooDeep .. => "NESTING_TOO_DEEP"
  | .unreachable => "UNREACHABLE_STATE"

/-- The field at fault, where the rule is about one field. -/
def field? : Problem → Option Field
  | .missing field => some field
  | .outOfRange fault => some fault.field
  | .badPath field .. => some field
  | _ => none

/-- The syntax fault of a bad path. -/
def pathFault? : Problem → Option Path.Fault
  | .badPath _ _ _ fault => some fault
  | _ => none

/-- The message of a problem, without its place. -/
def message : Problem → String
  | .missing field => field.name ++ " is required"
  | .outOfRange fault => fault.field.name ++ " " ++ fault.reason
  | .badPath field path dialect fault =>
    field.name ++ " '" ++ path ++ "' is not a valid " ++ dialect.name ++ " path: " ++ fault.message
  | .unknownTarget target => target ++ " is not a valid state"
  | .duplicateName name => "duplicate state name '" ++ name ++ "'"
  | .badCodes fault => Field.errorEquals.name ++ " " ++ fault.reason
  | .noRules => "Choices must not be empty"
  | .noBranches => "Branches must not be empty"
  | .cycle => "Cycle detected."
  | .noTerminalPath => "No path to a terminal state exists in the state machine."
  | .nestingTooDeep depth limit =>
    "nesting depth " ++ toString depth ++ " exceeds maximum of " ++ toString limit
  | .unreachable => "state is not reachable from StartAt"

end Problem

/-- A problem at a place. -/
structure Violation where
  location : Location
  problem : Problem
deriving DecidableEq

/-- The full message of a violation. -/
def Violation.message (v : Violation) : String := v.location.text ++ ": " ++ v.problem.message

end Workflow

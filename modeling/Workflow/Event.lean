import Workflow.Violation

/-!
# Events

What a validation reports about its course, apart from its verdict.
-/

namespace Workflow

/-- How important a log line is. -/
inductive Level where
  | trace
  | debug
  | warn
deriving DecidableEq, Repr

def Level.name : Level → String
  | .trace => "TRACE"
  | .debug => "DEBUG"
  | .warn => "WARN"

/-- An event in the course of a validation. -/
inductive Event where
  /-- A scope is entered. -/
  | entered (location : Location) (depth : Nat)
  /-- So many of a scope's states can reach its end. -/
  | measured (location : Location) (terminating total : Nat)
  /-- The definition is accepted. -/
  | accepted (states : Nat)
  /-- The definition is rejected. -/
  | rejected (violation : Violation)
deriving DecidableEq

namespace Event

def level : Event → Level
  | .measured .. => .trace
  | .entered .. | .accepted _ | .rejected _ => .debug

def message : Event → String
  | .entered location depth =>
    "Validating scope " ++ location.text ++ " (depth " ++ toString depth ++ ")"
  | .measured location terminating total =>
    location.text ++ ": " ++ toString terminating ++ " of " ++ toString total ++
      " states can terminate"
  | .accepted states => "Accepted state machine (" ++ toString states ++ " top-level states)"
  | .rejected violation =>
    "Rejected state machine: [" ++ violation.problem.code ++ "] " ++ violation.message

end Event

end Workflow

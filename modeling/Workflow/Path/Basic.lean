/-!
# Path dialects and syntax faults

Paths address places in the JSON document that flows through a state. A general path may select
several places; a reference path addresses exactly one, so it may not use the constructs that select
several. Positions are UTF-8 byte offsets.
-/

namespace Workflow

namespace Path

/-- Which constructs a path may use. -/
inductive Dialect where
  | general
  | reference
deriving DecidableEq, Repr

/-- The name of a dialect in messages. -/
def Dialect.name : Dialect → String
  | .general => "JSON"
  | .reference => "reference"

/-- The constructs that a reference path may not use. -/
inductive Construct where
  | deepScan
  | wildcard
  | filterExpression
  | scriptExpression
  | union
  | slice
  | negativeIndex
deriving DecidableEq, Repr

/-- The name of a construct in messages. -/
def Construct.name : Construct → String
  | .deepScan => "deep scan"
  | .wildcard => "wildcard"
  | .filterExpression => "filter expression"
  | .scriptExpression => "script expression"
  | .union => "union"
  | .slice => "slice"
  | .negativeIndex => "negative index"

/-- Why a text is no path. -/
inductive Fault where
  | empty
  | missingRoot
  | emptySegment (position : Nat)
  | unexpectedChar (position : Nat) (found : Char)
  | unterminatedBracket (position : Nat)
  | invalidBracket (position : Nat)
  | notAllowed (position : Nat) (construct : Construct)
deriving DecidableEq, Repr

namespace Fault

/-- Where the fault is; a text without a root has no such place. -/
def position? : Fault → Option Nat
  | .empty | .missingRoot => none
  | .emptySegment p | .unexpectedChar p _ | .unterminatedBracket p | .invalidBracket p
  | .notAllowed p _ => some p

/-- The message of a fault. -/
def message : Fault → String
  | .empty => "path is empty"
  | .missingRoot => "path must start with '$'"
  | .emptySegment p => "empty segment at position " ++ toString p
  | .unexpectedChar p c =>
    "unexpected character '" ++ c.toString ++ "' at position " ++ toString p
  | .unterminatedBracket p => "unterminated bracket starting at position " ++ toString p
  | .invalidBracket p => "invalid bracket expression at position " ++ toString p
  | .notAllowed p c =>
    c.name ++ " is not allowed in a reference path (position " ++ toString p ++ ")"

end Fault

end Path

end Workflow

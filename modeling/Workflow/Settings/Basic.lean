/-!
# Settings

What a validation is run with.
-/

namespace Workflow

/-- How a scope without a way to its end is reported. -/
inductive Diagnostics where
  /-- A scope that can only go round in a circle is told apart. -/
  | split
  /-- All such scopes are reported alike. -/
  | unified
deriving DecidableEq, Repr

/-- The name of a style in settings. -/
def Diagnostics.name : Diagnostics → String
  | .split => "split"
  | .unified => "unified"

/-- The settings of a validation. -/
structure Settings where
  /-- How deep branches may be nested; zero sets no limit. -/
  maxNestingDepth : Nat := 0
  /-- Whether states that cannot be reached are violations. -/
  rejectUnreachableStates : Bool := false
  diagnostics : Diagnostics := .split
deriving DecidableEq, Repr

namespace Settings

/-- The nesting depths that settings may name are below this. -/
def depthLimit : Nat := Nat.pow 2 64

/-- Whether branch nesting is limited. -/
def limitsNesting (s : Settings) : Bool := 0 < s.maxNestingDepth

def withMaxNestingDepth (s : Settings) (depth : Nat) : Settings :=
  { s with maxNestingDepth := depth }

def withRejectUnreachableStates (s : Settings) (reject : Bool) : Settings :=
  { s with rejectUnreachableStates := reject }

def withDiagnostics (s : Settings) (style : Diagnostics) : Settings :=
  { s with diagnostics := style }

end Settings

end Workflow

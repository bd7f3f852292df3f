/-!
# Locations

Where in a definition a diagnostic belongs: the steps from the top-level machine down to a state, a
branch, a rule, a retrier or a catcher.
-/

namespace Workflow

/-- One step into a definition. -/
inductive Step where
  | state (name : String)
  | branch (index : Nat)
  | choice (index : Nat)
  | retrier (index : Nat)
  | catcher (index : Nat)
deriving DecidableEq, Repr

/-- The text of a step. -/
def Step.text : Step → String
  | .state name => ".States[" ++ name ++ "]"
  | .branch i => ".Branches[" ++ toString i ++ "]"
  | .choice i => ".Choices[" ++ toString i ++ "]"
  | .retrier i => ".Retriers[" ++ toString i ++ "]"
  | .catcher i => ".Catchers[" ++ toString i ++ "]"

/-- A place in a definition, given by the steps that lead to it from the top. -/
structure Location where
  steps : List Step := []
deriving DecidableEq, Repr

namespace Location

/-- The top-level machine. -/
def root : Location := {}

/-- The place one step further in. -/
def child (l : Location) (step : Step) : Location := ⟨l.steps ++ [step]⟩

def state (l : Location) (name : String) : Location := l.child (.state name)

def branch (l : Location) (index : Nat) : Location := l.child (.branch index)

def choice (l : Location) (index : Nat) : Location := l.child (.choice index)

def retrier (l : Location) (index : Nat) : Location := l.child (.retrier index)

def catcher (l : Location) (index : Nat) : Location := l.child (.catcher index)

/-- The name of the innermost state that the place lies in. -/
def stateName? (l : Location) : Option String :=
  l.steps.reverse.findSome? fun
    | .state name => some name
    | .branch _ | .choice _ | .retrier _ | .catcher _ => none

/-- How many branches the place lies in. -/
def branchDepth (l : Location) : Nat :=
  l.steps.countP fun
    | .branch _ => true
    | .state _ | .choice _ | .retrier _ | .catcher _ => false

def isRoot (l : Location) : Bool := l.steps.isEmpty

/-- The text of a place, from the top inwards. -/
def text (l : Location) : String :=
  l.steps.foldl (fun s step => s ++ step.text) "Root"

example : ((root.state "Fan").branch 0 |>.state "Work" |>.retrier 1).text =
    "Root.States[Fan].Branches[0].States[Work].Retriers[1]" := by decide +kernel

end Location

end Workflow

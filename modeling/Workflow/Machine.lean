import Workflow.State

/-!
# Scopes of named states

Look-up and extension of the states of a scope. Declaring a name again keeps both declarations, and
look-up finds the first.
-/

namespace Workflow

/-- The states of a scope, in the order of their declaration. -/
abbrev States := List Entry

namespace States

/-- Declares one more state. -/
def insert (states : States) (name : String) (state : State) : States :=
  states ++ [⟨name, state⟩]

/-- The declared names, with their repetitions. -/
def names (states : States) : List String := states.map Entry.name

/-- The state declared first under a name. -/
def get? (states : States) (name : String) : Option State :=
  (states.find? fun e => e.name == name).map Entry.state

/-- Whether a name is declared. -/
def contains (states : States) (name : String) : Bool := states.any fun e => e.name == name

/-- The declared names with the kinds of their states. -/
def kinds (states : States) : List (String × StateKind) :=
  states.map fun e => (e.name, e.state.kind)

theorem names_insert (states : States) (name : String) (state : State) :
    (states.insert name state).names = states.names ++ [name] := by
  simp [insert, names]

theorem contains_eq_true_iff {states : States} {name : String} :
    states.contains name = true ↔ name ∈ states.names := by
  simp [contains, names]

end States

namespace Machine

/-- The machine that starts at the given state, with no state declared yet. -/
def startingAt (name : String) : Machine := { startAt := some name }

def withState (m : Machine) (name : String) (state : State) : Machine :=
  { m with states := States.insert m.states name state }

def withStartAt (m : Machine) (name : Option String) : Machine := { m with startAt := name }

def withComment (m : Machine) (comment : String) : Machine := { m with comment := some comment }

def withTimeoutSeconds (m : Machine) (seconds : Int) : Machine :=
  { m with timeoutSeconds := some seconds }

def withoutTimeout (m : Machine) : Machine := { m with timeoutSeconds := none }

end Machine

/-- The branch that runs a machine. -/
def Branch.ofMachine (m : Machine) : Branch := ⟨none, m⟩

end Workflow

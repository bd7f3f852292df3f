import Mathlib.Data.List.Nodup
import Workflow.Termination

/-!
# The graph of a scope in tables

The same graph as it is laid out in memory: a column for each kind of fact about the nodes, rows of
edges in both directions, and an index of names. All of it is filled in one pass over the
declarations. An edge adds to the row of its start and to that of its end, so a row may grow before
the node it belongs to has been entered. The walks over the tables keep a queue and a mark for each
node.

Every row and every mark is asked for by its position, and there may be none. Then nothing at all
comes of it, and neither does of a walk that takes more turns than there are nodes to be marked.
-/

namespace Workflow

/-- The nodes of a scope in columns. An edge of the ordinary course stands in a row at both of its
ends. -/
structure Tables where
  names : Array String
  kinds : Array StateKind
  terminal : Array Bool
  successors : Array (List Nat)
  predecessors : Array (List Nat)
  handlers : Array (List Nat)
  index : Std.HashMap String Nat

namespace Tables

/-! ## Filling -/

/-- One more number in a row; nothing if there is no such row. -/
def addTo? (rows : Array (List Nat)) (v w : Nat) : Option (Array (List Nat)) := do
  let row ← rows[v]?
  return rows.setIfInBounds v (row ++ [w])

/-- Numbers the declarations; a name that has a number keeps it. -/
def number : States → Nat → Std.HashMap String Nat → Std.HashMap String Nat
  | [], _, index => index
  | e :: rest, i, index => number rest (i + 1) (index.insertIfNew e.name i)

/-- Enters an edge of the ordinary course, if its target is declared. -/
def link? (i : Nat) (t : Tables) (target : String) : Option Tables :=
  match t.index[target]? with
  | none => some t
  | some j => do
    let successors ← addTo? t.successors i j
    let predecessors ← addTo? t.predecessors j i
    return { t with successors, predecessors }

/-- Enters an edge to a state that catches errors, if its target is declared. -/
def handle? (i : Nat) (t : Tables) (target : String) : Option Tables :=
  match t.index[target]? with
  | none => some t
  | some j => do
    let handlers ← addTo? t.handlers i j
    return { t with handlers }

/-- Enters a declaration with its edges. -/
def enter? (t : Tables) (i : Nat) (e : Entry) : Option Tables := do
  let t := { t with
    names := t.names.push e.name
    kinds := t.kinds.push e.state.kind
    terminal := t.terminal.push e.state.isTerminal }
  let t ← e.state.nextTargets.foldlM (link? i) t
  e.state.catchTargets.foldlM (handle? i) t

/-- Enters declarations, the first of which has the position `i`. -/
def enterAll? : States → Nat → Tables → Option Tables
  | [], _, t => some t
  | e :: rest, i, t => do enterAll? rest (i + 1) (← enter? t i e)

/-- The tables before anything is entered. -/
def blank (states : States) : Tables where
  names := #[]
  kinds := #[]
  terminal := #[]
  successors := Array.replicate states.length []
  predecessors := Array.replicate states.length []
  handlers := Array.replicate states.length []
  index := number states 0 ∅

/-- The tables of a scope. -/
def build? (states : States) : Option Tables := enterAll? states 0 (blank states)

def size (t : Tables) : Nat := t.names.size

/-! ## Walks -/

/-- Marks a node; nothing if there is no such node. -/
def mark? (seen : Array Bool) (v : Nat) : Option (Array Bool) := do
  let _ ← seen[v]?
  return seen.setIfInBounds v true

/-- Marks those of the nodes that have not been seen and puts them at the end of the queue. -/
def discover? : List Nat → List Nat → Array Bool → Option (List Nat × Array Bool)
  | [], queue, seen => some (queue, seen)
  | v :: vs, queue, seen => do
    if ← seen[v]? then discover? vs queue seen
    else discover? vs (queue ++ [v]) (← mark? seen v)

/-- Follows the edges of the nodes in the queue, one node in each turn, and of those that are found
on the way. -/
def drain? (next? : Nat → Option (List Nat)) :
    (turns : Nat) → List Nat → Array Bool → Option (Array Bool)
  | _, [], seen => some seen
  | 0, _ :: _, _ => none
  | turns + 1, v :: queue, seen => do
    let (queue, seen) ← discover? (← next? v) queue seen
    drain? next? turns queue seen

/-- The nodes that pass a test, in order. -/
def select? (test? : Nat → Option Bool) : List Nat → Option (List Nat)
  | [] => some []
  | v :: vs => do
    let passes ← test? v
    let rest ← select? test? vs
    return if passes then v :: rest else rest

/-- Marks the nodes from which a terminal node can be reached in the ordinary course. -/
def terminating? (t : Tables) : Option (Array Bool) := do
  let queue ← select? (fun v => t.terminal[v]?) (List.range t.size)
  drain? (fun v => t.predecessors[v]?) t.size queue t.terminal

/-- The ends of the edges from a node. -/
def next? (t : Tables) (followHandlers : Bool) (v : Nat) : Option (List Nat) := do
  let handlers ← if followHandlers then t.handlers[v]? else some []
  return (← t.successors[v]?) ++ handlers

/-- Marks the nodes that can be reached from `start`. -/
def reachable? (t : Tables) (start : Nat) (followHandlers : Bool) : Option (Array Bool) := do
  let seen ← mark? (Array.replicate t.size false) start
  drain? (t.next? followHandlers) t.size [start] seen

def isBranching? (t : Tables) (v : Nat) : Option Bool :=
  t.kinds[v]?.map fun kind => kind == .choice || kind == .parallel

/-- Whether the node is marked and may fan out. -/
def branchesAmong? (t : Tables) (reached : Array Bool) (v : Nat) : Option Bool := do
  if ← reached[v]? then t.isBranching? v else return false

/-- Follows the first edge from node to node and gives the first node met for the second time. -/
def firstRepeat? (t : Tables) : (turns : Nat) → Array Bool → Nat → Option (Option Nat)
  | 0, _, _ => none
  | turns + 1, visited, v => do
    if ← visited[v]? then return some v
    else
      let visited ← mark? visited v
      match ← t.successors[v]? with
      | [] => return none
      | next :: _ => t.firstRepeat? turns visited next

/-- If nothing reachable from `start` can fan out, the node at which the only way from `start`
returns to itself. -/
def cycleHead? (t : Tables) (start : Nat) : Option (Option Nat) := do
  let reached ← t.reachable? start false
  if ← (List.range t.size).anyM (t.branchesAmong? reached) then return none
  else t.firstRepeat? (t.size + 1) (Array.replicate t.size false) start

/-! ## Checks -/

/-- The node of the state to start at. -/
def start? (t : Tables) (m : Machine) : Option Nat := m.startAt.bind fun name => t.index[name]?

/-- The state to report for a scope that cannot end, and how. -/
def problemAt? (style : Diagnostics) (t : Tables) (start : Nat) : Option (Nat × Problem) :=
  match style with
  | .unified => some (start, .noTerminalPath)
  | .split => do
    match ← t.cycleHead? start with
    | some v => return (v, .cycle)
    | none => return (start, .noTerminalPath)

/-- The start of a scope can reach a terminal state; `Termination.check` on tables. -/
def check? (style : Diagnostics) (location : Location) (m : Machine) : Option Verdict := do
  let t ← build? m.states
  match t.start? m with
  | none => return .accept
  | some start =>
    let terminating ← t.terminating?
    if ← terminating[start]? then return .accept
    else
      let (v, problem) ← problemAt? style t start
      return .reject (location.state (← t.names[v]?)) problem

/-- The names of the states that cannot be reached from the start; `Termination.unreachable` on
tables. -/
def unreachable? (m : Machine) : Option (List String) := do
  let t ← build? m.states
  match t.start? m with
  | none => return []
  | some start =>
    let reached ← t.reachable? start true
    let missed ← select? (fun v => reached[v]?.map not) (List.range t.size)
    missed.mapM fun v => t.names[v]?

end Tables

end Workflow

import Workflow.Targets

/-!
# The graph of a scope

One node per declaration, named by its position, with an edge to the first declaration of each
target that is declared. Edges of the ordinary course and edges to the states that catch errors are
kept apart, so the targets of a state are listed in two parts here; together they are all of its
targets. Reachability is a walk level by level: in each round the nodes found in the round before
are followed once, and a scope of `n` nodes is exhausted after `n` rounds.
-/

namespace Workflow

/-- The position of the first declaration of a name. -/
def States.index? (states : States) (name : String) : Option Nat :=
  states.findIdx? fun e => e.name == name

namespace State

/-- The targets in the ordinary course: of a Choice state those of its rules and its default, of the
other kinds the one that the transition names. -/
def nextTargets : State → List String
  | .choice s => s.rules.filterMap ChoiceRule.next ++ s.defaultState.toList
  | s => (s.transition.bind Transition.target?).toList

/-- The targets in the event of an error. -/
def catchTargets (s : State) : List String := s.catchers.filterMap Catcher.next

/-- The two parts are all targets, those of the ordinary course first. -/
theorem targets_eq_append (s : State) : s.targets = s.nextTargets ++ s.catchTargets := by
  have transition_target (t : Option Transition) :
      t.toList.filterMap Transition.target? = (t.bind Transition.target?).toList := by
    rcases t with _ | _ | _ <;> rfl
  cases s <;>
    simp [targets, nextTargets, catchTargets, transition, catchers, transition_target]

theorem nextTargets_subset_targets (s : State) : s.nextTargets ⊆ s.targets := by
  rw [targets_eq_append]
  exact List.subset_append_left _ _

/-- Whether the scope may end with this state. -/
def isTerminal : State → Bool
  | .succeed _ | .fail _ => true
  | .choice _ => false
  | s => s.transition == some .finish

/-- Whether the state is of a kind that may fan out. -/
def isBranching : State → Bool
  | .choice _ | .parallel _ => true
  | .pass _ | .task _ | .wait _ | .succeed _ | .fail _ => false

end State

/-- A node of the graph, with the positions its edges lead to. -/
structure Graph.Node where
  name : String
  successors : List Nat
  handlers : List Nat
  isTerminal : Bool
  isBranching : Bool
deriving DecidableEq, Repr

/-- The graph of a scope. -/
structure Graph where
  nodes : List Graph.Node
deriving DecidableEq, Repr

namespace Graph

/-- The node of a declaration; targets that are not declared have no edge. -/
def node (states : States) (e : Entry) : Node where
  name := e.name
  successors := e.state.nextTargets.filterMap states.index?
  handlers := e.state.catchTargets.filterMap states.index?
  isTerminal := e.state.isTerminal
  isBranching := e.state.isBranching

/-- The graph of the states of a scope. -/
def ofStates (states : States) : Graph := ⟨states.map (node states)⟩

def size (g : Graph) : Nat := g.nodes.length

/-- The position of the first node of a name. -/
def index? (g : Graph) (name : String) : Option Nat := g.nodes.findIdx? fun n => n.name == name

/-- The name of the node at a position. -/
def name (g : Graph) (v : Nat) : String := (g.nodes[v]?).elim "" Node.name

/-- The ends of the edges of the ordinary course from a node. -/
def successors (g : Graph) (v : Nat) : List Nat := (g.nodes[v]?).elim [] Node.successors

/-- The ends of the edges to the states that catch errors of a node. -/
def handlers (g : Graph) (v : Nat) : List Nat := (g.nodes[v]?).elim [] Node.handlers

def isTerminal (g : Graph) (v : Nat) : Bool := (g.nodes[v]?).elim false Node.isTerminal

def isBranching (g : Graph) (v : Nat) : Bool := (g.nodes[v]?).elim false Node.isBranching

/-- The starts of the edges of the ordinary course to a node, once for each edge. -/
def predecessors (g : Graph) (v : Nat) : List Nat :=
  g.nodes.zipIdx.flatMap fun (n, u) => (n.successors.filter (· == v)).map fun _ => u

/-- Walks `rounds` levels from the nodes of `frontier`, all of which are in `visited`, and gives all
nodes visited. -/
def spread (next : Nat → List Nat) : (rounds : Nat) → (visited frontier : List Nat) → List Nat
  | 0, visited, _ => visited
  | rounds + 1, visited, frontier =>
    match ((frontier.flatMap next).filter fun v => v ∉ visited).eraseDups with
    | [] => visited
    | found => spread next rounds (visited ++ found) found

/-- The nodes that can be reached from `start`, itself included. Edges to the states that catch
errors are followed only if asked for. -/
def reachable (g : Graph) (start : Nat) (followHandlers : Bool) : List Nat :=
  let next v := g.successors v ++ if followHandlers then g.handlers v else []
  spread next g.size [start] [start]

/-- The terminal nodes. -/
def terminals (g : Graph) : List Nat := (List.range g.size).filter g.isTerminal

/-- The nodes from which a terminal node can be reached in the ordinary course. -/
def terminating (g : Graph) : List Nat := spread g.predecessors g.size g.terminals g.terminals

/-- Whether each node is among the given ones, in the order of the nodes. -/
def marks (g : Graph) (set : List Nat) : List Bool :=
  (List.range g.size).map fun v => decide (v ∈ set)

/-- Follows the first edge from node to node and gives the first node met for the second time. The
walk ends without one at a node that has no edge. -/
def firstRepeat? (g : Graph) : (steps : Nat) → (visited : List Nat) → (v : Nat) → Option Nat
  | 0, _, _ => none
  | steps + 1, visited, v =>
    if v ∈ visited then some v
    else
      match g.successors v with
      | [] => none
      | next :: _ => g.firstRepeat? steps (v :: visited) next

/-- If nothing reachable from `start` can fan out, the node at which the only way from `start`
returns to itself. In a graph of `n` nodes that happens within `n + 1` steps. -/
def cycleHead? (g : Graph) (start : Nat) : Option Nat :=
  if (g.reachable start false).any g.isBranching then none
  else g.firstRepeat? (g.size + 1) [] start

theorem size_ofStates (states : States) : (ofStates states).size = states.length := by
  simp [ofStates, size]

theorem index?_ofStates (states : States) (name : String) :
    (ofStates states).index? name = states.index? name := by
  simp [ofStates, index?, States.index?, List.findIdx?_map, node, Function.comp_def]

end Graph

end Workflow

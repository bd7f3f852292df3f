import Workflow.Proofs.WellFormed

/-!
# Every target has its edge

The check of targets and the graph each list the targets of a state on their
own, and the graph passes over a target that is not declared. So an edge could
be missing without anything being said. It cannot: the two lists agree for
every kind of state, an edge list is the list of declared targets, in order and
with its repetitions (`names_filterMap_index?`), and the check of targets passes
a scope if and only if none of them is undeclared (`edges_complete`).

Names may be declared twice. An edge then leads to the first declaration, which
has the name of the target as well.
-/

namespace Workflow

namespace Graph

/-- The names of the nodes at the given positions; nothing where there is no
node. -/
def names (g : Graph) (vs : List Nat) : List (Option String) :=
  vs.map fun v => (g.nodes[v]?).map Node.name

variable {states : States} {targets : State → List String}

/-- At the position that a name is looked up at, there is a node of that
name. -/
theorem name_of_index? {a : String} {v : Nat} (h : states.index? a = some v) :
    ((ofStates states).nodes[v]?).map Node.name = some a := by
  obtain ⟨hv, hname, -⟩ := States.index?_eq_some_iff.mp h
  rw [getElem?_ofStates, List.getElem?_eq_getElem hv, Option.map_some,
    Option.map_some, node, hname]

/-- Looking names up passes over those that are not declared, and keeps the
others as they are. -/
theorem names_filterMap_index? (as : List String) :
    (ofStates states).names (as.filterMap states.index?) =
      (as.filter states.contains).map some := by
  induction as with
  | nil => rfl
  | cons a as ih =>
      cases h : states.index? a with
      | none =>
          have hnot : ¬ states.contains a = true := fun hcontains =>
            States.index?_eq_none_iff.mp h
              (States.contains_eq_true_iff.mp hcontains)
          rw [List.filterMap_cons_none h, List.filter_cons_of_neg hnot, ih]
      | some v =>
          have hcontains : states.contains a = true :=
            States.contains_eq_true_iff.mpr (States.mem_names_of_index? h)
          rw [List.filterMap_cons_some h, List.filter_cons_of_pos hcontains,
            names, List.map_cons, name_of_index? h, List.map_cons, ← ih, names]

/-- No edge is missing if and only if all names are declared. -/
theorem names_filterMap_index?_iff {as : List String} :
    (ofStates states).names (as.filterMap states.index?) = as.map some ↔
      ∀ a ∈ as, a ∈ States.names states := by
  rw [names_filterMap_index?, List.map_inj_right fun _ _ => Option.some.inj,
    List.filter_eq_self]
  simp only [States.contains_eq_true_iff]

theorem edges_of_getElem? {v : Nat} {e : Entry} (h : states[v]? = some e) :
    edges states targets v = (targets e.state).filterMap states.index? := by
  rw [edges, h]
  rfl

/-- The check of targets and the graph list the same targets for every state.
A scope passes the check if and only if its graph passes over nothing: at every
declaration, the edges of the ordinary course lead to the targets of the
ordinary course and those for errors to the targets for errors, in order and
with repetitions, and the start, if there is one, has a node. -/
theorem edges_complete (location : Location) (m : Machine) :
    (∀ s : State, s.targets = s.nextTargets ++ s.catchTargets) ∧
    (Targets.check location m = .ok () ↔
      (∀ v e, m.states[v]? = some e →
        (ofStates m.states).names ((ofStates m.states).successors v) =
          e.state.nextTargets.map some ∧
        (ofStates m.states).names ((ofStates m.states).handlers v) =
          e.state.catchTargets.map some) ∧
      ∀ a, m.startAt = some a → ∃ v, (ofStates m.states).index? a = some v) := by
  refine ⟨State.targets_eq_append, ?_⟩
  have hstart (a : String) :
      (∃ v, (ofStates m.states).index? a = some v) ↔
        a ∈ States.names m.states := by
    rw [index?_ofStates]
    exact ⟨fun ⟨_, hv⟩ => States.mem_names_of_index? hv, States.exists_index?⟩
  have hedges {v : Nat} {e : Entry} (he : m.states[v]? = some e) :
      ((ofStates m.states).names ((ofStates m.states).successors v) =
          e.state.nextTargets.map some ∧
        (ofStates m.states).names ((ofStates m.states).handlers v) =
          e.state.catchTargets.map some) ↔
        ∀ a ∈ e.state.targets, a ∈ States.names m.states := by
    rw [successors_ofStates, handlers_ofStates, edges_of_getElem? he,
      edges_of_getElem? he, names_filterMap_index?_iff,
      names_filterMap_index?_iff, State.targets_eq_append,
      List.forall_mem_append]
  rw [Targets.check_eq_ok_iff]
  constructor
  · intro h
    exact ⟨fun v e he => (hedges he).mpr (h.targets e (List.mem_of_getElem? he)),
      fun a ha => (hstart a).mpr (h.start a ha)⟩
  · intro h
    refine ⟨fun a ha => (hstart a).mp (h.2 a ha), fun e he => ?_⟩
    obtain ⟨v, he⟩ := List.mem_iff_getElem?.mp he
    exact (hedges he).mp (h.1 v e he)

end Graph

end Workflow

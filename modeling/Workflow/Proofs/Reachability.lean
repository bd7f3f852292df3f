import Mathlib.Data.List.Pairwise
import Workflow.Proofs.Walk

/-!
# Which nodes can be reached, and which states are reported

The walk from the start of a scope marks exactly the nodes that a path of edges
leads to, with the edges to the states that catch errors or without them. The
states reported as unreachable are the rest, one for each declaration and in the
order of declaration (`reachable_exact`).

A declaration is not the same as a name here. An edge leads to the first
declaration of its target, so no path ever comes to a later one, and a name that
is declared twice is reported even if it is the name of the start.
-/

namespace Workflow

namespace Graph

/-- An edge leads from the first node to the second, be it one of the ordinary
course or, if these are followed, one to a state that catches errors. -/
def Edge (g : Graph) (followHandlers : Bool) (v w : Nat) : Prop :=
  w ∈ g.successors v ∨ followHandlers = true ∧ w ∈ g.handlers v

variable {states : States} {start v w : Nat} {followHandlers : Bool}

theorem edge_ofStates :
    (ofStates states).Edge followHandlers = fun v w =>
      w ∈ edges states
        (if followHandlers then State.targets else State.nextTargets) v := by
  funext v w
  rw [Edge, successors_ofStates, handlers_ofStates]
  cases followHandlers <;> simp [edges_targets]

/-- The nodes marked by a walk are those that a path leads to. -/
theorem marks_reachable_iff (hstart : start < states.length) :
    ((ofStates states).marks
        ((ofStates states).reachable start followHandlers))[v]? = some true ↔
      Relation.ReflTransGen ((ofStates states).Edge followHandlers)
        start v := by
  rw [getElem?_marks_eq_true_iff, mem_reachable_iff hstart, edge_ofStates,
    size_ofStates]
  refine and_iff_right_of_imp fun h => ?_
  rcases Relation.ReflTransGen.cases_tail h with rfl | ⟨u, -, hedge⟩
  · exact hstart
  · exact lt_length_of_mem_edges u _ hedge

/-- No path from a first declaration leads to a later declaration of a name. -/
theorem not_reaches_of_later {a : String} {d e : Entry}
    (ha : states.index? a = some start) (hd : states[v]? = some d)
    (he : states[w]? = some e) (hvw : v < w) (hname : d.name = e.name) :
    ¬ Relation.ReflTransGen ((ofStates states).Edge followHandlers)
      start w := by
  intro hreach
  rw [edge_ofStates] at hreach
  -- A walk on positions is one on names, and it ends where a name is looked up.
  obtain ⟨b, -, hb⟩ := exists_reaches_of_walk ha hreach
  obtain ⟨hw, hbw, hfirst⟩ := States.index?_eq_some_iff.mp hb
  obtain ⟨hv, rfl⟩ := List.getElem?_eq_some_iff.mp hd
  obtain ⟨_, rfl⟩ := List.getElem?_eq_some_iff.mp he
  exact hfirst v hvw (hname.trans hbw)

end Graph

namespace Termination

/-- The positions of the states that are reported as unreachable from the given
one. -/
def unreachedAt (m : Machine) (start : Nat) : List Nat :=
  let g := Graph.ofStates m.states
  (List.range g.size).filter fun v => v ∉ g.reachable start true

variable {m : Machine} {start v : Nat}

theorem mem_unreachedAt_iff (hstart : start < m.states.length) :
    v ∈ unreachedAt m start ↔ v < m.states.length ∧
      ¬ Relation.ReflTransGen ((Graph.ofStates m.states).Edge true)
        start v := by
  rw [unreachedAt, List.mem_filter, List.mem_range, Graph.size_ofStates,
    Graph.edge_ofStates, decide_eq_true_eq, Graph.mem_reachable_iff hstart]

theorem pairwise_unreachedAt : (unreachedAt m start).Pairwise (· < ·) :=
  List.pairwise_lt_range.filter _

/-- The list of unreachable states has a name for each of these positions. -/
theorem map_some_unreachable (hstart : start? m = some start) :
    (unreachable m).map some =
      (unreachedAt m start).map fun v => (m.states[v]?).map Entry.name := by
  rw [unreachable, hstart]
  simp only [List.map_map]
  refine List.map_congr_left fun v hv => ?_
  have hv : v < m.states.length := by
    rw [← Graph.size_ofStates]
    exact List.mem_range.mp (List.mem_of_mem_filter hv)
  rw [Function.comp_apply, Graph.name_ofStates_of_lt hv,
    List.getElem?_eq_getElem hv, Option.map_some]

/-- A walk marks exactly the nodes that a path of edges leads to. So the states
reported as unreachable are those, in the order of declaration, that no path
leads to from the first declaration of the start: never this one itself, and
always every later declaration of a name. -/
theorem reachable_exact (m : Machine) :
    (∀ start < m.states.length, ∀ followHandlers v,
      ((Graph.ofStates m.states).marks ((Graph.ofStates m.states).reachable
          start followHandlers))[v]? = some true ↔
        Relation.ReflTransGen
          ((Graph.ofStates m.states).Edge followHandlers) start v) ∧
    ∀ a start, m.startAt = some a → States.index? m.states a = some start →
      ∃ positions : List Nat, positions.Pairwise (· < ·) ∧
        (unreachable m).map some =
          positions.map (fun v => (m.states[v]?).map Entry.name) ∧
        (∀ v, v ∈ positions ↔ v < m.states.length ∧
          ¬ Relation.ReflTransGen ((Graph.ofStates m.states).Edge true)
            start v) ∧
        start ∉ positions ∧
        ∀ v w d e, m.states[v]? = some d → m.states[w]? = some e → v < w →
          d.name = e.name → w ∈ positions := by
  refine ⟨fun start hstart _ _ => Graph.marks_reachable_iff hstart,
    fun a start ha hindex => ?_⟩
  have hstart := States.lt_length_of_index? hindex
  refine ⟨unreachedAt m start, pairwise_unreachedAt,
    map_some_unreachable (start?_eq_some_iff.mpr ⟨a, ha, hindex⟩),
    fun v => mem_unreachedAt_iff hstart, ?_, ?_⟩
  · rw [mem_unreachedAt_iff hstart]
    exact fun h => h.2 .refl
  · intro v w d e hd he hvw hname
    rw [mem_unreachedAt_iff hstart]
    exact ⟨(List.getElem?_eq_some_iff.mp he).1,
      Graph.not_reaches_of_later hindex hd he hvw hname⟩

end Termination

/-- A scope that declares the name of its start twice. -/
def Machine.doubled : Machine where
  startAt := some "Work"
  states := [
    ⟨"Work", .task {
      catchers := [.matching ["States.ALL"] "Rescue"]
      transition := some .finish }⟩,
    ⟨"Rescue", .pass { transition := some (.next "Work") }⟩,
    ⟨"Work", .succeed {}⟩,
    ⟨"Idle", .pass { transition := some (.next "Work") }⟩]

/-- An edge that catches errors is a way to another state, and the name of the
start is reported for its second declaration. -/
theorem Termination.reachable_exact_doubled :
    0 < Machine.doubled.states.length ∧
      Relation.ReflTransGen
        ((Graph.ofStates Machine.doubled.states).Edge true) 0 1 ∧
      ¬ Relation.ReflTransGen
        ((Graph.ofStates Machine.doubled.states).Edge false) 0 1 ∧
      Machine.doubled.startAt = some "Work" ∧
      States.index? Machine.doubled.states "Work" = some 0 ∧
      unreachable .doubled = ["Work", "Idle"] ∧
      ∃ positions : List Nat, positions.Pairwise (· < ·) ∧
        (unreachable .doubled).map some =
          positions.map
            (fun v => (Machine.doubled.states[v]?).map Entry.name) ∧
        0 ∉ positions ∧ 2 ∈ positions := by
  have hlt : 0 < Machine.doubled.states.length := by decide
  have hindex : States.index? Machine.doubled.states "Work" = some 0 := rfl
  obtain ⟨hmarks, hlist⟩ := reachable_exact .doubled
  have hcatch := (hmarks 0 hlt true 1).mp (by decide +kernel)
  have hnext := mt (hmarks 0 hlt false 1).mpr (by decide +kernel)
  obtain ⟨positions, hsorted, hnames, -, hstart, hlater⟩ :=
    hlist "Work" 0 rfl hindex
  exact ⟨hlt, hcatch, hnext, rfl, hindex, by decide +kernel, positions,
    hsorted, hnames, hstart, hlater 0 2 _ _ rfl rfl (by decide) rfl⟩

end Workflow

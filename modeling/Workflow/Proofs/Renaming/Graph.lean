import Workflow.Proofs.Course
import Workflow.Proofs.Renaming.Checks

/-!
# Walks do not read names

Names are turned into positions when the graph of a scope is built, and from
there on the analysis has to do with positions only. So the graph of a renamed
scope is the same graph with other names at its nodes, all walks through it are
the same, and a node that is reported is reported under its new name.
-/

namespace Workflow

namespace Graph

/-- The graph with other names at its nodes. -/
def rename (f : String → String) (g : Graph) : Graph :=
  ⟨g.nodes.map fun n => { n with name := f n.name }⟩

variable (f : String → String) (g : Graph)

theorem course_rename : (g.rename f).course = g.course := by
  rw [course, rename, List.map_map]
  rfl

theorem handlers_rename : (g.rename f).handlers = g.handlers := by
  funext v
  rw [handlers, handlers, rename, List.getElem?_map]
  cases g.nodes[v]? <;> rfl

theorem name_rename (hempty : f "" = "") :
    (g.rename f).name = fun v => f (g.name v) := by
  funext v
  rw [name, name, rename, List.getElem?_map]
  cases g.nodes[v]? with
  | none => exact hempty.symm
  | some n => rfl

theorem reachable_rename :
    (g.rename f).reachable = g.reachable := by
  funext start followHandlers
  have hcourse := course_rename f g
  simp only [reachable, successors_congr hcourse, handlers_rename,
    size_congr hcourse]

end Graph

theorem State.isTerminal_rename {f : String → String} (s : State) :
    (s.rename f).isTerminal = s.isTerminal := by
  have hplain : ∀ t : Option Transition,
      (t.map (Transition.rename f) == some .finish) = (t == some .finish) := by
    intro t
    rcases t with _ | _ | _ <;> rfl
  cases s with
  | pass s => exact hplain _
  | task s => exact hplain _
  | wait s => exact hplain _
  | parallel s => cases s; exact hplain _
  | choice s => rfl
  | succeed s => rfl
  | fail s => rfl

theorem State.isBranching_rename {f : String → String} (s : State) :
    (s.rename f).isBranching = s.isBranching := by
  cases s <;> rfl

namespace Relabelling

variable (r : Relabelling) (l : Location)

theorem index?_rename (states : States) (a : String) :
    States.index? (states.map (Entry.rename r.name)) (r.name a) =
      states.index? a := by
  have hname : ∀ e : Entry,
      ((e.rename r.name).name == r.name a) = (e.name == a) := by
    intro e
    rw [Bool.eq_iff_iff, beq_iff_eq, beq_iff_eq]
    exact r.injective.eq_iff
  rw [States.index?, List.findIdx?_map, States.index?]
  simp only [Function.comp_def, hname]

theorem ofStates_rename (states : States) :
    Graph.ofStates (states.map (Entry.rename r.name)) =
      (Graph.ofStates states).rename r.name := by
  have htargets : ∀ targets : List String,
      (targets.map r.name).filterMap
          (States.index? (states.map (Entry.rename r.name))) =
        targets.filterMap states.index? := by
    intro targets
    rw [List.filterMap_map]
    simp only [Function.comp_def, index?_rename]
  have hnode : ∀ e : Entry,
      Graph.node (states.map (Entry.rename r.name)) (e.rename r.name) =
        { Graph.node states e with name := r.name e.name } := by
    intro e
    simp only [Graph.node, Entry.rename, State.nextTargets_rename,
      State.catchTargets_rename, htargets, State.isTerminal_rename,
      State.isBranching_rename]
  rw [Graph.ofStates, Graph.ofStates, Graph.rename, List.map_map,
    List.map_map]
  simp only [Function.comp_def, hnode]
  rfl

theorem start?_rename (m : Machine) :
    Termination.start? (m.rename r.name) = Termination.start? m := by
  rw [Termination.start?, Termination.start?, Machine.startAt_rename,
    Machine.states_rename]
  cases m.startAt with
  | none => rfl
  | some a => exact r.index?_rename m.states a

/-- The problem of a scope that cannot end is not about a name. -/
theorem rename_problemAt (f : String → String) (style : Diagnostics)
    (g : Graph) (start : Nat) :
    (Termination.problemAt style g start).2.rename f =
      (Termination.problemAt style g start).2 := by
  cases style with
  | unified => rfl
  | split =>
      rw [Termination.problemAt]
      cases g.cycleHead? start <;> rfl

theorem verdict_checkTermination (style : Diagnostics) (m : Machine) :
    r.verdict (Termination.check style l m) =
      Termination.check style (r.place l) (m.rename r.name) := by
  rw [Termination.check, Termination.check, start?_rename,
    Machine.states_rename, ofStates_rename]
  cases Termination.start? m with
  | none => rfl
  | some start =>
      have hcourse := Graph.course_rename r.name (Graph.ofStates m.states)
      simp only [Graph.mem_terminating_congr hcourse,
        Graph.problemAt_congr hcourse, Graph.name_rename _ _ r.name_empty]
      split
      · rfl
      · rw [verdict_reject, place_state, rename_problemAt]

theorem unreachable_rename (m : Machine) :
    Termination.unreachable (m.rename r.name) =
      (Termination.unreachable m).map r.name := by
  rw [Termination.unreachable, Termination.unreachable, start?_rename,
    Machine.states_rename, ofStates_rename]
  cases Termination.start? m with
  | none => rfl
  | some start =>
      simp only [Graph.reachable_rename,
        Graph.size_congr (Graph.course_rename _ _), List.map_map,
        Function.comp_def, Graph.name_rename _ _ r.name_empty]

theorem verdict_checkReachable (m : Machine) :
    r.verdict (Termination.checkReachable l m) =
      Termination.checkReachable (r.place l) (m.rename r.name) := by
  rw [Termination.checkReachable, Termination.checkReachable,
    unreachable_rename]
  cases Termination.unreachable m with
  | nil => rfl
  | cons a rest =>
      change r.verdict (.reject _ _) = .reject _ _
      rw [verdict_reject, place_state]
      rfl

end Relabelling

end Workflow

import Mathlib.Order.Bounds.Defs
import Workflow.Proofs.Tables.QueueWalk

/-!
# The tables of a scope stand for its graph

What has been shown of the filling and of the walks is put together here. The
tables that a scope is laid out in have an entry for each declaration and rows
that stay within them, at both of its ends an edge is counted alike, and a name
leads to its first declaration (`Sound`). Therefore no walk that starts at a
position of the scope asks for a row or a mark that is not there, and each comes
to what it comes to on the graph.
-/

namespace Workflow

namespace Tables

/-- The columns and rows of the tables are those of the graph, and its edges
stay within it. -/
structure Shows (g : Graph) (t : Tables) : Prop where
  names : t.names = column g.size g.name
  branching : ∀ v < g.size, t.isBranching? v = some (g.isBranching v)
  terminal : t.terminal = column g.size g.isTerminal
  successors : t.successors = column g.size g.successors
  predecessors : t.predecessors = column g.size g.predecessors
  handlers : t.handlers = column g.size g.handlers
  successors_lt : ∀ v, ∀ w ∈ g.successors v, w < g.size
  handlers_lt : ∀ v, ∀ w ∈ g.handlers v, w < g.size

variable {states : States} {g : Graph} {t : Tables} {start v : Nat}

theorem backRows_eq :
    backRows states states State.nextTargets =
      (Graph.ofStates states).predecessors := by
  funext v
  simp only [backRows, Graph.predecessors, Graph.ofStates, List.zipIdx_map,
    List.flatMap_map]
  rfl

theorem eq_column_of_toList {α : Type} {xs : Array α} {p : Entry → α}
    {f : Nat → α} (h : xs.toList = states.map p)
    (hf : ∀ v, ∀ e, states[v]? = some e → f v = p e) :
    xs = column states.length f := by
  refine eq_column ?_ fun v hv => ?_
  · rw [← Array.length_toList, h, List.length_map]
  · rw [← Array.getElem?_toList, h, List.getElem?_map,
      List.getElem?_eq_getElem hv, Option.map_some,
      hf v states[v] (List.getElem?_eq_getElem hv)]

theorem Entered.shows (h : Entered states states t) :
    Shows (Graph.ofStates states) t where
  names := by
    rw [Graph.size_ofStates]
    refine eq_column_of_toList h.names fun v e he => ?_
    rw [Graph.name, Graph.getElem?_ofStates, he]
    rfl
  branching := by
    intro v hv
    rw [Graph.size_ofStates] at hv
    rw [isBranching?, ← Array.getElem?_toList, h.kinds, Graph.isBranching,
      Graph.getElem?_ofStates, List.getElem?_map, List.getElem?_eq_getElem hv]
    cases hstate : states[v].state <;>
      simp [Graph.node, hstate, State.kind, State.isBranching]
  terminal := by
    rw [Graph.size_ofStates]
    refine eq_column_of_toList h.terminal fun v e he => ?_
    rw [Graph.isTerminal, Graph.getElem?_ofStates, he]
    rfl
  successors := by
    rw [Graph.size_ofStates, Graph.successors_ofStates]
    exact h.successors
  predecessors := by
    rw [Graph.size_ofStates, ← backRows_eq]
    exact h.predecessors
  handlers := by
    rw [Graph.size_ofStates, Graph.handlers_ofStates]
    exact h.handlers
  successors_lt := by
    rw [Graph.size_ofStates, Graph.successors_ofStates]
    exact Graph.lt_length_of_mem_edges
  handlers_lt := by
    rw [Graph.size_ofStates, Graph.handlers_ofStates]
    exact Graph.lt_length_of_mem_edges

/-! ## Walks -/

theorem select?_eq {test? : Nat → Option Bool} {p : Nat → Bool}
    {vs : List Nat} (h : ∀ v ∈ vs, test? v = some (p v)) :
    select? test? vs = some (vs.filter p) := by
  induction vs with
  | nil => rfl
  | cons v vs ih =>
      rw [List.forall_mem_cons] at h
      rw [select?, h.1, ih h.2, List.filter_cons]
      rfl

theorem anyM_eq {test? : Nat → Option Bool} {p : Nat → Bool} {vs : List Nat}
    (h : ∀ v ∈ vs, test? v = some (p v)) :
    vs.anyM test? = some (vs.any p) := by
  induction vs with
  | nil => rfl
  | cons v vs ih =>
      rw [List.forall_mem_cons] at h
      rw [List.anyM, h.1, List.any_cons]
      cases p v with
      | true => rfl
      | false => exact ih h.2

theorem predecessors_lt (v : Nat) : ∀ w ∈ g.predecessors v, w < g.size :=
  fun _ hw => Graph.lt_size_of_mem_successors (Graph.mem_predecessors_iff.mp hw)

theorem toArray_marks (set : List Nat) :
    (g.marks set).toArray = column g.size fun v => decide (v ∈ set) := by
  refine eq_column (by simp [Graph.marks]) fun v hv => ?_
  simp [Graph.marks, hv]

namespace Shows

variable (h : Shows g t)
include h

theorem size_eq : t.size = g.size := by
  rw [size, h.names, size_column]

theorem terminating?_eq :
    t.terminating? = some (g.marks g.terminating).toArray := by
  have hselect : select? (fun v => t.terminal[v]?) (List.range t.size) =
      some g.terminals := by
    rw [h.size_eq, h.terminal]
    exact select?_eq fun v hv => getElem?_column (List.mem_range.mp hv)
  rw [terminating?, hselect, toArray_marks, h.terminal, h.size_eq]
  refine drain?_eq (fun v hv => ?_) predecessors_lt size_column (fun v => ?_)
    (unmarked_column g.isTerminal).le
  · rw [h.predecessors, getElem?_column hv]
  · rw [Graph.terminals, List.mem_filter, List.mem_range]
    constructor
    · intro hv
      exact lt_of_getElem?_column hv
    · intro hv
      rw [Marked, getElem?_column hv.1, hv.2]

theorem reachable?_eq (hstart : start < g.size) (followHandlers : Bool) :
    t.reachable? start followHandlers =
      some (g.marks (g.reachable start followHandlers)).toArray := by
  have hsize : start < (Array.replicate g.size false).size := by
    rw [Array.size_replicate]
    exact hstart
  rw [reachable?, h.size_eq, mark?_eq hsize, toArray_marks]
  refine drain?_eq (fun v hv => ?_) (fun v w hw => ?_) (by simp) (fun v => ?_)
    ?_
  · rw [next?, h.successors, h.handlers]
    cases followHandlers <;> simp [getElem?_column hv]
  · rcases List.mem_append.mp hw with hw | hw
    · exact h.successors_lt v w hw
    · cases followHandlers with
      | true => exact h.handlers_lt v w hw
      | false => cases hw
  · rw [marked_set_iff hsize, List.mem_singleton,
      or_iff_left not_marked_replicate]
  · exact ((unmarked_set hsize not_marked_replicate).trans
      unmarked_replicate).le

/-- The walk along the first edges meets no more nodes than there are without a
mark, and the steps that are left suffice for them. -/
theorem firstRepeat?_eq {steps : Nat} {seen : Array Bool} {visited : List Nat}
    (hsize : seen.size = g.size) (hv : v < g.size)
    (hseen : ∀ u, Marked seen u ↔ u ∈ visited)
    (hsteps : unmarked seen < steps) :
    t.firstRepeat? steps seen v = some (g.firstRepeat? steps visited v) := by
  induction steps generalizing seen visited v with
  | zero => exact absurd hsteps (Nat.not_lt_zero _)
  | succ steps ih =>
      rw [firstRepeat?, Graph.firstRepeat?]
      by_cases hmark : Marked seen v
      · rw [hmark, if_pos ((hseen v).mp hmark)]
        rfl
      · have hv' : v < seen.size := hsize ▸ hv
        have hset := unmarked_set hv' hmark
        rw [getElem?_of_not_marked hv' hmark, mark?_eq hv',
          if_neg fun hmem => hmark ((hseen v).mpr hmem), h.successors,
          getElem?_column hv]
        cases hnext : g.successors v with
        | nil => rfl
        | cons w ws =>
            have hw : w < g.size := h.successors_lt v w (by simp [hnext])
            refine ih (by simpa using hsize) hw (fun u => ?_) (by omega)
            rw [marked_set_iff hv', List.mem_cons, hseen]

theorem anyM_branchesAmong?_eq (set : List Nat) :
    (List.range g.size).anyM (t.branchesAmong? (g.marks set).toArray) =
      some (set.any g.isBranching) := by
  have hbranches (v : Nat) (hv : v ∈ List.range g.size) :
      t.branchesAmong? (g.marks set).toArray v =
        some (decide (v ∈ set) && g.isBranching v) := by
    rw [List.mem_range] at hv
    rw [branchesAmong?, toArray_marks, getElem?_column hv, h.branching v hv]
    cases decide (v ∈ set) <;> rfl
  rw [anyM_eq hbranches, Option.some_inj, Bool.eq_iff_iff, List.any_eq_true,
    List.any_eq_true]
  simp only [List.mem_range, Bool.and_eq_true, decide_eq_true_eq]
  constructor
  · intro hany
    obtain ⟨v, -, hv⟩ := hany
    exact ⟨v, hv⟩
  · intro hany
    obtain ⟨v, hv⟩ := hany
    exact ⟨v, Graph.lt_size_of_isBranching hv.2, hv⟩

theorem cycleHead?_eq (hstart : start < g.size) :
    t.cycleHead? start = some (g.cycleHead? start) := by
  have hrepeat : t.firstRepeat? (g.size + 1) (Array.replicate g.size false)
      start = some (g.firstRepeat? (g.size + 1) [] start) :=
    h.firstRepeat?_eq Array.size_replicate hstart
      (fun u => iff_of_false not_marked_replicate List.not_mem_nil)
      (by rw [unmarked_replicate]; exact Nat.lt_succ_self _)
  rw [cycleHead?, h.reachable?_eq hstart, Graph.cycleHead?, h.size_eq,
    hrepeat]
  simp only [Option.bind_eq_bind, Option.bind_some, h.anyM_branchesAmong?_eq]
  split <;> rfl

theorem problemAt?_eq (hstart : start < g.size) (style : Diagnostics) :
    problemAt? style t start = some (Termination.problemAt style g start) := by
  cases style with
  | unified => rfl
  | split =>
      rw [problemAt?, h.cycleHead?_eq hstart, Termination.problemAt]
      simp only [Option.bind_eq_bind, Option.bind_some]
      cases g.cycleHead? start <;> rfl

end Shows

/-! ## Checks -/

theorem lt_size_of_cycleHead? (h : g.cycleHead? start = some v) :
    v < g.size := by
  rw [Graph.cycleHead?] at h
  split at h
  · cases h
  · obtain ⟨-, hcycle⟩ := Graph.walk_of_firstRepeat? (by simp) h
    obtain ⟨w, hw, -⟩ := Relation.TransGen.head'_iff.mp hcycle
    exact Graph.lt_size_of_mem_successors hw

theorem lt_size_of_problemAt (hstart : start < g.size) (style : Diagnostics) :
    (Termination.problemAt style g start).1 < g.size := by
  cases style with
  | unified => exact hstart
  | split =>
      rw [Termination.problemAt]
      cases hcycle : g.cycleHead? start with
      | none => exact hstart
      | some v => exact lt_size_of_cycleHead? hcycle

theorem Entered.start?_eq {m : Machine} (h : Entered m.states m.states t) :
    t.start? m = Termination.start? m := by
  rw [start?, Termination.start?]
  exact congrArg _ (funext h.index)

theorem lt_size_of_start? {m : Machine}
    (h : Termination.start? m = some start) :
    start < (Graph.ofStates m.states).size := by
  obtain ⟨a, -, hindex⟩ := Termination.start?_eq_some_iff.mp h
  rw [Graph.size_ofStates]
  exact States.lt_length_of_index? hindex

/-- On tables the check of termination comes to the same. -/
theorem check?_eq (style : Diagnostics) (location : Location) (m : Machine) :
    check? style location m = some (Termination.check style location m) := by
  obtain ⟨t, hbuild, hentered⟩ := exists_build? m.states
  have h := hentered.shows
  rw [check?, hbuild, Termination.check]
  simp only [Option.bind_eq_bind, Option.bind_some, hentered.start?_eq]
  cases hm : Termination.start? m with
  | none => rfl
  | some start =>
      have hlt := lt_size_of_start? hm
      simp only [h.terminating?_eq, h.problemAt?_eq hlt, h.names,
        Option.bind_some, toArray_marks, getElem?_column hlt,
        getElem?_column (lt_size_of_problemAt hlt style)]
      by_cases hends : start ∈ (Graph.ofStates m.states).terminating
      · rw [if_pos hends, if_pos (decide_eq_true hends)]
        rfl
      · rw [if_neg hends, if_neg (by simpa using hends)]
        rfl

theorem mapM_eq {f : Nat → Option String} {name : Nat → String}
    {vs : List Nat} (h : ∀ v ∈ vs, f v = some (name v)) :
    vs.mapM f = some (vs.map name) := by
  induction vs with
  | nil => rfl
  | cons v vs ih =>
      rw [List.forall_mem_cons] at h
      rw [List.mapM_cons, h.1, ih h.2]
      rfl

/-- On tables the list of unreachable states comes to the same. -/
theorem unreachable?_eq (m : Machine) :
    unreachable? m = some (Termination.unreachable m) := by
  obtain ⟨t, hbuild, hentered⟩ := exists_build? m.states
  have h := hentered.shows
  rw [unreachable?, hbuild, Termination.unreachable]
  simp only [Option.bind_eq_bind, Option.bind_some, hentered.start?_eq]
  cases hm : Termination.start? m with
  | none => rfl
  | some start =>
      simp only [h.reachable?_eq (lt_size_of_start? hm), Option.bind_some,
        toArray_marks, h.size_eq]
      rw [select?_eq (p := fun v => decide (v ∉
        (Graph.ofStates m.states).reachable start true)), Option.bind_some]
      · refine mapM_eq fun v hv => ?_
        rw [h.names]
        exact getElem?_column (List.mem_range.mp (List.mem_filter.mp hv).1)
      · intro v hv
        rw [getElem?_column (List.mem_range.mp hv), Option.map_some, decide_not]

/-! ## The representation -/

/-- What holds of the tables of a scope, whatever names it declares and
whatever targets it has. -/
structure Sound (states : States) (t : Tables) : Prop where
  /-- There is an entry for each declaration. -/
  sizes : t.names.size = states.length ∧ t.kinds.size = states.length ∧
    t.terminal.size = states.length ∧ t.successors.size = states.length ∧
    t.predecessors.size = states.length ∧ t.handlers.size = states.length
  /-- The rows hold positions of declarations. -/
  rows_lt : ∀ row, row ∈ t.successors ∨ row ∈ t.predecessors ∨
    row ∈ t.handlers → ∀ v ∈ row, v < states.length
  /-- As often as one node leads to another, it is entered there. -/
  transposed : ∀ (u v : Nat) (out into : List Nat),
    t.successors[u]? = some out → t.predecessors[v]? = some into →
      out.count v = into.count u
  /-- The position of a name is the least with an entry of this name. -/
  index : ∀ (name : String) (v : Nat), t.index[name]? = some v ↔
    IsLeast {u | ∃ e : Entry, states[u]? = some e ∧ e.name = name} v
  /-- A name stands for the state at its position. -/
  state : ∀ (name : String) (v : Nat), t.index[name]? = some v →
    ∃ e, states[v]? = some e ∧ states.get? name = some e.state

theorem lt_of_mem_column {n : Nat} {f : Nat → List Nat}
    (hf : ∀ v, ∀ w ∈ f v, w < n) {row : List Nat} (hrow : row ∈ column n f) :
    ∀ v ∈ row, v < n := by
  obtain ⟨u, hu⟩ := Array.mem_iff_getElem?.mp hrow
  obtain ⟨-, rfl⟩ := lt_of_getElem?_column hu
  exact hf u

theorem isLeast_iff_index? {a : String} :
    IsLeast {u | ∃ e : Entry, states[u]? = some e ∧ e.name = a} v ↔
      states.index? a = some v := by
  rw [States.index?_eq_some_iff]
  constructor
  · intro h
    obtain ⟨⟨e, he, hname⟩, hleast⟩ := h
    obtain ⟨hv, rfl⟩ := List.getElem?_eq_some_iff.mp he
    refine ⟨hv, hname, fun u hu heq => ?_⟩
    have hle := hleast ⟨states[u], List.getElem?_eq_getElem _, heq⟩
    omega
  · intro h
    obtain ⟨hv, hname, hfirst⟩ := h
    refine ⟨⟨states[v], List.getElem?_eq_getElem hv, hname⟩, fun u hu => ?_⟩
    obtain ⟨e, he, heq⟩ := hu
    obtain ⟨_, rfl⟩ := List.getElem?_eq_some_iff.mp he
    by_contra hlt
    exact hfirst u (by omega) heq

theorem Entered.sound (h : Entered states states t) : Sound states t where
  sizes := by
    simp only [← Array.length_toList, h.names, h.kinds, h.terminal]
    simp [h.successors, h.predecessors, h.handlers]
  rows_lt := by
    rw [h.shows.successors, h.shows.predecessors, h.shows.handlers,
      ← Graph.size_ofStates states]
    rintro row (hrow | hrow | hrow)
    · exact lt_of_mem_column h.shows.successors_lt hrow
    · exact lt_of_mem_column predecessors_lt hrow
    · exact lt_of_mem_column h.shows.handlers_lt hrow
  transposed := by
    intro u v out into hout hinto
    rw [h.successors] at hout
    rw [h.predecessors] at hinto
    obtain ⟨-, rfl⟩ := lt_of_getElem?_column hout
    obtain ⟨-, rfl⟩ := lt_of_getElem?_column hinto
    exact count_rows u v
  index := by
    intro a v
    rw [h.index, isLeast_iff_index?]
  state := by
    intro a v hv
    rw [h.index] at hv
    have hlt := States.lt_length_of_index? hv
    refine ⟨states[v], List.getElem?_eq_getElem hlt, ?_⟩
    rw [States.get?_of_index? hv, List.getElem?_eq_getElem hlt]
    rfl

/-- Every scope can be laid out in tables, and they are sound. On them the walks
from a position of the index come to what they come to on the graph, so that
they ask for nothing that is not there, and neither does what is reported. -/
theorem sound_tables (states : States) :
    ∃ t, build? states = some t ∧ Sound states t ∧
      (∀ (name : String) (start : Nat), t.index[name]? = some start →
        let g := Graph.ofStates states
        t.terminating? = some (g.marks g.terminating).toArray ∧
          (∀ followHandlers, t.reachable? start followHandlers =
            some (g.marks (g.reachable start followHandlers)).toArray) ∧
          t.cycleHead? start = some (g.cycleHead? start)) ∧
      ∀ m : Machine, m.states = states →
        unreachable? m = some (Termination.unreachable m) ∧
          ∀ style location, check? style location m =
            some (Termination.check style location m) := by
  obtain ⟨t, hbuild, h⟩ := exists_build? states
  refine ⟨t, hbuild, h.sound, fun name start hstart => ?_, ?_⟩
  · rw [h.index] at hstart
    have hlt : start < (Graph.ofStates states).size := by
      rw [Graph.size_ofStates]
      exact States.lt_length_of_index? hstart
    exact ⟨h.shows.terminating?_eq, h.shows.reachable?_eq hlt,
      h.shows.cycleHead?_eq hlt⟩
  · rintro m -
    exact ⟨unreachable?_eq m, fun style location => check?_eq style location m⟩

end Tables

end Workflow

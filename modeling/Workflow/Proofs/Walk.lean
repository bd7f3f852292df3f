import Workflow.Proofs.FirstViolation
import Workflow.Proofs.Lookup
import Workflow.Proofs.Spread
import Workflow.Termination

/-!
# Walks through a scope

What control can do in a scope is a walk from name to name: a step goes from a
declared state to a declared target. The analysis works on positions instead,
with lists of edges, a forward walk and a backward walk. This file says what a
walk is without either, and proves that the analysis computes it: the backward
walk finds exactly the states from which the scope can end (`canEnd_iff`), the
forward walk exactly those that can be reached (`mem_reachable_iff`), and the
node reported for a circle lies on one (`exists_cycle_of_cycleHead?`).

No distinctness of names is assumed until unreachable states are named: an
edge always leads to the first declaration of its target, so a walk never
meets a later one.
-/

namespace Workflow

namespace State

/-- The scope may end with this state: it succeeds or fails, or its transition
ends the scope. -/
def Final (s : State) : Prop :=
  s.kind = .succeed ∨ s.kind = .fail ∨ s.transition = some .finish

/-- The state may fan out: it is a Choice or a Parallel state. -/
def Branching (s : State) : Prop := s.kind = .choice ∨ s.kind = .parallel

theorem isTerminal_iff {s : State} : s.isTerminal = true ↔ s.Final := by
  cases s <;> simp [isTerminal, Final, kind, transition]

theorem isBranching_iff {s : State} : s.isBranching = true ↔ s.Branching := by
  cases s <;> simp [isBranching, Branching, kind]

end State

namespace States

/-- Control may pass from the state of the first name to that of the second,
which is among its targets of the given sort and declared. -/
def Step (states : States) (targets : State → List String)
    (a b : String) : Prop :=
  ∃ s, states.get? a = some s ∧ b ∈ targets s ∧ b ∈ names states

/-- Control may come from the state of the first name to that of the second,
in any number of steps. -/
def Reaches (states : States) (targets : State → List String) :
    String → String → Prop :=
  Relation.ReflTransGen (Step states targets)

/-- From the state of this name, the scope can end in the ordinary course. -/
def CanEnd (states : States) (a : String) : Prop :=
  ∃ b s, Reaches states State.nextTargets a b ∧ states.get? b = some s ∧
    s.Final

variable {states : States} {targets : State → List String} {a b : String}

theorem Step.mem_names (h : Step states targets a b) :
    a ∈ names states ∧ b ∈ names states := by
  obtain ⟨s, hs, -, hb⟩ := h
  obtain ⟨i, hi, -⟩ := get?_eq_some_iff.mp hs
  exact ⟨mem_names_of_index? hi, hb⟩

theorem Reaches.mem_names (h : Reaches states targets a b)
    (ha : a ∈ names states) : b ∈ names states := by
  rcases Relation.ReflTransGen.cases_tail h with rfl | ⟨_, -, hstep⟩
  · exact ha
  · exact hstep.mem_names.2

theorem CanEnd.mem_names (h : CanEnd states a) : a ∈ names states := by
  obtain ⟨b, s, hab, hs, -⟩ := h
  rcases Relation.ReflTransGen.cases_head hab with rfl | ⟨_, hstep, -⟩
  · obtain ⟨i, hi, -⟩ := get?_eq_some_iff.mp hs
    exact mem_names_of_index? hi
  · exact hstep.mem_names.1

end States

namespace Graph

/-! ## Edges -/

/-- The nodes that targets of the given sort lead to from a node. -/
def edges (states : States) (targets : State → List String) (v : Nat) :
    List Nat :=
  (states[v]?).elim [] fun e => (targets e.state).filterMap states.index?

theorem mem_edges_iff {states : States} {targets : State → List String}
    {v w : Nat} :
    w ∈ edges states targets v ↔
      ∃ e, states[v]? = some e ∧
        ∃ b ∈ targets e.state, states.index? b = some w := by
  cases h : states[v]? <;> simp [edges, h, List.mem_filterMap]

theorem lt_length_of_mem_edges {states : States}
    {targets : State → List String} (v : Nat) :
    ∀ w ∈ edges states targets v, w < states.length := by
  intro w hw
  obtain ⟨_, _, _, _, hb⟩ := mem_edges_iff.mp hw
  exact States.lt_length_of_index? hb

theorem getElem?_ofStates (states : States) (v : Nat) :
    (ofStates states).nodes[v]? = (states[v]?).map (node states) := by
  simp [ofStates]

theorem successors_ofStates (states : States) :
    (ofStates states).successors = edges states State.nextTargets := by
  funext v
  rw [successors, getElem?_ofStates, edges]
  cases states[v]? <;> rfl

theorem handlers_ofStates (states : States) :
    (ofStates states).handlers = edges states State.catchTargets := by
  funext v
  rw [handlers, getElem?_ofStates, edges]
  cases states[v]? <;> rfl

theorem edges_targets (states : States) (v : Nat) :
    edges states State.targets v =
      edges states State.nextTargets v ++
        edges states State.catchTargets v := by
  cases h : states[v]? <;> simp [edges, h, State.targets_eq_append]

theorem isTerminal_ofStates {states : States} {v : Nat} :
    (ofStates states).isTerminal v = true ↔
      ∃ e, states[v]? = some e ∧ e.state.Final := by
  rw [isTerminal, getElem?_ofStates]
  cases states[v]? <;> simp [node, State.isTerminal_iff]

theorem isBranching_ofStates {states : States} {v : Nat} :
    (ofStates states).isBranching v = true ↔
      ∃ e, states[v]? = some e ∧ e.state.Branching := by
  rw [isBranching, getElem?_ofStates]
  cases states[v]? <;> simp [node, State.isBranching_iff]

theorem name_ofStates_of_lt {states : States} {v : Nat}
    (h : v < states.length) : (ofStates states).name v = states[v].name := by
  rw [name, getElem?_ofStates, List.getElem?_eq_getElem h]
  rfl

theorem name_ofStates {states : States} {v : Nat} {a : String}
    (h : states.index? a = some v) : (ofStates states).name v = a := by
  obtain ⟨hv, hname, -⟩ := States.index?_eq_some_iff.mp h
  rw [name_ofStates_of_lt hv, hname]

theorem mem_predecessors_iff {g : Graph} {u v : Nat} :
    u ∈ g.predecessors v ↔ v ∈ g.successors u := by
  simp only [predecessors, successors, List.mem_flatMap, List.mem_map,
    List.mem_filter, beq_iff_eq]
  constructor
  · intro h
    obtain ⟨⟨n, i⟩, hn, w, ⟨hw, rfl⟩, rfl⟩ := h
    rw [List.mem_zipIdx_iff_getElem?] at hn
    rw [hn]
    exact hw
  · intro hv
    cases hn : g.nodes[u]? with
    | none => rw [hn] at hv; cases hv
    | some n =>
        rw [hn] at hv
        exact ⟨⟨n, u⟩, List.mem_zipIdx_iff_getElem?.mpr hn, v, ⟨hv, rfl⟩, rfl⟩

theorem lt_size_of_mem_successors {g : Graph} {u v : Nat}
    (h : v ∈ g.successors u) : u < g.size := by
  rw [successors] at h
  by_contra hu
  rw [List.getElem?_eq_none (Nat.le_of_not_lt hu)] at h
  cases h

theorem lt_size_of_isTerminal {g : Graph} {v : Nat}
    (h : g.isTerminal v = true) : v < g.size := by
  rw [isTerminal] at h
  by_contra hv
  rw [List.getElem?_eq_none (Nat.le_of_not_lt hv)] at h
  cases h

theorem lt_size_of_isBranching {g : Graph} {v : Nat}
    (h : g.isBranching v = true) : v < g.size := by
  rw [isBranching] at h
  by_contra hv
  rw [List.getElem?_eq_none (Nat.le_of_not_lt hv)] at h
  cases h

theorem getElem?_marks_eq_true_iff {g : Graph} {set : List Nat} {v : Nat} :
    (g.marks set)[v]? = some true ↔ v < g.size ∧ v ∈ set := by
  rw [marks, List.getElem?_map, Option.map_eq_some_iff]
  simp [List.getElem?_eq_some_iff]

/-! ## The two walks -/

theorem mem_terminating_iff {g : Graph} {v : Nat} :
    v ∈ g.terminating ↔
      ∃ t, Relation.ReflTransGen (fun a b => b ∈ g.successors a) v t ∧
        t < g.size ∧ g.isTerminal t = true := by
  have hbound : ∀ u, ∀ w ∈ g.predecessors u, w < g.size :=
    fun u w hw => lt_size_of_mem_successors (mem_predecessors_iff.mp hw)
  have hterminals : ∀ t, t ∈ g.terminals ↔ t < g.size ∧ g.isTerminal t := by
    simp [terminals]
  rw [terminating, mem_spread_iff (fun t ht => ((hterminals t).mp ht).1) hbound]
  simp only [hterminals, mem_predecessors_iff]
  constructor
  · intro h
    obtain ⟨t, ht, htv⟩ := h
    exact ⟨t, Relation.reflTransGen_swap.mp htv, ht⟩
  · intro h
    obtain ⟨t, hvt, ht⟩ := h
    exact ⟨t, ht, Relation.reflTransGen_swap.mpr hvt⟩

theorem mem_reachable_iff {states : States} {start v : Nat}
    {followHandlers : Bool} (hstart : start < states.length) :
    v ∈ (ofStates states).reachable start followHandlers ↔
      Relation.ReflTransGen
        (fun a b => b ∈ edges states
          (if followHandlers then State.targets else State.nextTargets) a)
        start v := by
  have hnext : (fun v => (ofStates states).successors v ++
      if followHandlers then (ofStates states).handlers v else []) =
      edges states
        (if followHandlers then State.targets else State.nextTargets) := by
    funext u
    rw [successors_ofStates, handlers_ofStates]
    cases followHandlers <;> simp [edges_targets]
  rw [reachable, hnext, size_ofStates,
    mem_spread_iff (by simpa using hstart) lt_length_of_mem_edges]
  simp

/-! ## Names for positions -/

/-- From the position of a name, an edge leads to the position of a name that
is one step away, and conversely. -/
theorem mem_edges_iff_step {states : States} {targets : State → List String}
    {a : String} {v w : Nat} (ha : states.index? a = some v) :
    w ∈ edges states targets v ↔
      ∃ b, States.Step states targets a b ∧ states.index? b = some w := by
  have hget := States.get?_of_index? ha
  rw [mem_edges_iff]
  constructor
  · intro h
    obtain ⟨e, he, b, hb, hw⟩ := h
    rw [he] at hget
    exact ⟨b, ⟨e.state, hget, hb, States.mem_names_of_index? hw⟩, hw⟩
  · intro h
    obtain ⟨b, ⟨s, hs, hb, -⟩, hw⟩ := h
    rw [hget, Option.map_eq_some_iff] at hs
    obtain ⟨e, he, rfl⟩ := hs
    exact ⟨e, he, b, hb, hw⟩

theorem exists_reaches_of_walk {states : States}
    {targets : State → List String} {a : String} {v w : Nat}
    (ha : states.index? a = some v)
    (h : Relation.ReflTransGen (fun x y => y ∈ edges states targets x) v w) :
    ∃ b, States.Reaches states targets a b ∧ states.index? b = some w := by
  induction h with
  | refl => exact ⟨a, .refl, ha⟩
  | tail _ hw ih =>
      obtain ⟨b, hab, hb⟩ := ih
      obtain ⟨c, hbc, hc⟩ := (mem_edges_iff_step hb).mp hw
      exact ⟨c, hab.tail hbc, hc⟩

theorem exists_walk_of_reaches {states : States}
    {targets : State → List String} {a b : String} {v : Nat}
    (ha : states.index? a = some v) (h : States.Reaches states targets a b) :
    ∃ w, Relation.ReflTransGen (fun x y => y ∈ edges states targets x) v w ∧
      states.index? b = some w := by
  induction h with
  | refl => exact ⟨v, .refl, ha⟩
  | tail _ hstep ih =>
      obtain ⟨w, hvw, hw⟩ := ih
      obtain ⟨-, -, -, hmem⟩ := id hstep
      obtain ⟨x, hx⟩ := States.exists_index? hmem
      exact ⟨x, hvw.tail ((mem_edges_iff_step hw).mpr ⟨_, hstep, hx⟩), hx⟩

theorem walk_iff_reaches {states : States} {targets : State → List String}
    {a b : String} {v w : Nat} (ha : states.index? a = some v)
    (hb : states.index? b = some w) :
    Relation.ReflTransGen (fun x y => y ∈ edges states targets x) v w ↔
      States.Reaches states targets a b := by
  constructor
  · intro h
    obtain ⟨c, hac, hc⟩ := exists_reaches_of_walk ha h
    rw [States.eq_of_index?_eq hb hc]
    exact hac
  · intro h
    obtain ⟨x, hvx, hx⟩ := exists_walk_of_reaches ha h
    rw [hb] at hx
    injection hx with hx
    subst hx
    exact hvx

/-- Whether a state of some sort can be reached is the same for positions and
for names. -/
theorem exists_walk_iff {states : States} {targets : State → List String}
    {P : State → Prop} {a : String} {v : Nat} (ha : states.index? a = some v) :
    (∃ w, Relation.ReflTransGen (fun x y => y ∈ edges states targets x) v w ∧
        ∃ e, states[w]? = some e ∧ P e.state) ↔
      ∃ b s, States.Reaches states targets a b ∧ states.get? b = some s ∧
        P s := by
  constructor
  · intro h
    obtain ⟨w, hwalk, e, he, hP⟩ := h
    obtain ⟨b, hab, hb⟩ := exists_reaches_of_walk ha hwalk
    refine ⟨b, e.state, hab, ?_, hP⟩
    rw [States.get?_of_index? hb, he]
    rfl
  · intro h
    obtain ⟨b, s, hab, hs, hP⟩ := h
    obtain ⟨w, hwalk, hw⟩ := exists_walk_of_reaches ha hab
    rw [States.get?_of_index? hw, Option.map_eq_some_iff] at hs
    obtain ⟨e, he, rfl⟩ := hs
    exact ⟨w, hwalk, e, he, hP⟩

theorem canEnd_iff {states : States} {a : String} {start : Nat}
    (ha : states.index? a = some start) :
    start ∈ (ofStates states).terminating ↔ States.CanEnd states a := by
  rw [mem_terminating_iff, successors_ofStates, States.CanEnd,
    ← exists_walk_iff ha]
  refine exists_congr fun t => and_congr_right fun _ => ?_
  rw [isTerminal_ofStates]
  refine and_iff_right_of_imp fun h => ?_
  obtain ⟨e, he, -⟩ := h
  rw [size_ofStates]
  exact (List.getElem?_eq_some_iff.mp he).1

/-- Whether something reachable may fan out, by name. -/
theorem any_isBranching_iff {states : States} {a : String} {start : Nat}
    (ha : states.index? a = some start) :
    ((ofStates states).reachable start false).any
        (ofStates states).isBranching = true ↔
      ∃ c s, States.Reaches states State.nextTargets a c ∧
        states.get? c = some s ∧ s.Branching := by
  rw [List.any_eq_true, ← exists_walk_iff ha]
  simp only [mem_reachable_iff (States.lt_length_of_index? ha),
    isBranching_ofStates, Bool.false_eq_true, if_false]

/-! ## Circles

Following the first edge from node to node, every node met before leads to the
present one; so a node met for the second time lies on a circle. -/

theorem walk_of_firstRepeat? {g : Graph} :
    ∀ {steps : Nat} {visited : List Nat} {v w : Nat},
      (∀ u ∈ visited, Relation.TransGen (fun a b => b ∈ g.successors a) u v) →
      g.firstRepeat? steps visited v = some w →
      Relation.ReflTransGen (fun a b => b ∈ g.successors a) v w ∧
        Relation.TransGen (fun a b => b ∈ g.successors a) w w := by
  intro steps
  induction steps with
  | zero => intro visited v w _ h; cases h
  | succ steps ih =>
      intro visited v w hvisited h
      rw [firstRepeat?] at h
      split at h
      · next hv =>
          injection h with h
          subst h
          exact ⟨.refl, hvisited _ hv⟩
      · split at h
        · cases h
        · next x xs hsucc =>
            have hx : x ∈ g.successors v := by simp [hsucc]
            have hvisited' : ∀ u ∈ v :: visited,
                Relation.TransGen (fun a b => b ∈ g.successors a) u x := by
              intro u hu
              rcases List.mem_cons.mp hu with rfl | hu
              · exact .single hx
              · exact (hvisited u hu).tail hx
            obtain ⟨hxw, hww⟩ := ih hvisited' h
            exact ⟨.head hx hxw, hww⟩

/-- A reported circle is one that control is bound to run into: its node can
be reached, returns to itself, and nothing on the way can fan out. -/
theorem exists_cycle_of_cycleHead? {states : States} {a : String}
    {start w : Nat} (ha : states.index? a = some start)
    (h : Graph.cycleHead? (ofStates states) start = some w) :
    ∃ b, states.index? b = some w ∧
      States.Reaches states State.nextTargets a b ∧
      Relation.TransGen (States.Step states State.nextTargets) b b ∧
      ∀ c s, States.Reaches states State.nextTargets a c →
        states.get? c = some s → ¬ s.Branching := by
  rw [cycleHead?] at h
  split at h
  · cases h
  next hbranching =>
    obtain ⟨hwalk, hcycle⟩ := walk_of_firstRepeat? (by simp) h
    rw [successors_ofStates] at hwalk hcycle
    obtain ⟨b, hab, hb⟩ := exists_reaches_of_walk ha hwalk
    refine ⟨b, hb, hab, ?_, ?_⟩
    · obtain ⟨x, hwx, hxw⟩ := Relation.TransGen.head'_iff.mp hcycle
      obtain ⟨c, hbc, hc⟩ := (mem_edges_iff_step hb).mp hwx
      obtain ⟨d, hcd, hd⟩ := exists_reaches_of_walk hc hxw
      rw [States.eq_of_index?_eq hd hb] at hcd
      exact .head' hbc hcd
    · intro c s hac hs hbranch
      exact hbranching ((any_isBranching_iff ha).mpr ⟨c, s, hac, hs, hbranch⟩)

end Graph

namespace Termination

/-! ## The checks of a scope's walks -/

theorem start?_eq_some_iff {m : Machine} {v : Nat} :
    start? m = some v ↔
      ∃ a, m.startAt = some a ∧ States.index? m.states a = some v := by
  simp [start?, Option.bind_eq_some_iff]

/-- The check of termination accepts if and only if the scope can end from its
start, should its start be declared. -/
theorem check_eq_ok_iff {style : Diagnostics} {location : Location}
    {m : Machine} :
    check style location m = .ok () ↔
      ∀ a, m.startAt = some a → a ∈ States.names m.states →
        States.CanEnd m.states a := by
  rw [check]
  cases hstart : start? m with
  | none =>
      refine iff_of_true rfl fun a ha hmem => ?_
      obtain ⟨v, hv⟩ := States.exists_index? hmem
      rw [start?_eq_some_iff.mpr ⟨a, ha, hv⟩] at hstart
      cases hstart
  | some v =>
      obtain ⟨a, ha, hv⟩ := start?_eq_some_iff.mp hstart
      have hmem := States.mem_names_of_index? hv
      simp only [ha, Option.some.injEq]
      split
      · next hend =>
          have hend := (Graph.canEnd_iff hv).mp hend
          exact iff_of_true rfl fun b hb _ => hb ▸ hend
      · next hend =>
          refine iff_of_false (by simp [Verdict.reject]) fun h => ?_
          exact hend ((Graph.canEnd_iff hv).mpr (h a rfl hmem))

/-- What the check of termination reports: the start of a scope that cannot
end from there, or a state on the circle that it is bound to run into. -/
theorem of_check_error {style : Diagnostics} {location : Location}
    {m : Machine} {v : Violation} (h : check style location m = .error v) :
    ∃ a, m.startAt = some a ∧ a ∈ States.names m.states ∧
      ¬ States.CanEnd m.states a ∧
      (v = ⟨location.state a, .noTerminalPath⟩ ∨
        ∃ b, v = ⟨location.state b, .cycle⟩ ∧ style = .split ∧
          States.Reaches m.states State.nextTargets a b ∧
          Relation.TransGen (States.Step m.states State.nextTargets) b b ∧
          ∀ c s, States.Reaches m.states State.nextTargets a c →
            States.get? m.states c = some s → ¬ s.Branching) := by
  rw [check] at h
  cases hstart : start? m with
  | none =>
      rw [hstart] at h
      exact absurd h Verdict.accept_ne_error
  | some start =>
      obtain ⟨a, ha, hindex⟩ := start?_eq_some_iff.mp hstart
      rw [hstart] at h
      simp only [] at h
      split at h
      · exact absurd h Verdict.accept_ne_error
      next hend =>
        refine ⟨a, ha, States.mem_names_of_index? hindex,
          fun hcan => hend ((Graph.canEnd_iff hindex).mpr hcan), ?_⟩
        have hv := Verdict.eq_of_reject_error h
        cases style with
        | unified =>
            left
            rw [hv, problemAt, Graph.name_ofStates hindex]
        | split =>
            cases hcycle :
              Graph.cycleHead? (Graph.ofStates m.states) start with
            | none =>
                left
                simp only [problemAt, hcycle, Graph.name_ofStates hindex] at hv
                exact hv
            | some w =>
                right
                obtain ⟨b, hb, hspec⟩ :=
                  Graph.exists_cycle_of_cycleHead? hindex hcycle
                simp only [problemAt, hcycle, Graph.name_ofStates hb] at hv
                exact ⟨b, hv, rfl, hspec⟩

/-- A state is listed as unreachable if and only if no walk leads to its
position. -/
theorem mem_unreachable_iff {m : Machine} {b : String} :
    b ∈ unreachable m ↔
      ∃ a start, m.startAt = some a ∧
        States.index? m.states a = some start ∧
        ∃ w, ∃ hw : w < m.states.length, m.states[w].name = b ∧
          ¬ Relation.ReflTransGen
            (fun x y => y ∈ Graph.edges m.states State.targets x) start w := by
  rw [unreachable]
  cases hstart : start? m with
  | none =>
      refine iff_of_false List.not_mem_nil ?_
      intro h
      obtain ⟨a, start, ha, hindex, _⟩ := h
      rw [start?_eq_some_iff.mpr ⟨a, ha, hindex⟩] at hstart
      cases hstart
  | some start =>
      obtain ⟨a, ha, hindex⟩ := start?_eq_some_iff.mp hstart
      have hlt := States.lt_length_of_index? hindex
      simp only [List.mem_map, List.mem_filter, List.mem_range,
        decide_eq_true_eq, Graph.mem_reachable_iff hlt, if_true,
        Graph.size_ofStates]
      constructor
      · intro h
        obtain ⟨w, ⟨hw, hwalk⟩, rfl⟩ := h
        exact ⟨a, start, ha, hindex, w, hw,
          (Graph.name_ofStates_of_lt hw).symm, hwalk⟩
      · intro h
        obtain ⟨a', start', ha', hindex', w, hw, rfl, hwalk⟩ := h
        rw [ha] at ha'
        injection ha' with ha'
        subst ha'
        rw [hindex] at hindex'
        injection hindex' with hindex'
        subst hindex'
        exact ⟨w, ⟨hw, hwalk⟩, Graph.name_ofStates_of_lt hw⟩

/-- With distinct names, the unreachable states are those whose names no walk
leads to. -/
theorem mem_unreachable_iff_of_nodup {m : Machine} {b : String}
    (hnodup : (States.names m.states).Nodup) :
    b ∈ unreachable m ↔
      ∃ a, m.startAt = some a ∧ a ∈ States.names m.states ∧
        b ∈ States.names m.states ∧
        ¬ States.Reaches m.states State.targets a b := by
  rw [mem_unreachable_iff]
  constructor
  · intro h
    obtain ⟨a, start, ha, hindex, w, hw, rfl, hwalk⟩ := h
    have hb := States.index?_getElem hnodup hw
    exact ⟨a, ha, States.mem_names_of_index? hindex,
      States.mem_names_of_index? hb,
      fun h => hwalk ((Graph.walk_iff_reaches hindex hb).mpr h)⟩
  · intro h
    obtain ⟨a, ha, hmem, hb, hreach⟩ := h
    obtain ⟨start, hindex⟩ := States.exists_index? hmem
    obtain ⟨w, hw⟩ := States.exists_index? hb
    obtain ⟨hlt, hname, -⟩ := States.index?_eq_some_iff.mp hw
    exact ⟨a, start, ha, hindex, w, hlt, hname,
      fun h => hreach ((Graph.walk_iff_reaches hindex hw).mp h)⟩

theorem checkReachable_eq_ok_iff {location : Location} {m : Machine} :
    checkReachable location m = .ok () ↔ ∀ b, b ∉ unreachable m := by
  rw [checkReachable]
  cases unreachable m with
  | nil => simp [Verdict.accept]
  | cons b bs =>
      refine iff_of_false (by simp [Verdict.reject]) fun h => ?_
      exact h b List.mem_cons_self

theorem of_checkReachable_error {location : Location} {m : Machine}
    {v : Violation} (h : checkReachable location m = .error v) :
    ∃ b ∈ unreachable m, v = ⟨location.state b, .unreachable⟩ := by
  rw [checkReachable] at h
  cases hlist : unreachable m with
  | nil =>
      rw [hlist] at h
      exact absurd h Verdict.accept_ne_error
  | cons b bs =>
      rw [hlist] at h
      exact ⟨b, List.mem_cons_self, Verdict.eq_of_reject_error h⟩

end Termination

end Workflow

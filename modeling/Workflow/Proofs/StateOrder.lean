import Workflow.Proofs.Walk

/-!
# The order of declarations

The analysis of a scope works on positions, and another order of the same
declarations puts every state at another one. What the analysis reports is a
matter of names all the same, as long as they are distinct: a state is looked
up by its name, so all walks are the same, and so is what is found out about
them.

The hard case is the circle. It is found by following the first edge from node
to node until one comes back, and which node that is depends on the course of
the walk and not only on what can be reached. So the walk is said once more on
names (`follow?`), with nothing about positions in it, and the walk on
positions is shown to be that one (`map_name_firstRepeat?`).
-/

namespace Workflow

namespace States

variable {states states' : States}

/-! ## Look-up -/

theorem get?_eq_some_iff_mem (hnodup : (names states).Nodup) {a : String}
    {s : State} : states.get? a = some s ↔ ⟨a, s⟩ ∈ states := by
  constructor
  · intro h
    obtain ⟨i, hi, ⟨b, _⟩, he, rfl⟩ := get?_eq_some_iff.mp h
    obtain ⟨hlt, hname, -⟩ := index?_eq_some_iff.mp hi
    obtain ⟨_, hentry⟩ := List.getElem?_eq_some_iff.mp he
    have hb : b = a := by rw [← hname, hentry]
    exact hb ▸ List.mem_of_getElem? he
  · intro h
    exact get?_of_mem hnodup h

theorem names_perm (h : states.Perm states') :
    (names states).Perm (names states') := h.map Entry.name

theorem get?_perm (h : states.Perm states') (hnodup : (names states).Nodup) :
    states'.get? = states.get? := by
  funext a
  ext s
  rw [get?_eq_some_iff_mem hnodup,
    get?_eq_some_iff_mem ((names_perm h).nodup hnodup), h.mem_iff]

theorem contains_perm (h : states.Perm states') :
    states'.contains = states.contains := by
  funext a
  rw [Bool.eq_iff_iff, contains_eq_true_iff, contains_eq_true_iff,
    (names_perm h).mem_iff]

/-! ## Walks -/

theorem step_perm (h : states.Perm states') (hnodup : (names states).Nodup)
    (targets : State → List String) :
    Step states' targets = Step states targets := by
  funext a b
  rw [Step, Step, get?_perm h hnodup]
  simp only [(names_perm h).mem_iff]

theorem reaches_perm (h : states.Perm states')
    (hnodup : (names states).Nodup) (targets : State → List String) :
    Reaches states' targets = Reaches states targets := by
  rw [Reaches, step_perm h hnodup, Reaches]

theorem canEnd_perm (h : states.Perm states') (hnodup : (names states).Nodup) :
    CanEnd states' = CanEnd states := by
  funext a
  rw [CanEnd, reaches_perm h hnodup, get?_perm h hnodup, CanEnd]

/-! ## The walk along first targets -/

/-- The state that is next if nothing has to be chosen: the first declared one
among the targets of a state. -/
def next? (states : States) (a : String) : Option String :=
  (states.get? a).bind fun s => s.nextTargets.find? states.contains

/-- Goes from name to name and gives the first one met for the second time. -/
def follow? (next : String → Option String) :
    (steps : Nat) → (visited : List String) → String → Option String
  | 0, _, _ => none
  | steps + 1, visited, a =>
    if a ∈ visited then some a
    else (next a).bind (follow? next steps (a :: visited))

theorem next?_perm (h : states.Perm states') (hnodup : (names states).Nodup) :
    next? states' = next? states := by
  funext a
  rw [next?, get?_perm h hnodup, contains_perm h, next?]

theorem findSome?_index? (states : States) (targets : List String) :
    targets.findSome? states.index? =
      (targets.find? states.contains).bind states.index? := by
  induction targets with
  | nil => rfl
  | cons a rest ih =>
      rw [List.findSome?_cons, List.find?_cons]
      cases ha : states.contains a with
      | true =>
          obtain ⟨i, hi⟩ := exists_index? (contains_eq_true_iff.mp ha)
          rw [hi]
          exact hi.symm
      | false =>
          have hnone : states.index? a = none := by
            rw [index?_eq_none_iff, ← contains_eq_true_iff, ha]
            exact Bool.false_ne_true
          rw [hnone]
          exact ih

end States

namespace Graph

variable {states states' : States} {a : String} {v : Nat}

/-- The first edge leads to the first declared target. -/
theorem head?_successors (ha : states.index? a = some v) :
    ((ofStates states).successors v).head? =
      (States.next? states a).bind states.index? := by
  rw [successors_ofStates, edges, States.next?, States.get?_of_index? ha]
  cases states[v]? with
  | none => rfl
  | some e =>
      simp only [Option.elim_some, Option.map_some, Option.bind_some,
        List.head?_filterMap, States.findSome?_index?]

theorem mem_iff_mem_map_name {visited : List Nat}
    (ha : states.index? a = some v)
    (hvisited : ∀ u ∈ visited, ∃ b, states.index? b = some u) :
    v ∈ visited ↔ a ∈ visited.map (ofStates states).name := by
  rw [List.mem_map]
  constructor
  · intro hv
    exact ⟨v, hv, name_ofStates ha⟩
  · intro h
    obtain ⟨u, hu, hname⟩ := h
    obtain ⟨b, hb⟩ := hvisited u hu
    rw [name_ofStates hb] at hname
    subst hname
    rw [ha] at hb
    injection hb with hb
    exact hb ▸ hu

/-- The walk on positions is the walk on names. It only ever comes to first
declarations, so a position is visited exactly when its name is. -/
theorem map_name_firstRepeat? {steps : Nat} {visited : List Nat}
    (ha : states.index? a = some v)
    (hvisited : ∀ u ∈ visited, ∃ b, states.index? b = some u) :
    ((ofStates states).firstRepeat? steps visited v).map
        (ofStates states).name =
      States.follow? (States.next? states) steps
        (visited.map (ofStates states).name) a := by
  induction steps generalizing visited a v with
  | zero => rfl
  | succ steps ih =>
      have hmem := mem_iff_mem_map_name ha hvisited
      have hhead := head?_successors ha
      rw [firstRepeat?, States.follow?]
      by_cases hv : v ∈ visited
      · rw [if_pos hv, if_pos (hmem.mp hv), Option.map_some,
          name_ofStates ha]
      · rw [if_neg hv, if_neg (fun h => hv (hmem.mpr h))]
        cases hnext : States.next? states a with
        | none =>
            rw [hnext] at hhead
            rw [List.head?_eq_none_iff.mp hhead]
            rfl
        | some b =>
            obtain ⟨s, hs, hb⟩ := Option.bind_eq_some_iff.mp hnext
            obtain ⟨w, hw⟩ := States.exists_index?
              (States.contains_eq_true_iff.mp (List.find?_some hb))
            rw [hnext, Option.bind_some, hw] at hhead
            obtain ⟨rest, hsucc⟩ := List.head?_eq_some_iff.mp hhead
            rw [hsucc]
            have hvisited' : ∀ u ∈ v :: visited,
                ∃ b, states.index? b = some u :=
              List.forall_mem_cons.mpr ⟨⟨a, ha⟩, hvisited⟩
            simp only [ih hw hvisited', List.map_cons, name_ofStates ha,
              Option.bind_some]

theorem map_name_cycleHead?_perm (h : states.Perm states')
    (hnodup : (States.names states).Nodup) {v' : Nat}
    (ha : states.index? a = some v) (ha' : states'.index? a = some v') :
    (Graph.cycleHead? (ofStates states') v').map (ofStates states').name =
      (Graph.cycleHead? (ofStates states) v).map (ofStates states).name := by
  have hbranching :
      ((ofStates states').reachable v' false).any
          (ofStates states').isBranching =
        ((ofStates states).reachable v false).any
          (ofStates states).isBranching := by
    rw [Bool.eq_iff_iff, any_isBranching_iff ha, any_isBranching_iff ha',
      States.reaches_perm h hnodup, States.get?_perm h hnodup]
  rw [cycleHead?, cycleHead?, hbranching]
  split
  · rfl
  · rw [map_name_firstRepeat? ha' (by simp),
      map_name_firstRepeat? ha (by simp), States.next?_perm h hnodup,
      size_ofStates, size_ofStates, h.length_eq]
    rfl

theorem map_name_range (states : States) :
    (List.range (ofStates states).size).map (ofStates states).name =
      States.names states := by
  refine List.ext_getElem (by simp [size_ofStates, States.names]) ?_
  intro i hi _
  have hlt : i < states.length := by simpa [size_ofStates] using hi
  simp [name, getElem?_ofStates, States.names, node, hlt]

end Graph

namespace Termination

variable {m : Machine} {states : States}

/-! ## The checks of a scope's walks -/

/-- A scope starts at the same name, at whatever position that is. -/
theorem start?_perm (h : m.states.Perm states) :
    start? m = none ∧ start? { m with states } = none ∨
      ∃ a start start', States.index? m.states a = some start ∧
        States.index? states a = some start' ∧ start? m = some start ∧
        start? { m with states } = some start' := by
  cases hstart : start? m with
  | none =>
      refine .inl ⟨rfl, Option.eq_none_iff_forall_ne_some.mpr ?_⟩
      intro start' hstart'
      obtain ⟨a, ha, hindex'⟩ := start?_eq_some_iff.mp hstart'
      obtain ⟨start, hindex⟩ := States.exists_index?
        ((States.names_perm h).mem_iff.mpr
          (States.mem_names_of_index? hindex'))
      have hsome : start? m = some start :=
        start?_eq_some_iff.mpr ⟨a, ha, hindex⟩
      rw [hsome] at hstart
      cases hstart
  | some start =>
      obtain ⟨a, ha, hindex⟩ := start?_eq_some_iff.mp hstart
      obtain ⟨start', hindex'⟩ := States.exists_index?
        ((States.names_perm h).mem_iff.mp
          (States.mem_names_of_index? hindex))
      exact .inr ⟨a, start, start', hindex, hindex', rfl,
        start?_eq_some_iff.mpr ⟨a, ha, hindex'⟩⟩

theorem map_name_problemAt_perm (h : m.states.Perm states)
    (hnodup : (States.names m.states).Nodup) (style : Diagnostics)
    {a : String} {start start' : Nat}
    (ha : States.index? m.states a = some start)
    (ha' : States.index? states a = some start') :
    (problemAt style (Graph.ofStates states) start').map
        (Graph.ofStates states).name id =
      (problemAt style (Graph.ofStates m.states) start).map
        (Graph.ofStates m.states).name id := by
  cases style with
  | unified =>
      simp only [problemAt, Prod.map_apply, Graph.name_ofStates ha,
        Graph.name_ofStates ha']
  | split =>
      have hcycle := Graph.map_name_cycleHead?_perm h hnodup ha ha'
      rw [problemAt, problemAt]
      cases hentry : Graph.cycleHead? (Graph.ofStates m.states) start with
      | none =>
          rw [hentry, Option.map_none, Option.map_eq_none_iff] at hcycle
          simp only [hcycle, Prod.map_apply, Graph.name_ofStates ha,
            Graph.name_ofStates ha']
      | some w =>
          rw [hentry, Option.map_some, Option.map_eq_some_iff] at hcycle
          obtain ⟨w', hw', hname⟩ := hcycle
          simp only [hw', Prod.map_apply, hname]

/-- The check of termination reports the same, whatever the order. -/
theorem check_perm (h : m.states.Perm states)
    (hnodup : (States.names m.states).Nodup) (style : Diagnostics)
    (location : Location) :
    check style location { m with states } = check style location m := by
  rcases start?_perm h with ⟨hstart, hstart'⟩ | ⟨a, start, start', h'⟩
  · rw [check, check, hstart, hstart']
  · obtain ⟨ha, ha', hstart, hstart'⟩ := h'
    have hend : start' ∈ (Graph.ofStates states).terminating ↔
        start ∈ (Graph.ofStates m.states).terminating := by
      rw [Graph.canEnd_iff ha, Graph.canEnd_iff ha',
        States.canEnd_perm h hnodup]
    have hproblem := map_name_problemAt_perm h hnodup style ha ha'
    obtain ⟨hname, hkind⟩ := Prod.ext_iff.mp hproblem
    simp only [Prod.map_fst, Prod.map_snd, id_eq] at hname hkind
    rw [check, check, hstart, hstart']
    simp only [hend, hname, hkind]

theorem nodup_unreachable (hnodup : (States.names m.states).Nodup) :
    (unreachable m).Nodup := by
  rw [unreachable]
  cases start? m with
  | none => exact .nil
  | some start =>
      refine List.Nodup.sublist (List.filter_sublist.map _) ?_
      rw [Graph.map_name_range]
      exact hnodup

/-- The same states are unreachable, whatever the order. -/
theorem unreachable_perm (h : m.states.Perm states)
    (hnodup : (States.names m.states).Nodup) :
    (unreachable { m with states }).Perm (unreachable m) := by
  have hnames := States.names_perm h
  rw [List.perm_ext_iff_of_nodup (nodup_unreachable (hnames.nodup hnodup))
    (nodup_unreachable hnodup)]
  intro b
  rw [mem_unreachable_iff_of_nodup (hnames.nodup hnodup),
    mem_unreachable_iff_of_nodup hnodup]
  simp only [States.reaches_perm h hnodup, hnames.mem_iff]

end Termination

end Workflow

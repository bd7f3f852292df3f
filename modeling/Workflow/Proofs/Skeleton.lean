import Workflow.Proofs.Course
import Workflow.Proofs.Slots

/-!
# What termination depends on

Whether a scope can end is a matter of its control skeleton: the names and kinds
of its states and where they go on to in the ordinary course. Errors are caught
on edges of their own, which the search for an end never follows. So catchers
decide nothing there, and no more do the parts of a state that lead nowhere. For
the states that cannot be reached they do count: every catcher is one more way
into its target, and can only take states off that list.

No scope has to be in order for this. Names may be repeated and targets may
dangle, since the edges of the graph are a function of the skeleton and the
targets of the catchers, whatever they look like.
-/

namespace Workflow

/-! ## Skeletons -/

namespace State

/-- The targets of the rules of a Choice state, in their order. -/
def ruleTargets : State → List String
  | .choice s => s.rules.filterMap ChoiceRule.next
  | .pass _ | .task _ | .wait _ | .succeed _ | .fail _ | .parallel _ => []

/-- The default of a Choice state. -/
def defaultTarget : State → Option String
  | .choice s => s.defaultState
  | .pass _ | .task _ | .wait _ | .succeed _ | .fail _ | .parallel _ => none

theorem nextTargets_eq (s : State) :
    s.nextTargets = (s.transition.bind Transition.target?).toList ++
      s.ruleTargets ++ s.defaultTarget.toList := by
  cases s <;> simp [nextTargets, transition, ruleTargets, defaultTarget]

theorem isTerminal_eq (s : State) :
    s.isTerminal = (s.kind == .succeed || s.kind == .fail ||
      s.transition == some .finish) := by
  cases s <;> rfl

theorem isBranching_eq (s : State) :
    s.isBranching = (s.kind == .choice || s.kind == .parallel) := by
  cases s <;> rfl

/-- The same state with other catchers. A kind without catchers is left as it
is. -/
def withCatchers (cs : List Catcher) : State → State
  | .task s => .task { s with catchers := cs }
  | .parallel s => .parallel { s with catchers := cs }
  | s => s

theorem catchTargets_subset_withCatchers {s : State} {cs : List Catcher}
    (h : s.catchers ⊆ cs) :
    s.catchTargets ⊆ (s.withCatchers cs).catchTargets := by
  cases s with
  | task s => exact List.filterMap_subset _ h
  | parallel s => exact List.filterMap_subset _ h
  | pass | wait | choice | succeed | fail => exact List.Subset.refl _

end State

/-- What a declaration says about the ordinary course. -/
structure Skeleton where
  name : String
  kind : StateKind
  transition : Option Transition
  ruleTargets : List String
  defaultTarget : Option String
deriving DecidableEq, Repr

def Entry.skeleton (e : Entry) : Skeleton where
  name := e.name
  kind := e.state.kind
  transition := e.state.transition
  ruleTargets := e.state.ruleTargets
  defaultTarget := e.state.defaultTarget

/-- The course of the node of a declaration with the given skeleton. -/
def Skeleton.course (index? : String → Option Nat) (k : Skeleton) :
    Graph.Course where
  successors := ((k.transition.bind Transition.target?).toList ++
    k.ruleTargets ++ k.defaultTarget.toList).filterMap index?
  isTerminal := k.kind == .succeed || k.kind == .fail ||
    k.transition == some .finish
  isBranching := k.kind == .choice || k.kind == .parallel

/-- Two machines start at the same name, and their states agree position by
position in all that decides the ordinary course. -/
structure Machine.SameSkeleton (m m' : Machine) : Prop where
  startAt : m.startAt = m'.startAt
  states : m.states.map Entry.skeleton = m'.states.map Entry.skeleton

theorem Machine.SameSkeleton.symm {m m' : Machine} (h : m.SameSkeleton m') :
    m'.SameSkeleton m :=
  ⟨h.startAt.symm, h.states.symm⟩

namespace Graph

theorem course_node (states : States) (e : Entry) :
    (node states e).course = e.skeleton.course states.index? := by
  rw [Node.course, node, State.nextTargets_eq, State.isTerminal_eq,
    State.isBranching_eq]
  rfl

variable {es fs : States}

section SameSkeleton

variable (h : es.map Entry.skeleton = fs.map Entry.skeleton)

include h

theorem names_eq_of_skeleton : States.names es = States.names fs := by
  have hnames (states : States) :
      states.names = (states.map Entry.skeleton).map Skeleton.name := by
    rw [List.map_map]
    rfl
  rw [hnames, hnames, h]

theorem course_eq_of_skeleton : (ofStates es).course = (ofStates fs).course := by
  have hcourse (states : States) : (ofStates states).course =
      (states.map Entry.skeleton).map (Skeleton.course states.index?) := by
    rw [course, ofStates, List.map_map, List.map_map]
    exact List.map_congr_left fun e _ => course_node states e
  rw [hcourse, hcourse, h, States.index?_congr (names_eq_of_skeleton h)]

theorem name_eq_of_skeleton : (ofStates es).name = (ofStates fs).name := by
  have hname (states : States) :
      (ofStates states).name = fun v => (states.names[v]?).getD "" := by
    funext v
    rw [name, getElem?_ofStates, States.names, List.getElem?_map]
    cases states[v]? <;> rfl
  rw [hname, hname, names_eq_of_skeleton h]

end SameSkeleton

/-- With the targets of the catchers the graph is settled. -/
theorem ofStates_eq_of_skeleton
    (h : es.map Entry.skeleton = fs.map Entry.skeleton)
    (hcatch : es.map (fun e => e.state.catchTargets) =
      fs.map fun e => e.state.catchTargets) :
    ofStates es = ofStates fs := by
  have hnodes (states : States) : (ofStates states).nodes =
      ((states.map Entry.skeleton).zip
        (states.map fun e => e.state.catchTargets)).map fun (k, targets) =>
          let c := k.course states.index?
          ⟨k.name, c.successors, targets.filterMap states.index?, c.isTerminal,
            c.isBranching⟩ := by
    rw [List.zip_map', List.map_map]
    refine List.map_congr_left fun e _ => ?_
    simp only [Function.comp_apply, ← course_node]
    rfl
  have heq : (ofStates es).nodes = (ofStates fs).nodes := by
    rw [hnodes, hnodes, h, hcatch,
      States.index?_congr (names_eq_of_skeleton h)]
  exact congrArg Graph.mk heq

/-! ## More catchers -/

/-- A state with more catchers has all its edges and perhaps more. -/
theorem edges_subset_of_skeleton
    (h : es.map Entry.skeleton = fs.map Entry.skeleton)
    (hcatch : List.Forall₂
      (fun e f => e.state.catchTargets ⊆ f.state.catchTargets) es fs)
    (v : Nat) : edges es State.targets v ⊆ edges fs State.targets v := by
  intro w hw
  rw [edges_targets, List.mem_append] at hw ⊢
  rcases hw with hw | hw
  · left
    rwa [← successors_ofStates, ← successors_congr (course_eq_of_skeleton h),
      successors_ofStates]
  · right
    obtain ⟨e, he, b, hb, hw⟩ := mem_edges_iff.mp hw
    obtain ⟨hv, rfl⟩ := List.getElem?_eq_some_iff.mp he
    have hv' : v < fs.length := hcatch.length_eq ▸ hv
    rw [States.index?_congr (names_eq_of_skeleton h)] at hw
    exact mem_edges_iff.mpr ⟨fs[v], List.getElem?_eq_getElem hv', b,
      hcatch.get hv hv' hb, hw⟩

end Graph

namespace StateSlot

variable (slot : StateSlot) (s : State) {cs : List Catcher}

theorem sameSkeleton_withCatchers (cs : List Catcher) :
    (slot.fill (s.withCatchers cs)).SameSkeleton (slot.fill s) where
  startAt := rfl
  states := by
    have hskeleton : Entry.skeleton ⟨slot.name, s.withCatchers cs⟩ =
        Entry.skeleton ⟨slot.name, s⟩ := by
      cases s <;> rfl
    rw [fill, fill, List.map_append, List.map_append, List.map_cons,
      List.map_cons, hskeleton]

theorem catchTargets_withCatchers (h : s.catchers ⊆ cs) :
    List.Forall₂ (fun e f => e.state.catchTargets ⊆ f.state.catchTargets)
      (slot.fill s).states (slot.fill (s.withCatchers cs)).states :=
  have hsame (es : List Entry) : List.Forall₂
      (fun e f => e.state.catchTargets ⊆ f.state.catchTargets) es es :=
    List.forall₂_same.mpr fun _ _ => List.Subset.refl _
  List.rel_append (hsame slot.before)
    (.cons (State.catchTargets_subset_withCatchers h) (hsame slot.after))

end StateSlot

namespace Termination

variable {m m' : Machine}

theorem start?_eq_of_skeleton (h : m.SameSkeleton m') :
    start? m = start? m' := by
  rw [start?, start?, h.startAt,
    States.index?_congr (Graph.names_eq_of_skeleton h.states)]

theorem check_eq_of_skeleton (h : m.SameSkeleton m') (style : Diagnostics)
    (location : Location) :
    check style location m = check style location m' := by
  have hcourse := Graph.course_eq_of_skeleton h.states
  rw [check, check, start?_eq_of_skeleton h]
  cases start? m' with
  | none => rfl
  | some start =>
      simp only [Graph.mem_terminating_congr hcourse,
        Graph.problemAt_congr hcourse, Graph.name_eq_of_skeleton h.states]

theorem unreachable_eq_of_skeleton (h : m.SameSkeleton m')
    (hcatch : m.states.map (fun e => e.state.catchTargets) =
      m'.states.map fun e => e.state.catchTargets) :
    unreachable m = unreachable m' := by
  rw [unreachable, unreachable, start?_eq_of_skeleton h,
    Graph.ofStates_eq_of_skeleton h.states hcatch]

/-- More ways to catch errors take states off the list of those that cannot be
reached, and put none on it. -/
theorem unreachable_sublist_of_skeleton (h : m.SameSkeleton m')
    (hcatch : List.Forall₂
      (fun e f => e.state.catchTargets ⊆ f.state.catchTargets)
      m.states m'.states) :
    (unreachable m').Sublist (unreachable m) := by
  have hcourse := Graph.course_eq_of_skeleton h.states
  rw [unreachable, unreachable, start?_eq_of_skeleton h]
  cases hstart : start? m' with
  | none => exact List.Sublist.refl _
  | some start =>
      obtain ⟨a, -, ha⟩ := start?_eq_some_iff.mp hstart
      have hlt' := States.lt_length_of_index? ha
      have hlt : start < m.states.length := hcatch.length_eq ▸ hlt'
      simp only [Graph.name_eq_of_skeleton h.states, Graph.size_congr hcourse]
      -- The nodes are numbered alike, so that it is enough to compare which
      -- of them are kept.
      refine (List.monotone_filter_right _ fun v hv => ?_).map _
      simp only [decide_eq_true_eq, Graph.mem_reachable_iff hlt,
        Graph.mem_reachable_iff hlt', if_true] at hv ⊢
      exact fun hreach => hv (Relation.ReflTransGen.mono (fun u _ hedge =>
        Graph.edges_subset_of_skeleton h.states hcatch u hedge) _ _ hreach)

/-- Two machines with one skeleton fare alike in the check of termination, and
with the same targets of catchers in each state they have the same unreachable
states. More catchers for a state make no difference to the check, and bring no
state on the list of the unreachable ones. -/
theorem skeleton_decides :
    (∀ m m' : Machine, m.SameSkeleton m' →
      (∀ style location, check style location m = check style location m') ∧
      (m.states.map (fun e => e.state.catchTargets) =
          m'.states.map (fun e => e.state.catchTargets) →
        unreachable m = unreachable m')) ∧
    ∀ (slot : StateSlot) (s : State) (cs : List Catcher), s.catchers ⊆ cs →
      (∀ style location,
        check style location (slot.fill (s.withCatchers cs)) =
          check style location (slot.fill s)) ∧
      (unreachable (slot.fill (s.withCatchers cs))).Sublist
        (unreachable (slot.fill s)) := by
  refine ⟨fun m m' h => ⟨check_eq_of_skeleton h,
    unreachable_eq_of_skeleton h⟩, fun slot s cs hcs => ?_⟩
  have h := slot.sameSkeleton_withCatchers s cs
  exact ⟨check_eq_of_skeleton h, unreachable_sublist_of_skeleton h.symm
    (slot.catchTargets_withCatchers s hcs)⟩

end Termination

/-- A scope with its first state left open, and a state that nothing else leads
to. -/
def StateSlot.attended : StateSlot where
  scope := { startAt := some "Work" }
  before := []
  name := "Work"
  after := [⟨"Rescue", .succeed {}⟩]

/-- A state that goes on to itself. -/
def State.repeating : State := .task { transition := some (.next "Work") }

/-- The scope with no way out. -/
def Machine.bare : Machine := StateSlot.attended.fill .repeating

/-- The scope with a way out for any error. -/
def Machine.rescued : Machine :=
  StateSlot.attended.fill
    (State.repeating.withCatchers [.matching ["States.ALL"] "Rescue"])

/-- The scope with a limit on its time and a way out once it is exceeded. -/
def Machine.timed : Machine :=
  StateSlot.attended.fill <| .task {
    timeoutSeconds := some 5
    catchers := [.matching ["States.Timeout"] "Rescue"]
    transition := some (.next "Work") }

/-- A way out for errors does not count as one for the check, but its target is
reached. Which errors it is for has no say in either. -/
theorem Termination.skeleton_decides_bare :
    Machine.bare.SameSkeleton .timed ∧
      check .split .root .bare =
        .error ⟨Location.root.state "Work", .cycle⟩ ∧
      check .split .root .bare = check .split .root .timed ∧
      Machine.timed.SameSkeleton .rescued ∧
      unreachable .timed = unreachable .rescued ∧
      unreachable .bare = ["Rescue"] ∧ unreachable .rescued = [] ∧
      (unreachable .rescued).Sublist (unreachable .bare) := by
  have hbare : Machine.bare.SameSkeleton .timed := ⟨rfl, rfl⟩
  have htimed : Machine.timed.SameSkeleton .rescued := ⟨rfl, rfl⟩
  obtain ⟨hpairs, hslots⟩ := skeleton_decides
  exact ⟨hbare, by decide +kernel, (hpairs _ _ hbare).1 _ _, htimed,
    (hpairs _ _ htimed).2 rfl, by decide +kernel, by decide +kernel,
    (hslots .attended .repeating _ (List.nil_subset _)).2⟩

end Workflow

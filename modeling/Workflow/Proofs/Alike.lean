import Workflow.Proofs.WellFormed

/-!
# What the rules of a scope depend on

A scope is well-formed by rules of its own; what lies in scopes inside it is
their affair, and most of the rules do not mention an order. So two scopes are
well-formed together if their states are alike, name by name: if the rules for
single states hold of both or of neither, and if they go on to the same states.

Two changes to a state leave it alike: other branches in a Parallel state, as
long as there are some, and another order of the rules of a Choice state.
-/

namespace Workflow

/-! ## States -/

/-- The rules of the scope around it cannot tell the first state from the
second. -/
structure State.Alike (s t : State) : Prop where
  fields : s.FieldsWellFormed ↔ t.FieldsWellFormed
  paths : s.PathsWellFormed ↔ t.PathsWellFormed
  nextTargets : ∀ a, a ∈ s.nextTargets ↔ a ∈ t.nextTargets
  catchTargets : ∀ a, a ∈ s.catchTargets ↔ a ∈ t.catchTargets
  final : s.Final ↔ t.Final

namespace State

variable {s t : State}

theorem Alike.refl (s : State) : s.Alike s :=
  ⟨.rfl, .rfl, fun _ => .rfl, fun _ => .rfl, .rfl⟩

theorem Alike.symm (h : s.Alike t) : t.Alike s where
  fields := h.fields.symm
  paths := h.paths.symm
  nextTargets := fun a => (h.nextTargets a).symm
  catchTargets := fun a => (h.catchTargets a).symm
  final := h.final.symm

theorem Alike.targets (h : s.Alike t) (a : String) :
    a ∈ s.targets ↔ a ∈ t.targets := by
  rw [State.targets_eq_append, State.targets_eq_append, List.mem_append,
    List.mem_append, h.nextTargets, h.catchTargets]

theorem Carries.of_eq (hends : s.ends = t.ends)
    (hresult : s.resultPath = t.resultPath) (hwait : s.waitFor = t.waitFor)
    {field : Field} {d : Path.Dialect} {p : String}
    (h : s.Carries field d p) : t.Carries field d p := by
  cases h with
  | inputPath h => exact .inputPath (hends ▸ h)
  | outputPath h => exact .outputPath (hends ▸ h)
  | resultPath h => exact .resultPath (hresult ▸ h)
  | secondsPath h => exact .secondsPath (hwait ▸ h)
  | timestampPath h => exact .timestampPath (hwait ▸ h)

/-- Which paths a state carries is a matter of a few fields, and of its rules
as a set. -/
theorem pathsWellFormed_congr (hends : s.ends = t.ends)
    (hresult : s.resultPath = t.resultPath) (hwait : s.waitFor = t.waitFor)
    (hcatchers : s.catchers = t.catchers)
    (hrules : ∀ rule, rule ∈ s.rules ↔ rule ∈ t.rules) :
    s.PathsWellFormed ↔ t.PathsWellFormed := by
  constructor
  · intro h
    refine ⟨fun field d p hp => h.state field d p ?_,
      fun rule hr => h.rule rule ((hrules rule).mpr hr),
      fun c hc => h.catcher c (hcatchers ▸ hc)⟩
    exact hp.of_eq hends.symm hresult.symm hwait.symm
  · intro h
    refine ⟨fun field d p hp => h.state field d p ?_,
      fun rule hr => h.rule rule ((hrules rule).mp hr),
      fun c hc => h.catcher c (hcatchers ▸ hc)⟩
    exact hp.of_eq hends hresult hwait

/-- What its branches hold makes no difference to a Parallel state itself. -/
theorem alike_parallel {p : ParallelState} {branches : List Branch}
    (hbranches : p.branches = [] ↔ branches = []) :
    State.Alike (.parallel p) (.parallel { p with branches }) where
  fields := by
    simp only [FieldsWellFormed, ParallelState.wellFormed_iff, ne_eq,
      hbranches]
  paths := pathsWellFormed_congr rfl rfl rfl rfl fun _ => .rfl
  nextTargets := fun _ => .rfl
  catchTargets := fun _ => .rfl
  final := .rfl

/-- The order of its rules makes no difference to the scope around a Choice
state. -/
theorem alike_choice {c : ChoiceState} {rules : List ChoiceRule}
    (hrules : c.rules.Perm rules) :
    State.Alike (.choice c) (.choice { c with rules }) where
  fields := by
    have hempty : c.rules = [] ↔ rules = [] := by
      rw [← List.isEmpty_iff, hrules.isEmpty_eq, List.isEmpty_iff]
    simp only [FieldsWellFormed, ChoiceState.wellFormed_iff, ne_eq, hempty,
      hrules.mem_iff]
  paths := pathsWellFormed_congr rfl rfl rfl rfl
    fun _ => hrules.mem_iff
  nextTargets := fun a => by
    rw [State.nextTargets, State.nextTargets, List.mem_append,
      List.mem_append, (hrules.filterMap _).mem_iff]
  catchTargets := fun _ => .rfl
  final := .rfl

end State

/-! ## Scopes -/

/-- Every state of the first scope has one that is alike under its name in the
second. -/
def States.Covers (states states' : States) : Prop :=
  ∀ e ∈ states, ∃ e' ∈ states', e'.name = e.name ∧ e.state.Alike e'.state

/-- Two scopes with the same names for states that are alike. -/
structure Machine.Alike (m m' : Machine) : Prop where
  startAt : m'.startAt = m.startAt
  timeoutSeconds : m'.timeoutSeconds = m.timeoutSeconds
  names : (States.names m.states).Perm (States.names m'.states)
  covers : States.Covers m.states m'.states
  covered : States.Covers m'.states m.states

theorem Machine.Alike.symm {m m' : Machine} (h : m.Alike m') : m'.Alike m where
  startAt := h.startAt.symm
  timeoutSeconds := h.timeoutSeconds.symm
  names := h.names.symm
  covers := h.covered
  covered := h.covers

namespace States

variable {states states' : States} {a b : String}

theorem Covers.get? (h : Covers states states')
    (hnodup : (names states').Nodup) {s : State}
    (hs : states.get? a = some s) :
    ∃ s', states'.get? a = some s' ∧ s.Alike s' := by
  obtain ⟨i, hi, e, he, rfl⟩ := get?_eq_some_iff.mp hs
  obtain ⟨hlt, hname, -⟩ := index?_eq_some_iff.mp hi
  obtain ⟨e', he', hname', halike⟩ := h e (List.mem_of_getElem? he)
  rw [List.getElem?_eq_getElem hlt] at he
  injection he with he
  rw [he] at hname
  refine ⟨e'.state, ?_, halike⟩
  rw [← hname, ← hname']
  exact get?_of_mem hnodup he'

/-- A walk through a scope is one through any scope that covers it. -/
theorem Covers.reaches (h : Covers states states')
    (hnodup : (names states').Nodup) (hnames : names states ⊆ names states')
    {targets : State → List String}
    (htargets : ∀ s s', s.Alike s' → ∀ c ∈ targets s, c ∈ targets s')
    (hab : Reaches states targets a b) : Reaches states' targets a b := by
  refine Relation.ReflTransGen.mono (fun c d hstep => ?_) _ _ hab
  obtain ⟨s, hs, hd, hmem⟩ := hstep
  obtain ⟨s', hs', halike⟩ := h.get? hnodup hs
  exact ⟨s', hs', htargets s s' halike d hd, hnames hmem⟩

theorem Covers.canEnd (h : Covers states states')
    (hnodup : (names states').Nodup) (hnames : names states ⊆ names states')
    (ha : CanEnd states a) : CanEnd states' a := by
  obtain ⟨b, s, hab, hs, hfinal⟩ := ha
  obtain ⟨s', hs', halike⟩ := h.get? hnodup hs
  refine ⟨b, s', ?_, hs', halike.final.mp hfinal⟩
  exact h.reaches hnodup hnames
    (fun _ _ halike c => (halike.nextTargets c).mp) hab

end States

namespace Scope

variable {settings : Settings} {s t : Scope}

theorem WellFormed.of_alike (hs : s.WellFormed settings)
    (hdepth : t.depth = s.depth) (h : s.machine.Alike t.machine) :
    t.WellFormed settings := by
  have hnodup := h.names.nodup hs.fields.distinct
  have hnames := h.names.subset
  constructor
  case depth =>
    rw [hdepth]
    exact hs.depth
  case fields =>
    constructor
    · rw [h.startAt]
      exact hs.fields.start
    · rw [h.timeoutSeconds]
      exact hs.fields.timeout
    · intro hempty
      have hlength := h.names.length_eq
      simp only [States.names, List.length_map, hempty, List.length_nil,
        List.length_eq_zero_iff] at hlength
      exact hs.fields.someState hlength
    · intro name hname
      exact hs.fields.named name (h.names.symm.subset hname)
    · exact hnodup
  case stateFields =>
    intro e' he'
    obtain ⟨e, he, -, halike⟩ := h.covered e' he'
    exact halike.fields.mpr (hs.stateFields e he)
  case paths =>
    intro e' he'
    obtain ⟨e, he, -, halike⟩ := h.covered e' he'
    exact halike.paths.mpr (hs.paths e he)
  case resolved =>
    refine ⟨fun name hname => ?_, fun e' he' target htarget => ?_⟩
    · rw [h.startAt] at hname
      exact hnames (hs.resolved.start name hname)
    · obtain ⟨e, he, -, halike⟩ := h.covered e' he'
      exact hnames (hs.resolved.targets e he target
        ((halike.targets target).mp htarget))
  case ends =>
    intro start hstart
    rw [h.startAt] at hstart
    exact h.covers.canEnd hnodup hnames (hs.ends start hstart)
  case reached =>
    intro hreject start hstart name hname
    rw [h.startAt] at hstart
    refine h.covers.reaches hnodup hnames
      (fun _ _ halike c => (halike.targets c).mp) ?_
    exact hs.reached hreject start hstart name (h.names.symm.subset hname)

/-- Scopes that are alike, at one depth, are well-formed together. -/
theorem wellFormed_congr (hdepth : t.depth = s.depth)
    (h : s.machine.Alike t.machine) :
    s.WellFormed settings ↔ t.WellFormed settings := by
  constructor
  · intro hs
    exact hs.of_alike hdepth h
  · intro ht
    exact ht.of_alike hdepth.symm h.symm

end Scope

end Workflow

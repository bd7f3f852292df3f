import Workflow.Building
import Workflow.Proofs.Precedence

/-!
# The state that an unknown target is charged to

A target that is not declared is reported at the state that names it, and a
start that is not declared at the scope itself, since no state is to blame for
it. Which state a diagnostic names is not recorded with it: the name is read
off the location, as that of the innermost state that the place lies in.

For a target this gives the state that names it. For the start of the whole
definition it gives none, as it should. But a branch lies in a Parallel state
of the scope around it, so the start of a branch is charged to that state
(`stateName?_of_unknownTarget`), which may have nothing wrong with it: to tell
the two kinds of unknown target apart by the name of the state works at the
top only (`start_charged_outside`).
-/

namespace Workflow

theorem Location.stateName?_state (l : Location) (name : String) :
    (l.state name).stateName? = some name := by
  simp [stateName?, state, child]

theorem Location.stateName?_branch (l : Location) (i : Nat) :
    (l.branch i).stateName? = l.stateName? := by
  simp [stateName?, branch, child]

namespace Scope

variable {settings : Settings} {s t : Scope} {v : Violation} {m : Machine}

theorem exists_parent (ht : t ∈ s.preorder) :
    t = s ∨ ∃ outer ∈ s.preorder, t ∈ outer.children := by
  rcases mem_preorder_iff.mp ht with rfl | hst
  · exact .inl rfl
  · obtain ⟨outer, houter, hmem⟩ := Relation.TransGen.tail'_iff.mp hst
    refine .inr ⟨outer, mem_preorder_iff.mpr ?_, hmem⟩
    rcases Relation.reflTransGen_iff_eq_or_transGen.mp houter with heq | houter
    · exact .inl heq
    · exact .inr houter

/-- The name that the location of a branch gives is that of the state it
belongs to. -/
theorem exists_stateName?_of_mem_children (ht : t ∈ s.children) :
    ∃ e ∈ s.machine.states, (∃ b ∈ e.state.branches, b.machine = t.machine) ∧
      t.location.stateName? = some e.name := by
  obtain ⟨e, he, i, b, hb, rfl⟩ := mem_children_iff.mp ht
  refine ⟨e, he, ⟨b, List.mem_of_getElem? hb, rfl⟩, ?_⟩
  rw [Location.stateName?_branch, Location.stateName?_state]

theorem stateName?_eq_none_iff (hs : s ∈ m.scopes) :
    s.location.stateName? = none ↔ s = m.scope := by
  constructor
  · intro hnone
    rcases exists_parent hs with hroot | ⟨outer, -, hs⟩
    · exact hroot
    · obtain ⟨e, -, -, hname⟩ := exists_stateName?_of_mem_children hs
      rw [hnone] at hname
      cases hname
  · intro hroot
    rw [hroot]
    rfl

/-- An unknown target is reported while its scope is entered, by the check of
targets. -/
theorem Reports.check_targets_eq (h : s.Reports settings v)
    (hphase : v.problem.phase = .targets) :
    Targets.check s.location s.machine = .error v := by
  rcases h with h | ⟨hentry, -, h⟩
  · obtain ⟨hfields, hpaths⟩ := (passed_of_entry_error h).2.1 hphase
    rw [entry_eq, hfields.nesting, hfields.scopeFields, hfields.stateFields,
      hpaths] at h
    exact h
  · rw [(explains_of_exit hentry.distinct h).phase_eq
      Element.HasWalkProblem.phase_eq] at hphase
    cases hphase

/-- The scope that has an unknown target, and the name that is given for it:
that of the Parallel state around the scope if it is the start that is not
declared, and else that of a state of the scope that names the target. -/
theorem Reports.charge {target : String} (h : s.Reports settings v)
    (htarget : v.problem = .unknownTarget target) :
    target ∉ States.names s.machine.states ∧
    (s.machine.startAt = some target →
      v.location.stateName? = s.location.stateName?) ∧
    (s.machine.startAt ≠ some target →
      ∃ e ∈ s.machine.states, target ∈ e.state.targets ∧
        v.location.stateName? = some e.name) := by
  have hcheck := h.check_targets_eq (by rw [htarget]; rfl)
  rcases Targets.of_check_error hcheck with
    ⟨name, hstart, hnot, rfl⟩ | ⟨hstart, e, he, name, hname, hnot, rfl⟩
  · injection htarget with htarget
    subst htarget
    exact ⟨hnot, fun _ => rfl, fun hne => absurd hstart hne⟩
  · injection htarget with htarget
    subst htarget
    refine ⟨hnot, fun h => absurd (hstart name h) hnot, fun _ => ?_⟩
    exact ⟨e, he, hname, Location.stateName?_state _ _⟩

end Scope

/-- What is charged with an unknown target. A target that some state names is
charged to such a state, of the scope that it is unknown in. The start of a
scope is charged to no state if that scope is the whole definition, and only
then: in a branch it is charged to the Parallel state that the branch belongs
to, which is a state of the scope around. -/
theorem stateName?_of_unknownTarget {settings : Settings} {m : Machine}
    {v : Violation} {target : String} (h : validate settings m = .error v)
    (htarget : v.problem = .unknownTarget target) :
    ∃ s ∈ m.scopes, s.location = v.location.scope ∧
      (∀ t ∈ m.scopes, t.location = s.location → t = s) ∧
      target ∉ States.names s.machine.states ∧
      (s.machine.startAt ≠ some target →
        ∃ e ∈ s.machine.states, target ∈ e.state.targets ∧
          v.location.stateName? = some e.name) ∧
      (s.machine.startAt = some target →
        (v.location.stateName? = none ↔ s = m.scope) ∧
        ∀ outer ∈ m.scopes, s ∈ outer.children →
          ∃ e ∈ outer.machine.states,
            (∃ b ∈ e.state.branches, b.machine = s.machine) ∧
            v.location.stateName? = some e.name) := by
  rw [validate_eq] at h
  obtain ⟨before, s, hcomes, hreports⟩ :=
    Scope.exists_comesTo_of_verdict_error h
  have hs : s ∈ m.scopes := hcomes.mem_preorder
  have hscope := hreports.scope_eq (Machine.depth_eq_of_mem_scopes s hs)
    (Machine.location_scope_of_mem_scopes s hs)
  obtain ⟨hnot, hstart, hstate⟩ := hreports.charge htarget
  refine ⟨s, hs, hscope.symm, hcomes.unique, hnot, hstate, fun h => ?_⟩
  rw [hstart h]
  exact ⟨Scope.stateName?_eq_none_iff hs,
    fun outer _ hchild => Scope.exists_stateName?_of_mem_children hchild⟩

/-- The only branch of a Parallel state starts at a state that it has not
declared. -/
def Machine.astray : Machine where
  startAt := some "Fan"
  states := [⟨"Fan", .parallel {
    branches := [.ofMachine {
      startAt := some "Ghost"
      states := [⟨"Done", .succeed {}⟩] }]
    transition := some .finish }⟩]

/-- Its start, which is charged to the Parallel state. -/
def Machine.ghost : Violation :=
  ⟨(Location.root.state "Fan").branch 0, .unknownTarget "Ghost"⟩

theorem stateName?_of_astray :
    validate {} .astray = .error Machine.ghost ∧
    Machine.ghost.problem = .unknownTarget "Ghost" ∧
    ∃ s ∈ Machine.astray.scopes, s.location = Machine.ghost.location.scope ∧
      (∀ t ∈ Machine.astray.scopes, t.location = s.location → t = s) ∧
      "Ghost" ∉ States.names s.machine.states ∧
      (s.machine.startAt ≠ some "Ghost" →
        ∃ e ∈ s.machine.states, "Ghost" ∈ e.state.targets ∧
          Machine.ghost.location.stateName? = some e.name) ∧
      (s.machine.startAt = some "Ghost" →
        (Machine.ghost.location.stateName? = none ↔
          s = Machine.astray.scope) ∧
        ∀ outer ∈ Machine.astray.scopes, s ∈ outer.children →
          ∃ e ∈ outer.machine.states,
            (∃ b ∈ e.state.branches, b.machine = s.machine) ∧
            Machine.ghost.location.stateName? = some e.name) :=
  have hreject : validate {} .astray = .error Machine.ghost := by
    decide +kernel
  ⟨hreject, rfl, stateName?_of_unknownTarget hreject rfl⟩

/-- The name of the state does not tell an unknown start from an unknown
target: the start of a branch is charged as well, and to a state outside. -/
theorem start_charged_outside :
    ¬ ∀ (settings : Settings) (m : Machine) (v : Violation) (target : String),
      validate settings m = .error v → v.problem = .unknownTarget target →
      ∀ s ∈ m.scopes, s.location = v.location.scope →
        (s.machine.startAt = some target → v.location.stateName? = none) ∧
        (s.machine.startAt ≠ some target →
          ∃ e ∈ s.machine.states, target ∈ e.state.targets ∧
            v.location.stateName? = some e.name) := by
  intro h
  have hreject : validate {} .astray = .error Machine.ghost := by
    decide +kernel
  have hbranch : ⟨Machine.ghost.location, 1, {
      startAt := some "Ghost"
      states := [⟨"Done", .succeed {}⟩] }⟩ ∈ Machine.astray.scopes :=
    .tail _ (.head _)
  obtain ⟨hstart, -⟩ := h {} .astray Machine.ghost "Ghost" hreject rfl _
    hbranch rfl
  have hname : Machine.ghost.location.stateName? = some "Fan" := rfl
  rw [hname] at hstart
  cases hstart rfl

end Workflow

import Workflow.Proofs.FieldDiagnosis
import Workflow.Proofs.WellFormed

/-!
# Every diagnostic is true

A rejected definition is reported at a location that leads, step by step, to an
element of the definition, and that element has the reported problem
(`exists_element_of_validate_error`). The field checks have been dealt with in
`FieldDiagnosis.lean`; here are the other phases of a scope and the descent
into branches.

The later phases report at states by name, and a name stands for its first
declaration. That the first declaration is the one at fault takes the names of
the scope to be distinct, which the earlier phases have made sure of.
-/

namespace Workflow

open Verdict

variable {settings : Settings} {location : Location} {v : Violation}
  {m : Machine}

/-! ## The phases of a scope -/

namespace Element

theorem child_state {e : Entry} (hnodup : (States.names m.states).Nodup)
    (he : e ∈ m.states) :
    (scope m).child (.state e.name) = some (state m e.name e.state) := by
  rw [child, States.get?_of_mem hnodup he]
  rfl

theorem exists_child_state {name : String}
    (h : name ∈ States.names m.states) :
    ∃ s, (scope m).child (.state name) = some (state m name s) := by
  obtain ⟨s, hs⟩ := States.exists_get? h
  refine ⟨s, ?_⟩
  rw [child, hs]
  rfl

/-- The phases that look at one state after the other tell the truth about a
scope if they do so about each state. -/
theorem explains_of_each {HasIt : Element → Problem → Prop}
    {check : Entry → Verdict} (hnodup : (States.names m.states).Nodup)
    (hcheck : ∀ e, check e = .error v →
      (state m e.name e.state).Explains HasIt (location.state e.name) v)
    (h : each check m.states = .error v) :
    (scope m).Explains HasIt location v := by
  obtain ⟨before, e, after, hstates, -, h⟩ := exists_of_each_error h
  have he : e ∈ m.states := by simp [hstates]
  exact explains_of_child rfl (child_state hnodup he) (hcheck e h)

end Element

theorem Validation.explains_of_checkDepth {depth : Nat}
    (hdepth : depth = location.branchDepth)
    (h : Validation.checkDepth settings location depth = .error v) :
    (Element.scope m).Explains
      (Element.HasNestingProblem settings v.location) location v := by
  obtain ⟨hlimit, rfl⟩ := eq_of_require_error h
  have hlimit : 0 < settings.maxNestingDepth ∧
      settings.maxNestingDepth < depth := by
    simpa [Settings.limitsNesting] using hlimit
  subst hdepth
  exact Element.explains_self (.tooDeep (by omega) hlimit.2)

theorem Fields.explains_of_checkStates
    (hnodup : (States.names m.states).Nodup)
    (h : Fields.checkStates location m.states = .error v) :
    (Element.scope m).Explains Element.HasFieldProblem location v :=
  Element.explains_of_each hnodup
    (fun _ he => Fields.explains_of_checkState he) h

namespace StatePaths

theorem explains_of_checkState {name : String} {s : State}
    (h : checkState location s = .error v) :
    (Element.state m name s).Explains Element.HasPathProblem location v := by
  rw [checkState_eq_each] at h
  obtain ⟨before, u, after, huses, -, h⟩ := exists_of_each_error h
  have hu : u ∈ s.pathUses location := by simp [huses]
  obtain ⟨fault, hcheck, rfl⟩ := PathUse.check_eq_error_iff.mp h
  rcases State.mem_pathUses_iff.mp hu with
    ⟨hl, hp⟩ | ⟨i, rule, hi, hl, hp⟩ | ⟨i, c, hi, hl, hp⟩
  · rw [hl]
    exact Element.explains_self (.badPath hp hcheck)
  · rw [hl]
    exact Element.explains_of_child rfl (Element.child_choice hi)
      (Element.explains_self (.badPath hp hcheck))
  · rw [hl]
    exact Element.explains_of_child rfl (Element.child_catcher hi)
      (Element.explains_self (.badPath hp hcheck))

theorem explains_of_checkStates (hnodup : (States.names m.states).Nodup)
    (h : checkStates location m.states = .error v) :
    (Element.scope m).Explains Element.HasPathProblem location v :=
  Element.explains_of_each hnodup (fun _ he => explains_of_checkState he) h

end StatePaths

namespace Targets

/-- A start that is not declared is reported at the scope, before all else. A
target that is not declared is reported at a state that names it. -/
theorem of_check_error (h : check location m = .error v) :
    (∃ name, m.startAt = some name ∧ name ∉ States.names m.states ∧
      v = ⟨location, .unknownTarget name⟩) ∨
    (∀ name, m.startAt = some name → name ∈ States.names m.states) ∧
      ∃ e ∈ m.states, ∃ target ∈ e.state.targets,
        target ∉ States.names m.states ∧
        v = ⟨location.state e.name, .unknownTarget target⟩ := by
  rw [check, bind_eq_error_iff] at h
  rcases h with h | ⟨hstart, h⟩
  · left
    rw [checkStart] at h
    split at h
    · next name hstart =>
        obtain ⟨hnot, rfl⟩ := eq_of_require_error h
        refine ⟨name, hstart, ?_, rfl⟩
        rw [← States.contains_eq_true_iff, hnot]
        exact Bool.false_ne_true
    · exact absurd h accept_ne_error
  · right
    refine ⟨checkStart_eq_ok_iff.mp hstart, ?_⟩
    obtain ⟨before, e, after, hstates, -, h⟩ := exists_of_each_error h
    refine ⟨e, by simp [hstates], ?_⟩
    rw [checkEntry] at h
    split at h
    · next target hfind =>
        refine ⟨target, List.mem_of_find?_eq_some hfind, ?_,
          eq_of_reject_error h⟩
        have hnot := List.find?_some hfind
        rw [← States.contains_eq_true_iff]
        simpa using hnot
    · exact absurd h accept_ne_error

theorem explains_of_check (hnodup : (States.names m.states).Nodup)
    (h : check location m = .error v) :
    (Element.scope m).Explains Element.HasTargetProblem location v := by
  rcases of_check_error h with
    ⟨name, hstart, hnot, rfl⟩ | ⟨-, e, he, target, htarget, hnot, rfl⟩
  · exact Element.explains_self (.start hstart hnot)
  · exact Element.explains_of_child rfl (Element.child_state hnodup he)
      (Element.explains_self (.target htarget hnot))

end Targets

namespace Termination

theorem explains_of_check
    (h : check settings.diagnostics location m = .error v) :
    (Element.scope m).Explains (Element.HasWalkProblem settings)
      location v := by
  obtain ⟨start, hstart, hmem, hend, rfl | ⟨name, rfl, hstyle, hreach, hcircle,
    hbranching⟩⟩ := of_check_error h
  · obtain ⟨s, hchild⟩ := Element.exists_child_state hmem
    exact Element.explains_of_child rfl hchild
      (Element.explains_self (.noTerminalPath hstart hend))
  · obtain ⟨_, _, _, _, _, hname⟩ := Relation.TransGen.tail'_iff.mp hcircle
    obtain ⟨s, hchild⟩ := Element.exists_child_state hname
    exact Element.explains_of_child rfl hchild (Element.explains_self
      (.cycle hstyle hstart hend hreach hcircle hbranching))

theorem explains_of_checkReachable
    (hnodup : (States.names m.states).Nodup)
    (hreject : settings.rejectUnreachableStates = true)
    (h : checkReachable location m = .error v) :
    (Element.scope m).Explains (Element.HasWalkProblem settings)
      location v := by
  obtain ⟨name, hname, rfl⟩ := of_checkReachable_error h
  obtain ⟨start, hstart, -, hmem, hreach⟩ :=
    (mem_unreachable_iff_of_nodup hnodup).mp hname
  obtain ⟨s, hchild⟩ := Element.exists_child_state hmem
  exact Element.explains_of_child rfl hchild
    (Element.explains_self (.unreachable hreject hstart hreach))

end Termination

/-! ## A scope and the scopes inside it -/

namespace Scope

variable {s c : Scope}

theorem explains_of_entry (hdepth : s.depth = s.location.branchDepth)
    (h : s.entry settings = .error v) :
    (Element.scope s.machine).Explains
      (Element.HasProblem settings v.location) s.location v := by
  simp only [entry_eq, bind_eq_error_iff] at h
  rcases h with h | ⟨-, h | ⟨hfields, h⟩⟩
  · exact (Validation.explains_of_checkDepth hdepth h).mono fun _ _ => .nesting
  · exact (Fields.explains_of_checkScope h).mono fun _ _ => .fields
  · have hnodup := (Fields.checkScope_eq_ok_iff.mp hfields).distinct
    rcases h with h | ⟨-, h | ⟨-, h⟩⟩
    · exact (Fields.explains_of_checkStates hnodup h).mono fun _ _ => .fields
    · exact (StatePaths.explains_of_checkStates hnodup h).mono
        fun _ _ => .paths
    · exact (Targets.explains_of_check hnodup h).mono fun _ _ => .targets

theorem explains_of_exit (hnodup : (States.names s.machine.states).Nodup)
    (h : s.exit settings = .error v) :
    (Element.scope s.machine).Explains (Element.HasWalkProblem settings)
      s.location v := by
  rw [exit_eq, bind_eq_error_iff] at h
  rcases h with h | ⟨-, h⟩
  · exact Termination.explains_of_check h
  · split at h
    · next hreject =>
        exact Termination.explains_of_checkReachable hnodup hreject h
    · exact absurd h accept_ne_error

theorem depth_eq_of_mem_children (hc : c ∈ s.children)
    (hdepth : s.depth = s.location.branchDepth) :
    c.depth = c.location.branchDepth := by
  obtain ⟨e, -, i, b, -, rfl⟩ := mem_children_iff.mp hc
  simp [Location.branchDepth, Location.branch, Location.state, Location.child,
    hdepth]

/-- The violation is true of an element in the scope or in a scope inside
it. -/
def Explains (settings : Settings) (s : Scope) (v : Violation) : Prop :=
  ∃ steps e, v.location = ⟨s.location.steps ++ steps⟩ ∧
    (Element.scope s.machine).locate steps = some e ∧
    e.HasProblem settings v.location v.problem

theorem explains_of_element
    (h : (Element.scope s.machine).Explains
      (Element.HasProblem settings v.location) s.location v) :
    s.Explains settings v := by
  obtain ⟨steps, e, hl, -, hlocate, hit⟩ := h
  exact ⟨steps, e, hl, hlocate, hit⟩

/-- From the location of a scope two steps lead to a scope directly inside it,
the second of which enters a branch. -/
theorem explains_of_child (hnodup : (States.names s.machine.states).Nodup)
    (hc : c ∈ s.children) (h : c.Explains settings v) :
    s.Explains settings v := by
  obtain ⟨e, he, i, b, hb, rfl⟩ := mem_children_iff.mp hc
  obtain ⟨steps, target, hl, hlocate, hit⟩ := h
  refine ⟨.state e.name :: .branch i :: steps, target, ?_, ?_, hit⟩
  · rw [hl]
    simp [Location.branch, Location.state, Location.child]
  · rw [Element.locate_cons (Element.child_state hnodup he),
      Element.locate_cons (Element.child_branch hb), hlocate]

theorem explains_of_verdict (hdepth : s.depth = s.location.branchDepth)
    (h : s.verdict settings = .error v) : s.Explains settings v := by
  induction s using induction with
  | step s ih =>
      rw [verdict_eq, bind_eq_error_iff, bind_eq_error_iff] at h
      rcases h with h | ⟨hentry, h⟩
      · exact explains_of_element (explains_of_entry hdepth h)
      · obtain ⟨-, hfields, -⟩ := entry_eq_ok_iff.mp hentry
        rcases h with h | ⟨-, h⟩
        · obtain ⟨before, c, after, hchildren, -, h⟩ := exists_of_each_error h
          have hc : c ∈ s.children := by simp [hchildren]
          exact explains_of_child hfields.distinct hc
            (ih c hc (depth_eq_of_mem_children hc hdepth) h)
        · exact explains_of_element ((explains_of_exit hfields.distinct h).mono
            fun _ _ => .walks)

end Scope

/-- A violation of a definition is true: its location stands for an element of
the definition, and that element has the reported problem. -/
theorem exists_element_of_validate_error
    (h : validate settings m = .error v) :
    ∃ e, m.locate v.location = some e ∧
      e.HasProblem settings v.location v.problem := by
  rw [validate_eq] at h
  obtain ⟨steps, e, hl, hlocate, hit⟩ := Scope.explains_of_verdict rfl h
  refine ⟨e, ?_, hit⟩
  rw [Machine.locate, hl]
  exact hlocate

/-- Two branches side by side, the second of which can only go round in a
circle. -/
def Machine.circling : Machine where
  startAt := some "Fan"
  states := [⟨"Fan", .parallel {
    branches := [
      .ofMachine {
        startAt := some "Done"
        states := [⟨"Done", .succeed {}⟩] },
      .ofMachine {
        startAt := some "Work"
        states := [
          ⟨"Work", .pass { transition := some (.next "Again") }⟩,
          ⟨"Again", .pass { transition := some (.next "Work") }⟩] }]
    transition := some .finish }⟩]

/-- The circle in the second branch. -/
def Machine.circle : Violation :=
  ⟨((Location.root.state "Fan").branch 1).state "Work", .cycle⟩

theorem exists_element_of_circling :
    validate {} .circling = .error Machine.circle ∧
      ∃ e, Machine.circling.locate Machine.circle.location = some e ∧
        e.HasProblem {} Machine.circle.location Machine.circle.problem :=
  ⟨by decide +kernel, exists_element_of_validate_error (by decide +kernel)⟩

end Workflow

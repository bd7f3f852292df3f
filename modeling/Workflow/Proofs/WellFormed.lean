import Workflow.Proofs.CarriedPaths
import Workflow.Proofs.FieldRules
import Workflow.Proofs.Scopes
import Workflow.Proofs.Walk

/-!
# Well-formed definitions

A validation looks at a definition in many small checks, in a fixed order, and
stops at the first that fails. None of that is visible in what it accepts: a
definition is accepted if and only if each of its scopes, taken by itself, is
well-formed (`validate_eq_ok_iff`). The check of termination lets a scope pass
whose start is not declared; that is no loophole, because such a scope has
failed before it gets there (`exit_eq_ok_iff`).
-/

namespace Workflow

/-! ## The rules of a scope -/

/-- The start of a scope and all targets of its states are declared in it. -/
structure Machine.Resolved (m : Machine) : Prop where
  start : ∀ name, m.startAt = some name → name ∈ States.names m.states
  targets : ∀ e ∈ m.states, ∀ target ∈ e.state.targets,
    target ∈ States.names m.states

/-- A scope that keeps all rules. What lies in scopes inside it is their
affair. -/
structure Scope.WellFormed (settings : Settings) (s : Scope) : Prop where
  depth : settings.maxNestingDepth = 0 ∨ s.depth ≤ settings.maxNestingDepth
  fields : s.machine.FieldsWellFormed
  stateFields : ∀ e ∈ s.machine.states, e.state.FieldsWellFormed
  paths : ∀ e ∈ s.machine.states, e.state.PathsWellFormed
  resolved : s.machine.Resolved
  /-- From the start, the scope can end in the ordinary course. -/
  ends : ∀ start, s.machine.startAt = some start →
    States.CanEnd s.machine.states start
  /-- If that is asked for, every state can be reached from the start, be it
  as one that catches an error. -/
  reached : settings.rejectUnreachableStates = true →
    ∀ start, s.machine.startAt = some start →
      ∀ name ∈ States.names s.machine.states,
        States.Reaches s.machine.states State.targets start name

/-! ## The checks of a scope -/

theorem Targets.checkEntry_eq_ok_iff {location : Location}
    {declared : States} {e : Entry} :
    Targets.checkEntry location declared e = .ok () ↔
      ∀ target ∈ e.state.targets, target ∈ States.names declared := by
  rw [Targets.checkEntry]
  simp only [← States.contains_eq_true_iff]
  cases hfind : e.state.targets.find? fun target =>
      !declared.contains target with
  | none =>
      refine iff_of_true rfl fun target htarget => ?_
      simpa using List.find?_eq_none.mp hfind target htarget
  | some target =>
      refine iff_of_false (by simp [Verdict.reject]) fun h => ?_
      have hdeclared := h target (List.mem_of_find?_eq_some hfind)
      have hnot := List.find?_some hfind
      simp [hdeclared] at hnot

theorem Targets.checkStart_eq_ok_iff {location : Location} {m : Machine} :
    Targets.checkStart location m = .ok () ↔
      ∀ name, m.startAt = some name → name ∈ States.names m.states := by
  rw [Targets.checkStart]
  cases m.startAt with
  | none => simp [Verdict.accept]
  | some name =>
      simp [Verdict.require_eq_ok_iff, States.contains_eq_true_iff]

theorem Targets.check_eq_ok_iff {location : Location} {m : Machine} :
    Targets.check location m = .ok () ↔ m.Resolved := by
  rw [Targets.check, Verdict.bind_eq_ok_iff, Verdict.each_eq_ok_iff,
    Targets.checkStart_eq_ok_iff]
  simp only [Targets.checkEntry_eq_ok_iff]
  exact ⟨fun h => ⟨h.1, h.2⟩, fun h => ⟨h.start, h.targets⟩⟩

theorem Validation.checkDepth_eq_ok_iff {settings : Settings}
    {location : Location} {depth : Nat} :
    Validation.checkDepth settings location depth = .ok () ↔
      settings.maxNestingDepth = 0 ∨ depth ≤ settings.maxNestingDepth := by
  simp [Validation.checkDepth, Verdict.require_eq_ok_iff,
    Settings.limitsNesting]

namespace Scope

variable {settings : Settings} {s : Scope}

theorem entry_eq_ok_iff :
    s.entry settings = .ok () ↔
      (settings.maxNestingDepth = 0 ∨ s.depth ≤ settings.maxNestingDepth) ∧
        s.machine.FieldsWellFormed ∧
        (∀ e ∈ s.machine.states, e.state.FieldsWellFormed) ∧
        (∀ e ∈ s.machine.states, e.state.PathsWellFormed) ∧
        s.machine.Resolved := by
  simp only [entry_eq, Verdict.bind_eq_ok_iff, Fields.checkScope_eq_ok_iff,
    Validation.checkDepth_eq_ok_iff, Fields.checkStates_eq_ok_iff,
    StatePaths.checkStates_eq_ok_iff, Targets.check_eq_ok_iff]

/-- What the checks at the end mean for a scope that has been entered, so that
its start is declared and its names are distinct. -/
theorem exit_eq_ok_iff (hfields : s.machine.FieldsWellFormed)
    (hresolved : s.machine.Resolved) :
    s.exit settings = .ok () ↔
      (∀ start, s.machine.startAt = some start →
        States.CanEnd s.machine.states start) ∧
      (settings.rejectUnreachableStates = true →
        ∀ start, s.machine.startAt = some start →
          ∀ name ∈ States.names s.machine.states,
            States.Reaches s.machine.states State.targets start name) := by
  rw [exit_eq, Verdict.bind_eq_ok_iff, Termination.check_eq_ok_iff]
  refine and_congr ?_ ?_
  · constructor
    · intro h start hstart
      exact h start hstart (hresolved.start start hstart)
    · intro h start hstart _
      exact h start hstart
  · split
    · next hreject =>
        rw [Termination.checkReachable_eq_ok_iff]
        simp only [Termination.mem_unreachable_iff_of_nodup hfields.distinct]
        constructor
        · intro h _ start hstart name hname
          by_contra hreach
          exact h name ⟨start, hstart, hresolved.start start hstart, hname,
            hreach⟩
        · intro h name hname
          obtain ⟨start, hstart, _, hname, hreach⟩ := hname
          exact hreach (h hreject start hstart name hname)
    · next hreject =>
        exact iff_of_true rfl fun h => absurd h hreject

theorem wellFormed_iff :
    s.WellFormed settings ↔
      s.entry settings = .ok () ∧ s.exit settings = .ok () := by
  constructor
  · intro h
    refine ⟨entry_eq_ok_iff.mpr ?_, ?_⟩
    · exact ⟨h.depth, h.fields, h.stateFields, h.paths, h.resolved⟩
    · rw [exit_eq_ok_iff h.fields h.resolved]
      exact ⟨h.ends, h.reached⟩
  · intro h
    obtain ⟨hentry, hexit⟩ := h
    obtain ⟨hdepth, hfields, hstates, hpaths, hresolved⟩ :=
      entry_eq_ok_iff.mp hentry
    obtain ⟨hends, hreached⟩ :=
      (exit_eq_ok_iff hfields hresolved).mp hexit
    exact ⟨hdepth, hfields, hstates, hpaths, hresolved, hends, hreached⟩

/-- A scope is accepted with all that lies inside it if and only if each of
these scopes passes its own checks. -/
theorem verdict_eq_ok_iff :
    s.verdict settings = .ok () ↔
      ∀ t ∈ s.preorder,
        t.entry settings = .ok () ∧ t.exit settings = .ok () := by
  induction s using induction with
  | step s ih =>
      rw [verdict_eq, Verdict.bind_eq_ok_iff, Verdict.bind_eq_ok_iff,
        Verdict.each_eq_ok_iff, preorder_eq, List.forall_mem_cons,
        List.forall_mem_flatMap]
      constructor
      · intro h
        obtain ⟨hentry, hchildren, hexit⟩ := h
        exact ⟨⟨hentry, hexit⟩, fun c hc => (ih c hc).mp (hchildren c hc)⟩
      · intro h
        obtain ⟨⟨hentry, hexit⟩, hinside⟩ := h
        exact ⟨hentry, fun c hc => (ih c hc).mpr (hinside c hc), hexit⟩

end Scope

theorem validate_eq (settings : Settings) (m : Machine) :
    validate settings m = m.scope.verdict settings := rfl

/-- A definition is accepted if and only if all of its scopes are
well-formed. -/
theorem validate_eq_ok_iff (settings : Settings) (m : Machine) :
    validate settings m = .ok () ↔ ∀ s ∈ m.scopes, s.WellFormed settings := by
  rw [validate_eq, Scope.verdict_eq_ok_iff]
  simp only [Scope.wellFormed_iff, Machine.scopes]

end Workflow

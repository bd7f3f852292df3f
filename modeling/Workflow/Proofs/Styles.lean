import Workflow.Proofs.Precedence
import Workflow.Proofs.SingleWay
import Workflow.Proofs.TwoRuns

/-!
# The two styles of diagnostics

The style decides how a scope is reported that cannot end, and nothing else. In
the split style such a scope is told apart as a circle if there is a state that
control is bound to run into again; in the unified style it never is, and is
reported at its start (`Termination.check_styles`). All other checks do not know
of the style, so two runs that differ in nothing else agree up to there, and
stop at the same scope.

Within a validation the split has a plain meaning: a scope that cannot end is
reported as a circle exactly if nothing that control may come to can fan out.
The check of termination would also call a halt at a state without a target,
but no such state gets that far (`exists_cycleHead?`).
-/

namespace Workflow

namespace Termination

variable {m : Machine} {location : Location}

theorem check_styles (location : Location) (m : Machine) :
    (check .unified location m = check .split location m ∧
      ∀ l, check .split location m ≠ .error ⟨l, .cycle⟩) ∨
    ∃ start name, m.startAt = some start ∧ name ∈ States.names m.states ∧
      check .split location m = .error ⟨location.state name, .cycle⟩ ∧
      check .unified location m =
        .error ⟨location.state start, .noTerminalPath⟩ := by
  rw [check, check]
  cases hstart : start? m with
  | none => exact .inl ⟨rfl, fun l => Verdict.accept_ne_error⟩
  | some v =>
      obtain ⟨a, ha, hv⟩ := start?_eq_some_iff.mp hstart
      simp only [problemAt]
      split
      · exact .inl ⟨rfl, fun l => Verdict.accept_ne_error⟩
      · cases hcycle : Graph.cycleHead? (Graph.ofStates m.states) v with
        | none => exact .inl ⟨rfl, fun l => by simp [Verdict.reject]⟩
        | some w =>
            obtain ⟨b, hb, -⟩ := Graph.exists_cycle_of_cycleHead? hv hcycle
            refine .inr ⟨a, b, ha, States.mem_names_of_index? hb, ?_, ?_⟩
            · simp only [Graph.name_ofStates hb]
              rfl
            · simp only [Graph.name_ofStates hv]
              rfl

/-- In a scope in order, the split style reports a circle exactly if nothing
that can be reached from the start may fan out. -/
theorem problem_eq_cycle_iff
    (hstates : ∀ e ∈ m.states, e.state.FieldsWellFormed)
    (hresolved : m.Resolved) {v : Violation}
    (h : check .split location m = .error v) :
    ∃ start, m.startAt = some start ∧ ¬ States.CanEnd m.states start ∧
      (v.problem = .cycle ↔
        ∀ b s, States.Reaches m.states State.nextTargets start b →
          States.get? m.states b = some s → ¬ s.Branching) := by
  obtain ⟨a, ha, hmem, hend, hv⟩ := of_check_error h
  refine ⟨a, ha, hend, ?_⟩
  rcases hv with rfl | ⟨b, rfl, -, -, -, hbranching⟩
  · refine iff_of_false (by simp) fun hbranching => ?_
    obtain ⟨start, hstart⟩ := States.exists_index? hmem
    obtain ⟨w, hw⟩ := Graph.exists_cycleHead? hstates hresolved hstart hend
      hbranching
    rw [check, start?_eq_some_iff.mpr ⟨a, ha, hstart⟩] at h
    simp only [problemAt, hw] at h
    split at h
    · exact absurd h Verdict.accept_ne_error
    · have hproblem := congrArg Violation.problem (Verdict.eq_of_reject_error h)
      cases hproblem
  · exact iff_of_true rfl hbranching

end Termination

/-- The verdicts of the split and the unified style, if they only differ in
what they report of a scope among the given ones that cannot end. -/
def Verdict.SameButCircle (scopes : List Scope) (split unified : Verdict) :
    Prop :=
  (unified = split ∧ ∀ l, split ≠ .error ⟨l, .cycle⟩) ∨
    ∃ s ∈ scopes, ∃ start name, s.machine.startAt = some start ∧
      name ∈ States.names s.machine.states ∧
      split = .error ⟨s.location.state name, .cycle⟩ ∧
      unified = .error ⟨s.location.state start, .noTerminalPath⟩

theorem Verdict.sameButCircle_sequential (scopes : List Scope) :
    Verdict.Sequential (Verdict.SameButCircle scopes) where
  accept := .inl ⟨rfl, fun _ => Verdict.accept_ne_error⟩
  seq := by
    intro u v f g huv hfg
    rcases huv with ⟨rfl, hcycle⟩ | ⟨s, hs, start, name, ha, hb, rfl, rfl⟩
    · cases v with
      | ok _ => exact hfg
      | error _ => exact .inl ⟨rfl, hcycle⟩
    · exact .inr ⟨s, hs, start, name, ha, hb, rfl, rfl⟩

namespace Scope

variable {settings : Settings} {scopes : List Scope} {v : Violation}

theorem problem_eq_unreachable {location : Location} {m : Machine}
    (h : (if settings.rejectUnreachableStates then
        Termination.checkReachable location m else Verdict.accept) =
      .error v) : v.problem = .unreachable := by
  split at h
  · obtain ⟨b, -, rfl⟩ := Termination.of_checkReachable_error h
    rfl
  · exact absurd h Verdict.accept_ne_error

theorem entry_styles (settings : Settings) (s : Scope) :
    Verdict.SameButCircle scopes (s.entry (settings.withDiagnostics .split))
      (s.entry (settings.withDiagnostics .unified)) := by
  refine .inl ⟨?_, fun l h => ?_⟩
  · rw [entry_eq, entry_eq]
    rfl
  · -- A circle is of the last phase, and no such problem keeps a scope from
    -- being entered.
    exact (passed_of_entry_error h).2.2 rfl

theorem exit_styles (settings : Settings) {s : Scope} (hs : s ∈ scopes) :
    Verdict.SameButCircle scopes (s.exit (settings.withDiagnostics .split))
      (s.exit (settings.withDiagnostics .unified)) := by
  rw [exit_eq, exit_eq]
  refine (Verdict.sameButCircle_sequential scopes).seq ?_ ?_
  · rcases Termination.check_styles s.location s.machine with h | h
    · exact .inl h
    · exact .inr ⟨s, hs, h⟩
  · refine .inl ⟨rfl, fun l h => ?_⟩
    cases problem_eq_unreachable h

theorem verdict_styles (settings : Settings) (s : Scope) :
    Verdict.SameButCircle s.preorder
      (s.verdict (settings.withDiagnostics .split))
      (s.verdict (settings.withDiagnostics .unified)) :=
  verdict_related (Verdict.sameButCircle_sequential _)
    (fun t _ => entry_styles settings t) (fun _ ht => exit_styles settings ht)

/-- The scope that reports that it cannot end does so by its check of
termination, once it has been entered. -/
theorem Reports.check_eq {s : Scope} (h : s.Reports settings v)
    (hv : v.problem = .cycle ∨ v.problem = .noTerminalPath) :
    s.PassesEntry settings ∧
      Termination.check settings.diagnostics s.location s.machine =
        .error v := by
  have hwalks : v.problem.phase = .walks := by
    rcases hv with hv | hv <;> rw [hv] <;> rfl
  rcases h with h | ⟨hentry, -, h⟩
  · exact absurd hwalks (passed_of_entry_error h).2.2
  refine ⟨hentry, ?_⟩
  rw [exit_eq, Verdict.bind_eq_error_iff] at h
  rcases h with h | ⟨-, h⟩
  · exact h
  · rw [problem_eq_unreachable h] at hv
    rcases hv with hv | hv <;> cases hv

end Scope

/-- The style of diagnostics changes only how a scope is named that cannot end.
The verdicts of the two styles are the same, unless the split one is a circle;
then the unified one is that there is no way to an end, at the start of the
same scope. And whenever the split style rejects a definition because a scope
cannot end, that is a circle exactly if no Choice or Parallel state of the scope
can be reached from its start. -/
theorem validate_styles (settings : Settings) (m : Machine) :
    ((validate (settings.withDiagnostics .unified) m =
          validate (settings.withDiagnostics .split) m ∧
        ∀ l, validate (settings.withDiagnostics .split) m ≠
          .error ⟨l, .cycle⟩) ∨
      ∃ s ∈ m.scopes, ∃ start name, s.machine.startAt = some start ∧
        name ∈ States.names s.machine.states ∧
        validate (settings.withDiagnostics .split) m =
          .error ⟨s.location.state name, .cycle⟩ ∧
        validate (settings.withDiagnostics .unified) m =
          .error ⟨s.location.state start, .noTerminalPath⟩) ∧
    ∀ v, validate (settings.withDiagnostics .split) m = .error v →
      v.problem = .cycle ∨ v.problem = .noTerminalPath →
      ∃ s ∈ m.scopes, s.location = v.location.scope ∧
        (∀ t ∈ m.scopes, t.location = s.location → t = s) ∧
        ∃ start, s.machine.startAt = some start ∧
          ¬ States.CanEnd s.machine.states start ∧
          (v.problem = .cycle ↔
            ∀ b t, States.Reaches s.machine.states State.nextTargets start b →
              States.get? s.machine.states b = some t → ¬ t.Branching) := by
  refine ⟨m.scope.verdict_styles settings, fun v h hv => ?_⟩
  rw [validate_eq] at h
  obtain ⟨before, s, hcomes, hreports⟩ :=
    Scope.exists_comesTo_of_verdict_error h
  have hmem : s ∈ m.scopes := hcomes.mem_preorder
  have hscope := hreports.scope_eq (Machine.depth_eq_of_mem_scopes s hmem)
    (Machine.location_scope_of_mem_scopes s hmem)
  obtain ⟨hentry, hcheck⟩ := hreports.check_eq hv
  obtain ⟨-, -, hstates, -, hresolved⟩ :=
    Scope.entry_eq_ok_iff.mp (Scope.passesEntry_iff.mp hentry)
  exact ⟨s, hmem, hscope.symm, hcomes.unique,
    Termination.problem_eq_cycle_iff hstates hresolved hcheck⟩

theorem validate_styles_circling :
    validate (Settings.withDiagnostics {} .split) .circling =
      .error Machine.circle ∧
    ∃ s ∈ Machine.circling.scopes, s.location = Machine.circle.location.scope ∧
      (∀ t ∈ Machine.circling.scopes, t.location = s.location → t = s) ∧
      ∃ start, s.machine.startAt = some start ∧
        ¬ States.CanEnd s.machine.states start ∧
        (Machine.circle.problem = .cycle ↔
          ∀ b t, States.Reaches s.machine.states State.nextTargets start b →
            States.get? s.machine.states b = some t → ¬ t.Branching) :=
  have hcircle : validate (Settings.withDiagnostics {} .split) .circling =
      .error Machine.circle := by decide +kernel
  ⟨hcircle, (validate_styles {} .circling).2 _ hcircle (.inl rfl)⟩

end Workflow

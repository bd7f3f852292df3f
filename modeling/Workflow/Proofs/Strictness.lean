import Workflow.Proofs.TwoRuns
import Workflow.Proofs.WellFormed

/-!
# Stricter settings

Two settings make a validation strict, and both do so by checks of their own: a
limit on nesting when a scope is entered, a search for unreachable states when
it is left. Neither check has a part in any other. So stricter settings let
everything stand as it was reported, unless one of these two checks comes first
with a violation that the laxer settings do not know (`validate_tightened`).
-/

namespace Workflow

/-- The second settings are at least as strict as the first and report in the
same style. -/
structure Settings.TightenTo (lax strict : Settings) : Prop where
  diagnostics : strict.diagnostics = lax.diagnostics
  reachability : lax.rejectUnreachableStates = true →
    strict.rejectUnreachableStates = true
  /-- Zero is no limit at all. -/
  nesting : lax.maxNestingDepth = 0 ∨
    strict.maxNestingDepth ≠ 0 ∧
      strict.maxNestingDepth ≤ lax.maxNestingDepth

/-- A problem that only the stricter settings take for one. -/
inductive Problem.AddedBy (lax strict : Settings) : Problem → Prop where
  | unreachable :
      strict.rejectUnreachableStates = true →
        lax.rejectUnreachableStates = false → AddedBy lax strict .unreachable
  | nestingTooDeep {depth : Nat} :
      strict.maxNestingDepth ≠ lax.maxNestingDepth →
        AddedBy lax strict (.nestingTooDeep depth strict.maxNestingDepth)

/-- The second verdict is the first or reports an added problem. -/
def Verdict.SameOrAdded (lax strict : Settings) (u v : Verdict) : Prop :=
  v = u ∨ ∃ x, v = .error x ∧ x.problem.AddedBy lax strict

variable {lax strict : Settings}

theorem Verdict.sameOrAdded_sequential :
    Verdict.Sequential (Verdict.SameOrAdded lax strict) where
  accept := .inl rfl
  seq := by
    intro u v f g huv hfg
    rcases huv with rfl | ⟨x, rfl, hx⟩
    · cases v with
      | ok _ => exact hfg
      | error _ => exact .inl rfl
    · exact .inr ⟨x, rfl, hx⟩

namespace Settings.TightenTo

theorem checkDepth (h : lax.TightenTo strict) (location : Location)
    (depth : Nat) :
    Verdict.SameOrAdded lax strict
      (Validation.checkDepth lax location depth)
      (Validation.checkDepth strict location depth) := by
  by_cases hlimit : strict.maxNestingDepth = lax.maxNestingDepth
  · left
    rw [Validation.checkDepth, Validation.checkDepth, Settings.limitsNesting,
      Settings.limitsNesting, hlimit]
  · cases hstrict : Validation.checkDepth strict location depth with
    | ok _ =>
        -- What keeps the lower limit keeps the higher one, and no limit at all.
        left
        have hkept : lax.maxNestingDepth = 0 ∨ depth ≤ lax.maxNestingDepth := by
          rw [Validation.checkDepth_eq_ok_iff] at hstrict
          have hnesting := h.nesting
          omega
        exact (Validation.checkDepth_eq_ok_iff.mpr hkept).symm
    | error x =>
        right
        refine ⟨x, rfl, ?_⟩
        rw [(Verdict.eq_of_require_error hstrict).2]
        exact .nestingTooDeep hlimit

theorem entry (h : lax.TightenTo strict) (s : Scope) :
    Verdict.SameOrAdded lax strict (s.entry lax) (s.entry strict) := by
  rw [Scope.entry_eq, Scope.entry_eq]
  exact Verdict.sameOrAdded_sequential.seq (h.checkDepth s.location s.depth)
    (.inl rfl)

theorem checkReachable (h : lax.TightenTo strict) (location : Location)
    (m : Machine) :
    Verdict.SameOrAdded lax strict
      (if lax.rejectUnreachableStates then
        Termination.checkReachable location m else .accept)
      (if strict.rejectUnreachableStates then
        Termination.checkReachable location m else .accept) := by
  by_cases heq : strict.rejectUnreachableStates = lax.rejectUnreachableStates
  · exact .inl (by rw [heq])
  · have hlax : lax.rejectUnreachableStates = false := by
      rw [Bool.eq_false_iff]
      intro hlax
      exact heq (by rw [hlax, h.reachability hlax])
    have hstrict : strict.rejectUnreachableStates = true := by
      rwa [hlax, Bool.not_eq_false] at heq
    rw [if_pos hstrict, hlax]
    cases hreach : Termination.checkReachable location m with
    | ok _ => exact .inl rfl
    | error x =>
        obtain ⟨_, -, rfl⟩ := Termination.of_checkReachable_error hreach
        exact .inr ⟨_, rfl, .unreachable hstrict hlax⟩

theorem exit (h : lax.TightenTo strict) (s : Scope) :
    Verdict.SameOrAdded lax strict (s.exit lax) (s.exit strict) := by
  rw [Scope.exit_eq, Scope.exit_eq, h.diagnostics]
  exact Verdict.sameOrAdded_sequential.seq (.inl rfl)
    (h.checkReachable s.location s.machine)

theorem verdict (h : lax.TightenTo strict) (s : Scope) :
    Verdict.SameOrAdded lax strict (s.verdict lax) (s.verdict strict) :=
  Scope.verdict_related Verdict.sameOrAdded_sequential
    (fun t _ => h.entry t) (fun t _ => h.exit t)

end Settings.TightenTo

/-- Stricter settings only add rejections of their own. The verdict is the one
under the laxer settings, or it is a state that is not reached or a scope that
lies too deep, and then the stricter settings are what makes it a violation. In
particular, what they accept is accepted anyway. -/
theorem validate_tightened (h : lax.TightenTo strict) (m : Machine) :
    (validate strict m = validate lax m ∨
      ∃ v, validate strict m = .error v ∧ v.problem.AddedBy lax strict) ∧
    (validate strict m = .ok () → validate lax m = .ok ()) := by
  have hverdict : Verdict.SameOrAdded lax strict (validate lax m)
      (validate strict m) := h.verdict m.scope
  refine ⟨hverdict, fun hok => ?_⟩
  rcases hverdict with heq | ⟨v, hv, -⟩
  · rw [← heq, hok]
  · rw [hok] at hv
    cases hv

/-- Two scopes below one another, the inner one with a state that nothing leads
to. -/
def Machine.idle : Machine where
  startAt := some "Fan"
  states := [⟨"Fan", .parallel {
    branches := [.ofMachine {
      startAt := some "Work"
      states := [
        ⟨"Work", .pass { transition := some .finish }⟩,
        ⟨"Idle", .pass { transition := some (.next "Work") }⟩] }]
    transition := some .finish }⟩]

theorem validate_tightened_idle :
    Settings.TightenTo { maxNestingDepth := 3 }
      { maxNestingDepth := 1, rejectUnreachableStates := true } ∧
    validate { maxNestingDepth := 3 } .idle = .ok () ∧
    (validate { maxNestingDepth := 1, rejectUnreachableStates := true } .idle =
        validate { maxNestingDepth := 3 } .idle ∨
      ∃ v, validate { maxNestingDepth := 1, rejectUnreachableStates := true }
          .idle = .error v ∧
        v.problem.AddedBy { maxNestingDepth := 3 }
          { maxNestingDepth := 1, rejectUnreachableStates := true }) ∧
    (validate { maxNestingDepth := 1, rejectUnreachableStates := true } .idle =
        .ok () →
      validate { maxNestingDepth := 3 } .idle = .ok ()) :=
  have htighten : Settings.TightenTo { maxNestingDepth := 3 }
      { maxNestingDepth := 1, rejectUnreachableStates := true } :=
    ⟨rfl, fun _ => rfl, .inr (by decide)⟩
  ⟨htighten, by decide +kernel, validate_tightened htighten .idle⟩

end Workflow

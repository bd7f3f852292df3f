import Mathlib.Logic.Equiv.Basic
import Workflow.Proofs.Diagnosis
import Workflow.Proofs.Renaming.Graph

/-!
# The verdict on a relabelled definition

The checks of a scope commute with a relabelling, and so does the walk from a
scope to those inside it. The verdict on a relabelled definition is therefore
the verdict on the definition, relabelled (`verdict_scope`). The one check that
asks for more than names is that of nesting: a definition can be moved to
another depth only where depth is not limited.

With the place left alone this is what a renaming does (`validate_rename`).
-/

namespace Workflow

namespace Relabelling

variable (r : Relabelling) {settings : Settings}

/-- The scope under its new labels. -/
def scope (s : Scope) : Scope :=
  ⟨r.place s.location, s.depth + r.levels, s.machine.rename r.name⟩

theorem verdict_checkDepth
    (hlevels : settings.maxNestingDepth = 0 ∨ r.levels = 0) (l : Location)
    (depth : Nat) :
    r.verdict (Validation.checkDepth settings l depth) =
      Validation.checkDepth settings (r.place l) (depth + r.levels) := by
  rw [Validation.checkDepth, verdict_require, Validation.checkDepth]
  rcases hlevels with hlimit | hlevels
  · simp [Settings.limitsNesting, hlimit, Verdict.require]
  · rw [hlevels, Nat.add_zero]
    rfl

theorem ofBranches_scope (l : Location) (depth index : Nat)
    (branches : List Branch) :
    Scope.ofBranches (r.place l) (depth + r.levels) index
        (branches.map (Branch.rename r.name)) =
      (Scope.ofBranches l depth index branches).map r.scope := by
  induction branches generalizing index with
  | nil => rfl
  | cons b bs ih =>
      rw [List.map_cons, Scope.ofBranches_cons, ih, Scope.ofBranches_cons,
        List.map_cons, scope, place_branch, Nat.add_right_comm]
      rfl

theorem children_scope (s : Scope) :
    (r.scope s).children = s.children.map r.scope := by
  have hentry : ∀ e : Entry,
      Scope.ofBranches ((r.place s.location).state (r.name e.name))
          (s.depth + r.levels) 0 (e.state.rename r.name).branches =
        (Scope.ofBranches (s.location.state e.name) s.depth 0
          e.state.branches).map r.scope := by
    intro e
    rw [← place_state, State.branches_rename, ofBranches_scope]
  rw [Scope.children, Scope.children, List.map_flatMap]
  change ((s.machine.rename r.name).states.flatMap _) = _
  rw [Machine.states_rename, List.flatMap_map]
  exact List.flatMap_congr fun e _ => hentry e

theorem entry_scope
    (hlevels : settings.maxNestingDepth = 0 ∨ r.levels = 0) (s : Scope) :
    (r.scope s).entry settings = r.verdict (s.entry settings) := by
  simp only [Scope.entry_eq, verdict_bind, r.verdict_checkDepth hlevels,
    verdict_checkScope, verdict_checkStates, verdict_checkPaths,
    verdict_checkTargets, ← Machine.states_rename]
  rfl

theorem exit_scope (s : Scope) :
    (r.scope s).exit settings = r.verdict (s.exit settings) := by
  rw [Scope.exit_eq, Scope.exit_eq, verdict_bind, verdict_checkTermination]
  cases settings.rejectUnreachableStates with
  | true =>
      simp only [if_true, verdict_checkReachable]
      rfl
  | false => rfl

theorem verdict_scope
    (hlevels : settings.maxNestingDepth = 0 ∨ r.levels = 0) (s : Scope) :
    (r.scope s).verdict settings = r.verdict (s.verdict settings) := by
  induction s using Scope.induction with
  | step s ih =>
      rw [Scope.verdict_eq, Scope.verdict_eq, verdict_bind, verdict_bind,
        r.entry_scope hlevels, children_scope, exit_scope,
        r.verdict_each fun c hc => (ih c hc).symm]

end Relabelling

/-- Renaming the states of a definition renames them in its verdict and changes
nothing else, provided that no two names become one and that the empty name
stays what it is. -/
theorem validate_rename {f : String → String} (hf : Function.Injective f)
    (hempty : f "" = "") (settings : Settings) (m : Machine) :
    validate settings (m.rename f) =
      (validate settings m).mapError (Violation.rename f) := by
  exact Relabelling.verdict_scope
    { name := f, injective := hf, name_empty := hempty } (.inr rfl) m.scope

/-- One state of the circle takes the name of the other. -/
def exchange : String → String := Equiv.swap "Work" "Again"

theorem validate_rename_circling :
    Function.Injective exchange ∧ exchange "" = "" ∧
      validate {} (Machine.circling.rename exchange) =
        (validate {} .circling).mapError (Violation.rename exchange) :=
  have hinjective : Function.Injective exchange := Equiv.injective _
  have hempty : exchange "" = "" :=
    Equiv.swap_apply_of_ne_of_ne (by decide) (by decide)
  ⟨hinjective, hempty, validate_rename hinjective hempty {} .circling⟩

end Workflow

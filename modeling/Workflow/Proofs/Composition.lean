import Workflow.Proofs.Renaming.Verdict
import Workflow.Proofs.Slots

/-!
# Branches are validated by themselves

What a branch is validated for has nothing to do with the definition that it
stands in. The scopes around it are entered before it and left after it without
a look inside, and inside it names, targets and walks begin anew. So if a
definition with an open branch is accepted with one machine in it, then with
any other machine the verdict is that on the machine alone, reported further
in (`validate_fill`).

Nesting depth is the exception, as a limit on it counts the scopes around; so
it must not be limited.
-/

namespace Workflow

/-- The violation of a definition that stands inside another, at a place. -/
def Violation.within (outer : Location) (v : Violation) : Violation :=
  ⟨⟨outer.steps ++ v.location.steps⟩, v.problem⟩

/-! ## Moving a scope -/

/-- The definition moves to another place and keeps its names. -/
def Relabelling.moving (base : Location) (levels : Nat) : Relabelling :=
  { name := id, injective := Function.injective_id, name_empty := rfl, base,
    levels }

theorem Relabelling.violation_moving (base : Location) (levels : Nat) :
    (moving base levels).violation = Violation.within base := by
  funext v
  simp [violation, place, moving, Step.rename_id, Problem.rename_id,
    Violation.within]

namespace Scope

variable {settings : Settings}

/-- The verdict on a scope away from the top is that on the same scope at the
top, within its location. -/
theorem verdict_moved {levels : Nat}
    (hlevels : settings.maxNestingDepth = 0 ∨ levels = 0) (l : Location)
    (depth : Nat) (m : Machine) :
    verdict settings ⟨l, depth + levels, m⟩ =
      (verdict settings ⟨.root, depth, m⟩).mapError (Violation.within l) := by
  have hscope : (Relabelling.moving l levels).scope ⟨.root, depth, m⟩ =
      ⟨l, depth + levels, m⟩ := by
    simp [Relabelling.scope, Relabelling.place, Relabelling.moving,
      Location.root, Machine.rename_id]
  rw [← hscope, Relabelling.verdict_scope _ hlevels, Relabelling.verdict,
    Relabelling.violation_moving]

/-! ## Filling a slot -/

/-- If a scope is accepted with one machine in its slot, the verdict on it with
another is the verdict on that machine in its place. -/
theorem verdict_fill {slot : BranchSlot} {l : Location} {depth : Nat}
    {b₀ : Machine}
    (h : verdict settings ⟨l, depth, slot.fill b₀⟩ = .ok ()) (b : Machine) :
    verdict settings ⟨l, depth, slot.fill b⟩ =
      verdict settings
        ⟨(l.state slot.name).branch slot.left.length, depth + 1, b⟩ := by
  obtain ⟨before, after, hchildren⟩ := exists_children_fill slot l depth
  rw [verdict_eq, Verdict.bind_eq_ok_iff, Verdict.bind_eq_ok_iff,
    Verdict.each_eq_ok_iff, hchildren] at h
  obtain ⟨hentry, hinside, hexit⟩ := h
  have hbefore : Verdict.each (verdict settings) before = .ok () :=
    Verdict.each_eq_ok_iff.mpr fun c hc =>
      hinside c (List.mem_append_left _ hc)
  have hafter : Verdict.each (verdict settings) after = .ok () :=
    Verdict.each_eq_ok_iff.mpr fun c hc =>
      hinside c (List.mem_append_right _ (List.mem_cons_of_mem _ hc))
  have hfilled : WellFormed settings ⟨l, depth, slot.fill b⟩ :=
    (wellFormed_iff.mpr ⟨hentry, hexit⟩).of_alike rfl (slot.alike_fill b₀ b)
  obtain ⟨hentry, hexit⟩ := wellFormed_iff.mp hfilled
  rw [verdict_eq, hentry, hexit, hchildren, Verdict.each_append, hbefore,
    Verdict.each, hafter]
  cases verdict settings
    ⟨(l.state slot.name).branch slot.left.length, depth + 1, b⟩ <;> rfl

/-- The same at any depth: from slot to slot the verdict is that on what the
slot is filled with. -/
theorem verdict_fill_context {b₀ : Machine} (b : Machine) {context : Context} :
    ∀ {l : Location} {depth : Nat},
      verdict settings ⟨l, depth, context.fill b₀⟩ = .ok () →
      verdict settings ⟨l, depth, context.fill b⟩ =
        verdict settings ⟨⟨l.steps ++ context.location.steps⟩,
          depth + context.length, b⟩ := by
  induction context with
  | nil =>
      intro l depth _
      simp [Context.fill, Context.location]
  | cons slot rest ih =>
      intro l depth h
      have hfill : ∀ b', Context.fill (slot :: rest) b' =
          slot.fill (Context.fill rest b') := fun _ => rfl
      rw [hfill] at h ⊢
      have hinner := (verdict_fill h (Context.fill rest b₀)).symm.trans h
      rw [verdict_fill h, ih hinner]
      simp [Context.location, BranchSlot.steps, Location.branch,
        Location.state, Location.child, Nat.add_assoc, Nat.add_comm 1]

end Scope

/-- Branches are validated by themselves. Where a definition with an open
branch is accepted for some machine in that branch, and nesting is not limited,
it is accepted for exactly the machines that are accepted alone; of any other
it reports what is reported of that machine alone, at the place of the
branch. -/
theorem validate_fill {settings : Settings}
    (hlimit : settings.maxNestingDepth = 0) {context : Context}
    {b₀ : Machine} (h : validate settings (context.fill b₀) = .ok ())
    (b : Machine) :
    (validate settings (context.fill b) = .ok () ↔
      validate settings b = .ok ()) ∧
    ∀ v, validate settings b = .error v →
      validate settings (context.fill b) =
        .error (v.within context.location) := by
  have hverdict : validate settings (context.fill b) =
      (validate settings b).mapError (Violation.within context.location) := by
    rw [validate_eq] at h ⊢
    rw [Machine.scope, Scope.verdict_fill_context b h,
      Scope.verdict_moved (.inl hlimit)]
    rfl
  rw [hverdict]
  cases validate settings b with
  | ok u => simp [Except.mapError]
  | error v => simp [Except.mapError]

/-- A machine that is done at once. -/
def Machine.done : Machine where
  startAt := some "Done"
  states := [⟨"Done", .succeed {}⟩]

/-- The second of two branches of a Parallel state is open. -/
def BranchSlot.beside : BranchSlot where
  scope := { startAt := some "Fan" }
  before := []
  name := "Fan"
  after := []
  state := { transition := some .finish }
  left := [.ofMachine .done]
  comment := none
  right := []

theorem validate_fill_circling :
    ({} : Settings).maxNestingDepth = 0 ∧
    validate {} (Context.fill [.beside, .beside] .done) = .ok () ∧
    (validate {} (Context.fill [.beside, .beside] .circling) = .ok () ↔
      validate {} .circling = .ok ()) ∧
    ∀ v, validate {} .circling = .error v →
      validate {} (Context.fill [.beside, .beside] .circling) =
        .error (v.within (Context.location [.beside, .beside])) :=
  have hdone : validate {} (Context.fill [.beside, .beside] .done) = .ok () :=
    by decide +kernel
  ⟨rfl, hdone, validate_fill rfl hdone .circling⟩

end Workflow

import Workflow.Proofs.Composition

/-!
# Acceptance at a depth

All that a scope has to do with what lies around it is its nesting depth: where
it stands makes no difference to whether it is accepted. So acceptance is a
matter of the machine and a depth, and it is settled by the rules of the scope
itself together with the acceptance of its branches one level deeper
(`acceptedAt_iff`). What holds of accepted machines is proved along that
equivalence, by induction over the branches.
-/

namespace Workflow

/-- The definition is accepted at a nesting depth, wherever that is. -/
def Machine.AcceptedAt (settings : Settings) (depth : Nat) (m : Machine) :
    Prop :=
  Scope.verdict settings ⟨.root, depth, m⟩ = .ok ()

namespace Machine

variable {settings : Settings} {depth : Nat} {m : Machine}

theorem verdict_eq_ok_iff_acceptedAt (l : Location) :
    Scope.verdict settings ⟨l, depth, m⟩ = .ok () ↔
      m.AcceptedAt settings depth := by
  have hmoved : Scope.verdict settings ⟨l, depth, m⟩ =
      (Scope.verdict settings ⟨.root, depth, m⟩).mapError
        (Violation.within l) :=
    Scope.verdict_moved (.inr rfl) l depth m
  rw [hmoved, AcceptedAt]
  cases Scope.verdict settings ⟨.root, depth, m⟩ <;> simp [Except.mapError]

/-- A scope is accepted for its own rules and for the branches inside it, in
whatever order they come. -/
theorem acceptedAt_iff :
    m.AcceptedAt settings depth ↔
      Scope.WellFormed settings ⟨.root, depth, m⟩ ∧
        ∀ e ∈ m.states, ∀ b ∈ e.state.branches,
          b.machine.AcceptedAt settings (depth + 1) := by
  rw [AcceptedAt, Scope.verdict_eq, Verdict.bind_eq_ok_iff,
    Verdict.bind_eq_ok_iff, Verdict.each_eq_ok_iff, Scope.wellFormed_iff]
  have hchildren :
      (∀ c ∈ Scope.children ⟨.root, depth, m⟩,
          Scope.verdict settings c = .ok ()) ↔
        ∀ e ∈ m.states, ∀ b ∈ e.state.branches,
          b.machine.AcceptedAt settings (depth + 1) := by
    constructor
    · intro h e he b hb
      obtain ⟨i, hi⟩ := List.mem_iff_getElem?.mp hb
      exact (verdict_eq_ok_iff_acceptedAt _).mp
        (h _ (Scope.mem_children_iff.mpr ⟨e, he, i, b, hi, rfl⟩))
    · intro h c hc
      obtain ⟨e, he, i, b, hi, rfl⟩ := Scope.mem_children_iff.mp hc
      exact (verdict_eq_ok_iff_acceptedAt _).mpr
        (h e he b (List.mem_of_getElem? hi))
  rw [hchildren]
  constructor
  · intro h
    exact ⟨⟨h.1, h.2.2⟩, h.2.1⟩
  · intro h
    exact ⟨h.1.1, h.2, h.1.2⟩

end Machine

end Workflow

import Workflow.Proofs.Alike

/-!
# Parts of a scope that control does not leave

A scope may be a part of another: some of its states are left out, or one more
is declared. As long as all targets of the part lie in the part, the rest makes
no difference to what goes on inside it. A walk that begins in the part is a
walk of the part, whatever the rest goes on to (`reaches_iff`), and the part can
end from a state if and only if the whole can (`canEnd_iff`).
-/

namespace Workflow

/-- Targets of one sort: some of those that a state has, and the same for states
that are alike. -/
structure State.TargetSort (targets : State → List String) : Prop where
  among : ∀ s, targets s ⊆ s.targets
  alike : ∀ {s t : State}, s.Alike t → ∀ a, a ∈ targets s ↔ a ∈ targets t

theorem State.targetSort_targets : State.TargetSort State.targets :=
  ⟨fun _ => List.Subset.refl _, fun h => h.targets⟩

theorem State.targetSort_nextTargets : State.TargetSort State.nextTargets :=
  ⟨State.nextTargets_subset_targets, fun h => h.nextTargets⟩

namespace States

/-- The states of the part are among those of the whole and go on to states of
the part only. -/
structure ClosedPart (part whole : States) : Prop where
  covers : Covers part whole
  closed : ∀ e ∈ part, ∀ a ∈ e.state.targets, a ∈ names part

namespace ClosedPart

variable {part whole : States} {targets : State → List String} {a b : String}

theorem names_subset (h : ClosedPart part whole) :
    names part ⊆ names whole := by
  intro a ha
  obtain ⟨e, he, rfl⟩ := mem_names_iff.mp ha
  obtain ⟨e', he', hname, -⟩ := h.covers e he
  exact mem_names_iff.mpr ⟨e', he', hname⟩

theorem exists_get? (h : ClosedPart part whole) (hnodup : (names whole).Nodup)
    (ha : a ∈ names part) {t : State} (ht : whole.get? a = some t) :
    ∃ s, part.get? a = some s ∧ s.Alike t := by
  obtain ⟨s, hs⟩ := States.exists_get? ha
  obtain ⟨s', hs', halike⟩ := h.covers.get? hnodup hs
  rw [ht] at hs'
  injection hs' with hs'
  exact ⟨s, hs, hs' ▸ halike⟩

/-- A step from a state of the part is one of the part. -/
theorem step (h : ClosedPart part whole) (hnodup : (names whole).Nodup)
    (hsort : State.TargetSort targets) (ha : a ∈ names part)
    (hstep : Step whole targets a b) : Step part targets a b := by
  obtain ⟨t, ht, hb, -⟩ := hstep
  obtain ⟨s, hs, halike⟩ := h.exists_get? hnodup ha ht
  have hb := (hsort.alike halike b).mpr hb
  obtain ⟨i, -, e, he, rfl⟩ := get?_eq_some_iff.mp hs
  exact ⟨e.state, hs, hb,
    h.closed e (List.mem_of_getElem? he) b (hsort.among _ hb)⟩

theorem reaches_iff (h : ClosedPart part whole) (hnodup : (names whole).Nodup)
    (hsort : State.TargetSort targets) (ha : a ∈ names part) :
    Reaches whole targets a b ↔ Reaches part targets a b := by
  constructor
  · intro hab
    induction hab using Relation.ReflTransGen.head_induction_on with
    | refl => exact .refl
    | head hstep _ ih =>
        have hstep := h.step hnodup hsort ha hstep
        exact .head hstep (ih hstep.mem_names.2)
  · intro hab
    exact h.covers.reaches hnodup h.names_subset
      (fun _ _ halike c => (hsort.alike halike c).mp) hab

theorem canEnd_iff (h : ClosedPart part whole) (hnodup : (names whole).Nodup)
    (ha : a ∈ names part) : CanEnd whole a ↔ CanEnd part a := by
  constructor
  · rintro ⟨b, t, hab, ht, hfinal⟩
    have hab := (h.reaches_iff hnodup State.targetSort_nextTargets ha).mp hab
    obtain ⟨s, hs, halike⟩ := h.exists_get? hnodup (hab.mem_names ha) ht
    exact ⟨b, s, hab, hs, halike.final.mpr hfinal⟩
  · exact h.covers.canEnd hnodup h.names_subset

end ClosedPart

end States

end Workflow

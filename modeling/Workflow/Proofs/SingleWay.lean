import Workflow.Proofs.WellFormed

/-!
# The only way through a scope

The walk that looks for a circle follows first edges from node to node. It runs
on `size + 1` steps, which is bookkeeping: it has visited each node once by
then, so it comes back to one unless it is stopped at a node without an edge.

In a scope that has been entered there is no such node on its way. A state that
neither may fan out nor ends the scope has a transition that names its target,
and that target is declared. This takes two checks from elsewhere, of fields
and of targets; the walk by itself knows nothing of them.
-/

namespace Workflow

namespace Graph

/-- A walk along first edges with steps enough for all nodes not yet visited
comes to one for the second time, if no node on its way is without an edge. -/
theorem exists_firstRepeat? {g : Graph} :
    ∀ {steps : Nat} {visited : List Nat} {v : Nat},
      visited.Nodup → (∀ u ∈ visited, u < g.size) →
      g.size < visited.length + steps →
      (∀ u, Relation.ReflTransGen (fun a b => b ∈ g.successors a) v u →
        g.successors u ≠ []) →
      ∃ w, g.firstRepeat? steps visited v = some w := by
  intro steps
  induction steps with
  | zero =>
      -- There are more nodes visited than there are nodes.
      intro visited v hnodup hvisited hsteps _
      have hsubset : visited ⊆ List.range g.size := fun u hu =>
        List.mem_range.mpr (hvisited u hu)
      have hlength := hnodup.length_le_of_subset hsubset
      rw [List.length_range] at hlength
      omega
  | succ steps ih =>
      intro visited v hnodup hvisited hsteps hnext
      rw [firstRepeat?]
      by_cases hv : v ∈ visited
      · exact ⟨v, by rw [if_pos hv]⟩
      · rw [if_neg hv]
        cases hsucc : g.successors v with
        | nil => exact absurd hsucc (hnext v .refl)
        | cons x rest =>
            have hx : x ∈ g.successors v := by simp [hsucc]
            have hlt : v < g.size := lt_size_of_mem_successors hx
            exact ih (List.nodup_cons.mpr ⟨hv, hnodup⟩)
              (List.forall_mem_cons.mpr ⟨hlt, hvisited⟩)
              (by rw [List.length_cons]; omega)
              (fun u hu => hnext u (.head hx hu))

end Graph

/-- A state that has to go on, and has no choice of where. -/
theorem State.nextTargets_eq_singleton {s : State} (h : s.FieldsWellFormed)
    (hbranching : ¬ s.Branching) (hfinal : ¬ s.Final) :
    ∃ b, s.nextTargets = [b] := by
  have hplain : ∀ t : Option Transition, TransitionGiven t →
      t ≠ some .finish → ∃ b, (t.bind Transition.target?).toList = [b] := by
    intro t ht hfinish
    rcases ht with rfl | ⟨name, rfl, -⟩
    · exact absurd rfl hfinish
    · exact ⟨name, rfl⟩
  have hfinish : s.transition ≠ some .finish := fun h =>
    hfinal (.inr (.inr h))
  cases s with
  | pass s => exact hplain _ h hfinish
  | task s => exact hplain _ h.transition hfinish
  | wait s => exact hplain _ h.transition hfinish
  | choice s => exact absurd (.inl rfl) hbranching
  | succeed s => exact absurd (.inl rfl) hfinal
  | fail s => exact absurd (.inr (.inl rfl)) hfinal
  | parallel s => exact absurd (.inr rfl) hbranching

namespace States

/-- Nothing that control may come to from the state of this name can fan
out. -/
def NeverBranches (states : States) (a : String) : Prop :=
  ∀ b s, Reaches states State.nextTargets a b → states.get? b = some s →
    ¬ s.Branching

end States

namespace Graph

variable {m : Machine} {states : States} {a : String} {start : Nat}

/-- If nothing that can be reached may fan out, and everything that can be
reached goes on, the search for a circle finds one. -/
theorem exists_cycleHead?_of_step (ha : states.index? a = some start)
    (hplain : states.NeverBranches a)
    (hstep : ∀ b, States.Reaches states State.nextTargets a b →
      ∃ c, States.Step states State.nextTargets b c) :
    ∃ w, Graph.cycleHead? (ofStates states) start = some w := by
  have hnone : ¬ ((ofStates states).reachable start false).any
      (ofStates states).isBranching = true := by
    rw [any_isBranching_iff ha]
    rintro ⟨b, s, hab, hs, h⟩
    exact hplain b s hab hs h
  rw [cycleHead?, if_neg hnone]
  refine exists_firstRepeat? .nil (by simp) (by simp) fun u hu => ?_
  rw [successors_ofStates] at hu ⊢
  obtain ⟨b, hab, hb⟩ := exists_reaches_of_walk ha hu
  obtain ⟨c, hbc⟩ := hstep b hab
  obtain ⟨w, hw⟩ := States.exists_index? hbc.mem_names.2
  exact List.ne_nil_of_mem ((mem_edges_iff_step hb).mpr ⟨c, hbc, hw⟩)

/-- If a scope in order cannot end from its start and nothing that can be
reached may fan out, the search for a circle finds one. -/
theorem exists_cycleHead? (hstates : ∀ e ∈ m.states, e.state.FieldsWellFormed)
    (hresolved : m.Resolved) (ha : States.index? m.states a = some start)
    (hend : ¬ States.CanEnd m.states a)
    (hbranching : States.NeverBranches m.states a) :
    ∃ w, Graph.cycleHead? (ofStates m.states) start = some w := by
  refine exists_cycleHead?_of_step ha hbranching fun b hab => ?_
  obtain ⟨s, hs⟩ := States.exists_get?
    (hab.mem_names (States.mem_names_of_index? ha))
  obtain ⟨i, -, e, he, rfl⟩ := States.get?_eq_some_iff.mp hs
  have he := List.mem_of_getElem? he
  have hfinal : ¬ e.state.Final := fun h => hend ⟨b, _, hab, hs, h⟩
  obtain ⟨c, hc⟩ := State.nextTargets_eq_singleton (hstates e he)
    (hbranching b _ hab hs) hfinal
  have hcnext : c ∈ e.state.nextTargets := by simp [hc]
  exact ⟨c, _, hs, hcnext,
    hresolved.targets e he c (State.nextTargets_subset_targets _ hcnext)⟩

end Graph

end Workflow

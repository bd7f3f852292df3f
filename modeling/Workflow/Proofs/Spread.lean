import Mathlib.Data.Finset.Card
import Mathlib.Logic.Relation
import Workflow.Graph

/-!
# The level walk visits exactly what can be reached

`Graph.spread` runs on a number of rounds that is bookkeeping, not a bound on
how far it may look: each round either finds nothing, and then the visited
nodes are closed under the edges, or adds a node. A walk over `n` nodes that
has visited `k` of them therefore needs no more than `n - k` further rounds,
and `Spreading` is the invariant that says so. Both walks of the analysis,
forward from the start and backward from the terminal nodes, are instances.
-/

namespace Workflow

namespace Graph

/-- A walk over `n` nodes on its way: the rounds left suffice for the nodes
not yet visited, and what is not on the frontier has been followed. -/
structure Spreading (next : Nat → List Nat) (n rounds : Nat)
    (visited frontier : List Nat) : Prop where
  bounded : ∀ v ∈ visited, v < n
  enough : n ≤ visited.toFinset.card + rounds
  followed : ∀ u ∈ visited, u ∉ frontier → ∀ w ∈ next u, w ∈ visited

variable {next : Nat → List Nat} {n rounds : Nat}
  {visited frontier : List Nat}

/-- The nodes that a round finds. -/
def found (next : Nat → List Nat) (visited frontier : List Nat) : List Nat :=
  ((frontier.flatMap next).filter fun v => v ∉ visited).eraseDups

theorem mem_found_iff {w : Nat} :
    w ∈ found next visited frontier ↔
      (∃ u ∈ frontier, w ∈ next u) ∧ w ∉ visited := by
  simp [found, List.mem_eraseDups]

/-- A round that finds something keeps the invariant. -/
theorem Spreading.step (h : Spreading next n (rounds + 1) visited frontier)
    (hnext : ∀ u, ∀ w ∈ next u, w < n)
    (hfound : found next visited frontier ≠ []) :
    Spreading next n rounds (visited ++ found next visited frontier)
      (found next visited frontier) where
  bounded := by
    intro w hw
    rcases List.mem_append.mp hw with hw | hw
    · exact h.bounded w hw
    · obtain ⟨⟨u, -, hu⟩, -⟩ := mem_found_iff.mp hw
      exact hnext u w hu
  enough := by
    have hsub : visited.toFinset ⊂
        (visited ++ found next visited frontier).toFinset := by
      obtain ⟨w, hw⟩ := List.exists_mem_of_ne_nil _ hfound
      refine Finset.ssubset_iff_subset_ne.mpr ⟨fun v hv => ?_, fun heq => ?_⟩
      · rw [List.mem_toFinset] at hv ⊢
        exact List.mem_append_left _ hv
      · have hwv : w ∈ visited.toFinset := by
          rw [heq, List.mem_toFinset]
          exact List.mem_append_right _ hw
        exact (mem_found_iff.mp hw).2 (List.mem_toFinset.mp hwv)
    have hcard := Finset.card_lt_card hsub
    have henough := h.enough
    omega
  followed := by
    intro u hu hu' w hw
    have hu := (List.mem_append.mp hu).resolve_right hu'
    by_cases hwv : w ∈ visited
    · exact List.mem_append_left _ hwv
    · by_cases hfrontier : u ∈ frontier
      · exact List.mem_append_right _
          (mem_found_iff.mpr ⟨⟨u, hfrontier, hw⟩, hwv⟩)
      · exact absurd (h.followed u hu hfrontier w hw) hwv

theorem Spreading.mem_of_no_rounds (h : Spreading next n 0 visited frontier)
    {v : Nat} (hv : v < n) : v ∈ visited := by
  have hsub : visited.toFinset ⊆ Finset.range n := by
    intro u hu
    exact Finset.mem_range.mpr (h.bounded u (List.mem_toFinset.mp hu))
  have hcard : (Finset.range n).card ≤ visited.toFinset.card := by
    rw [Finset.card_range]
    exact h.enough
  have heq := Finset.eq_of_subset_of_card_le hsub hcard
  rw [← List.mem_toFinset, heq]
  exact Finset.mem_range.mpr hv

theorem spread_succ (next : Nat → List Nat) (rounds : Nat)
    (visited frontier : List Nat) :
    spread next (rounds + 1) visited frontier =
      if found next visited frontier = [] then visited
      else spread next rounds (visited ++ found next visited frontier)
        (found next visited frontier) := by
  rw [spread, found]
  split
  · next h => rw [if_pos h]
  · next h => rw [if_neg (by simpa using h)]

theorem subset_spread : ∀ (rounds : Nat) (visited frontier : List Nat),
    visited ⊆ spread next rounds visited frontier := by
  intro rounds
  induction rounds with
  | zero => intro visited frontier v hv; exact hv
  | succ rounds ih =>
      intro visited frontier v hv
      rw [spread_succ]
      split
      · exact hv
      · exact ih _ _ (List.mem_append_left _ hv)

theorem Spreading.closed (hnext : ∀ u, ∀ w ∈ next u, w < n) :
    ∀ {rounds : Nat} {visited frontier : List Nat},
      Spreading next n rounds visited frontier →
      ∀ u ∈ spread next rounds visited frontier, ∀ w ∈ next u,
        w ∈ spread next rounds visited frontier := by
  intro rounds
  induction rounds with
  | zero =>
      intro visited frontier h u _ w hw
      exact h.mem_of_no_rounds (hnext u w hw)
  | succ rounds ih =>
      intro visited frontier h u hu w hw
      rw [spread_succ] at hu ⊢
      by_cases hnone : found next visited frontier = []
      · rw [if_pos hnone] at hu ⊢
        by_cases hfrontier : u ∈ frontier
        · by_contra hwv
          have hfound := mem_found_iff.mpr ⟨⟨u, hfrontier, hw⟩, hwv⟩
          rw [hnone] at hfound
          exact absurd hfound List.not_mem_nil
        · exact h.followed u hu hfrontier w hw
      · rw [if_neg hnone] at hu ⊢
        exact ih (h.step hnext hnone) u hu w hw

theorem exists_reach_of_mem_spread :
    ∀ {rounds : Nat} {visited frontier : List Nat}, frontier ⊆ visited →
      ∀ v ∈ spread next rounds visited frontier,
        ∃ u ∈ visited, Relation.ReflTransGen (fun a b => b ∈ next a) u v := by
  intro rounds
  induction rounds with
  | zero => intro visited frontier _ v hv; exact ⟨v, hv, .refl⟩
  | succ rounds ih =>
      intro visited frontier hsub v hv
      rw [spread_succ] at hv
      split at hv
      · exact ⟨v, hv, .refl⟩
      · obtain ⟨u, hu, huv⟩ := ih (List.subset_append_right ..) v hv
        rcases List.mem_append.mp hu with hu | hu
        · exact ⟨u, hu, huv⟩
        · obtain ⟨⟨t, ht, htu⟩, -⟩ := mem_found_iff.mp hu
          exact ⟨t, hsub ht, .head htu huv⟩

/-- The walk from given nodes, with a round for each node of the graph,
visits exactly the nodes that can be reached from them. -/
theorem mem_spread_iff {start : List Nat} (hstart : ∀ v ∈ start, v < n)
    (hnext : ∀ u, ∀ w ∈ next u, w < n) {v : Nat} :
    v ∈ spread next n start start ↔
      ∃ u ∈ start, Relation.ReflTransGen (fun a b => b ∈ next a) u v := by
  have h : Spreading next n n start start :=
    ⟨hstart, Nat.le_add_left .., fun u hu hu' => absurd hu hu'⟩
  constructor
  · exact exists_reach_of_mem_spread (List.Subset.refl _) v
  · intro h
    obtain ⟨u, hu, huv⟩ := h
    induction huv with
    | refl => exact subset_spread _ _ _ hu
    | tail _ hw ih => exact h.closed hnext _ ih _ hw

end Graph

end Workflow

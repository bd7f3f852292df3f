import Mathlib.Data.Finset.Card
import Mathlib.Order.Bounds.Basic
import Workflow.Proofs.Walk

/-!
# The nodes that can end, as a least fixed point

A node can end if it is terminal or if an edge leads from it to a node that can.
As a rule for sets of nodes this has more than one solution: the nodes of a
circle without a way out would hold one another up. The set that is meant is the
least one.

There are three ways to it. It consists of the nodes from which a walk leads to
a terminal node. It is what the rule arrives at that is applied to the empty set
over and over, until nothing changes any more. And it is what the analysis
finds, which does neither, but goes back along the edges from the terminal
nodes. The three are the same for every scope, be it in order or not
(`terminating_least`).
-/

namespace Workflow

/-- To apply `f` over and over, from the first value on and until nothing
changes any more, ends with the second. -/
inductive Settles {α : Type} (f : α → α) : α → α → Prop where
  | still {a : α} : f a = a → Settles f a a
  | again {a b : α} : f a ≠ a → Settles f (f a) b → Settles f a b

namespace Settles

variable {α : Type} {f : α → α} {a b : α}

theorem fixed (h : Settles f a b) : f b = b := by
  induction h with
  | still h => exact h
  | again _ _ ih => exact ih

/-- What holds at the start and is kept by every round holds at the end. -/
theorem of_invariant {P : α → Prop} (hkept : ∀ x, P x → P (f x))
    (h : Settles f a b) (ha : P a) : P b := by
  induction h with
  | still _ => exact ha
  | again _ _ ih => exact ih (hkept _ ha)

end Settles

namespace Graph

variable {g : Graph} {v : Nat}

/-- The set has every terminal node in it, and every node with an edge into
it. -/
structure ClosedBackward (g : Graph) (set : Set Nat) : Prop where
  terminal : ∀ v, g.isTerminal v = true → v ∈ set
  step : ∀ v, ∀ w ∈ g.successors v, w ∈ set → v ∈ set

/-- The nodes that are terminal or have an edge into the set. -/
def widen (g : Graph) (set : Finset Nat) : Finset Nat :=
  (Finset.range g.size).filter fun v =>
    g.isTerminal v = true ∨ ∃ w ∈ g.successors v, w ∈ set

theorem lt_size_of_mem_terminating (h : v ∈ g.terminating) : v < g.size := by
  obtain ⟨t, hvt, ht, -⟩ := mem_terminating_iff.mp h
  rcases Relation.ReflTransGen.cases_head hvt with rfl | ⟨w, hw, -⟩
  · exact ht
  · exact lt_size_of_mem_successors hw

theorem marks_terminating_iff :
    (g.marks g.terminating)[v]? = some true ↔ v ∈ g.terminating := by
  rw [getElem?_marks_eq_true_iff]
  exact and_iff_right_of_imp lt_size_of_mem_terminating

/-! ## The least set -/

theorem closedBackward_terminating :
    g.ClosedBackward {v | v ∈ g.terminating} where
  terminal := fun v hv =>
    mem_terminating_iff.mpr ⟨v, .refl, lt_size_of_isTerminal hv, hv⟩
  step := by
    intro v w hvw hw
    obtain ⟨t, hwt, ht⟩ := mem_terminating_iff.mp hw
    exact mem_terminating_iff.mpr ⟨t, .head hvw hwt, ht⟩

/-- Whatever closed set there is, it has the end of a walk to a terminal node
in it, and so the whole walk. -/
theorem ClosedBackward.terminating_subset {set : Set Nat}
    (h : g.ClosedBackward set) : {v | v ∈ g.terminating} ⊆ set := by
  intro v hv
  obtain ⟨t, hvt, -, ht⟩ := mem_terminating_iff.mp hv
  clear hv
  -- From the end of the walk back to its start.
  induction hvt using Relation.ReflTransGen.head_induction_on with
  | refl => exact h.terminal t ht
  | head hvw _ ih => exact h.step _ _ hvw ih

theorem isLeast_terminating :
    IsLeast {set | g.ClosedBackward set} {v | v ∈ g.terminating} :=
  ⟨closedBackward_terminating, fun _ h => h.terminating_subset⟩

/-! ## The rule applied over and over -/

variable {set set' : Finset Nat}

theorem mem_widen_iff :
    v ∈ g.widen set ↔
      g.isTerminal v = true ∨ ∃ w ∈ g.successors v, w ∈ set := by
  rw [widen, Finset.mem_filter, Finset.mem_range]
  refine and_iff_right_of_imp fun h => ?_
  rcases h with hv | ⟨w, hvw, -⟩
  · exact lt_size_of_isTerminal hv
  · exact lt_size_of_mem_successors hvw

theorem widen_subset_widen (h : set ⊆ set') : g.widen set ⊆ g.widen set' := by
  intro v hv
  rw [mem_widen_iff] at hv ⊢
  rcases hv with hv | ⟨w, hvw, hw⟩
  · exact .inl hv
  · exact .inr ⟨w, hvw, h hw⟩

theorem closedBackward_iff :
    g.ClosedBackward (set : Set Nat) ↔ g.widen set ⊆ set := by
  constructor
  · intro h v hv
    rcases mem_widen_iff.mp hv with hv | ⟨w, hvw, hw⟩
    · exact h.terminal v hv
    · exact h.step v w hvw hw
  · intro h
    exact ⟨fun v hv => h (mem_widen_iff.mpr (.inl hv)),
      fun v w hvw hw => h (mem_widen_iff.mpr (.inr ⟨w, hvw, hw⟩))⟩

/-- A round that changes something adds a node, so there are no more rounds to
come than there are nodes left. -/
theorem exists_settles {set : Finset Nat} (hwiden : set ⊆ g.widen set) :
    ∃ result, Settles g.widen set result := by
  by_cases hstill : g.widen set = set
  · exact ⟨set, .still hstill⟩
  · have hgrows : set.card < (g.widen set).card :=
      Finset.card_lt_card
        (Finset.ssubset_iff_subset_ne.mpr ⟨hwiden, fun h => hstill h.symm⟩)
    have hbounded : (g.widen set).card ≤ g.size :=
      (Finset.card_le_card (Finset.filter_subset _ _)).trans_eq
        (Finset.card_range g.size)
    obtain ⟨result, hresult⟩ := exists_settles (widen_subset_widen hwiden)
    exact ⟨result, .again hstill hresult⟩
termination_by g.size - set.card

/-- No round takes in a node that cannot end, and as long as one that can is
missing, there is another round. -/
theorem mem_iff_of_settles {result : Finset Nat}
    (h : Settles g.widen ∅ result) : v ∈ result ↔ v ∈ g.terminating := by
  constructor
  · have hclosed : g.widen g.terminating.toFinset ⊆
        g.terminating.toFinset := by
      rw [← closedBackward_iff, List.coe_toFinset]
      exact closedBackward_terminating
    have hsubset : result ⊆ g.terminating.toFinset :=
      h.of_invariant (P := fun set => set ⊆ g.terminating.toFinset)
        (fun _ hset => (widen_subset_widen hset).trans hclosed)
        (Finset.empty_subset _)
    exact fun hv => List.mem_toFinset.mp (hsubset hv)
  · have hclosed := closedBackward_iff.mpr h.fixed.subset
    exact fun hv => hclosed.terminating_subset hv

theorem settles_widen_iff {result : Finset Nat} :
    Settles g.widen ∅ result ↔ ∀ v, v ∈ result ↔ v ∈ g.terminating := by
  constructor
  · intro h v
    exact mem_iff_of_settles h
  · intro h
    obtain ⟨found, hfound⟩ := exists_settles (Finset.empty_subset (g.widen ∅))
    have heq : found = result := by
      ext v
      rw [mem_iff_of_settles hfound, h]
    exact heq ▸ hfound

/-- What the analysis marks, for every scope: exactly the nodes from which a
walk in the ordinary course leads to a terminal node. They are the least set
with every terminal node in it and every node with an edge into it, and they are
what the rule arrives at that adds such nodes, from the empty set on, until
nothing changes any more. -/
theorem terminating_least (states : States) :
    let g := ofStates states
    (∀ v, (g.marks g.terminating)[v]? = some true ↔
      ∃ t, Relation.ReflTransGen (fun a b => b ∈ g.successors a) v t ∧
        g.isTerminal t = true) ∧
    IsLeast {set | g.ClosedBackward set}
      {v | (g.marks g.terminating)[v]? = some true} ∧
    ∀ result, Settles g.widen ∅ result ↔
      ∀ v, v ∈ result ↔ (g.marks g.terminating)[v]? = some true := by
  intro g
  simp only [marks_terminating_iff]
  refine ⟨fun v => ?_, isLeast_terminating, fun result => settles_widen_iff⟩
  rw [mem_terminating_iff]
  refine exists_congr fun t => and_congr_right fun _ => ?_
  exact and_iff_right_of_imp lt_size_of_isTerminal

end Graph

end Workflow

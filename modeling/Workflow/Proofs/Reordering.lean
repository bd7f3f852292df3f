import Workflow.Proofs.Accepted
import Workflow.Proofs.StateOrder

/-!
# The order of a definition is immaterial

A definition lists states, branches and choice rules in some order, and the
validation goes through them in that order. Another order may well make it
report another violation, but not change its mind. The argument is a congruence:
whether a scope is accepted depends on its rules, which mention no order, and on
the scopes directly inside it as a set, so a change of order at any depth is
carried up to the root (`ReordersTo.acceptedAt_iff`).

Taken by itself, a scope with distinct names says the same of its walks in
any order, to the letter (`validate_order_irrelevant`).
-/

namespace Workflow

/-- One list of the definition comes in another order: the states of a scope,
the branches of a Parallel state or the rules of a Choice state, in this scope
or at any depth inside it. -/
inductive Machine.ReordersTo : Machine → Machine → Prop where
  | states {m : Machine} {states : List Entry} :
      m.states.Perm states → ReordersTo m { m with states }
  | branches {slot : StateSlot} {p : ParallelState} {branches : List Branch} :
      p.branches.Perm branches →
      ReordersTo (slot.fill (.parallel p))
        (slot.fill (.parallel { p with branches }))
  | rules {slot : StateSlot} {c : ChoiceState} {rules : List ChoiceRule} :
      c.rules.Perm rules →
      ReordersTo (slot.fill (.choice c)) (slot.fill (.choice { c with rules }))
  | inside {slot : BranchSlot} {b b' : Machine} :
      ReordersTo b b' → ReordersTo (slot.fill b) (slot.fill b')

/-- Any number of lists of the definition come in another order. -/
def Machine.Reordered : Machine → Machine → Prop :=
  Relation.ReflTransGen ReordersTo

namespace Machine

variable {settings : Settings} {depth : Nat} {m m' : Machine}

/-- Scopes that are alike are accepted together, if the branches inside them
are. -/
theorem acceptedAt_congr (halike : m.Alike m')
    (hinside : (∀ e ∈ m.states, ∀ b ∈ e.state.branches,
        b.machine.AcceptedAt settings (depth + 1)) ↔
      ∀ e ∈ m'.states, ∀ b ∈ e.state.branches,
        b.machine.AcceptedAt settings (depth + 1)) :
    m.AcceptedAt settings depth ↔ m'.AcceptedAt settings depth := by
  rw [acceptedAt_iff, acceptedAt_iff]
  exact and_congr (Scope.wellFormed_congr rfl halike) hinside

theorem alike_of_perm {states : List Entry} (h : m.states.Perm states) :
    m.Alike { m with states } where
  startAt := rfl
  timeoutSeconds := rfl
  names := States.names_perm h
  covers := fun e he => ⟨e, h.mem_iff.mp he, rfl, .refl _⟩
  covered := fun e he => ⟨e, h.mem_iff.mpr he, rfl, .refl _⟩

/-- A state may be replaced by one that is alike and has the same branches, or
others that are accepted with them. -/
theorem acceptedAt_fill_congr {slot : StateSlot} {s t : State}
    (halike : s.Alike t)
    (hbranches : (∀ b ∈ s.branches,
        b.machine.AcceptedAt settings (depth + 1)) ↔
      ∀ b ∈ t.branches, b.machine.AcceptedAt settings (depth + 1)) :
    (slot.fill s).AcceptedAt settings depth ↔
      (slot.fill t).AcceptedAt settings depth := by
  refine acceptedAt_congr (StateSlot.alike_fill halike) ?_
  simp only [StateSlot.fill, List.forall_mem_append, List.forall_mem_cons,
    hbranches]

/-- One change of order makes no difference to whether a definition is
accepted, at any depth. -/
theorem ReordersTo.acceptedAt_iff (h : m.ReordersTo m') :
    m.AcceptedAt settings depth ↔ m'.AcceptedAt settings depth := by
  induction h generalizing depth with
  | states hperm =>
      refine acceptedAt_congr (alike_of_perm hperm) ?_
      simp only [hperm.mem_iff]
  | @branches slot p branches hperm =>
      have hempty : p.branches = [] ↔ branches = [] := by
        rw [← List.isEmpty_iff, hperm.isEmpty_eq, List.isEmpty_iff]
      refine acceptedAt_fill_congr (State.alike_parallel hempty) ?_
      simp only [State.branches, hperm.mem_iff]
  | rules hperm => exact acceptedAt_fill_congr (State.alike_choice hperm) .rfl
  | inside _ ih =>
      refine acceptedAt_fill_congr (State.alike_parallel (by simp)) ?_
      simp only [State.branches, List.forall_mem_append, List.forall_mem_cons,
        ih]

theorem Reordered.acceptedAt_iff (h : m.Reordered m') :
    m.AcceptedAt settings depth ↔ m'.AcceptedAt settings depth := by
  induction h with
  | refl => exact .rfl
  | tail _ hstep ih => exact ih.trans hstep.acceptedAt_iff

end Machine

/-- The order of states, branches and choice rules is immaterial. A definition
is accepted in any order or in none; and where the states of a scope have
distinct names, their order changes neither what the check of termination
reports of it nor which of them are unreachable. -/
theorem validate_order_irrelevant (m : Machine) :
    (∀ settings m', m.Reordered m' →
      (validate settings m = .ok () ↔ validate settings m' = .ok ())) ∧
    ((States.names m.states).Nodup → ∀ states, m.states.Perm states →
      (∀ style location,
        Termination.check style location { m with states } =
          Termination.check style location m) ∧
      (Termination.unreachable { m with states }).Perm
        (Termination.unreachable m)) := by
  constructor
  · intro settings m' h
    exact h.acceptedAt_iff
  · intro hnodup states h
    exact ⟨Termination.check_perm h hnodup,
      Termination.unreachable_perm h hnodup⟩

/-- A machine that goes round in a circle and never comes to rest. -/
def Machine.restless : Machine where
  startAt := some "Work"
  states := [
    ⟨"Work", .pass { transition := some (.next "Again") }⟩,
    ⟨"Again", .pass { transition := some (.next "Work") }⟩,
    ⟨"Rest", .succeed {}⟩]

/-- The same states from the last to the first. -/
def Machine.restlessBackwards : Machine :=
  { Machine.restless with states := Machine.restless.states.reverse }

theorem validate_order_irrelevant_restless :
    Machine.restless.Reordered .restlessBackwards ∧
    (States.names Machine.restless.states).Nodup ∧
    (∀ settings, validate settings .restless = .ok () ↔
      validate settings .restlessBackwards = .ok ()) ∧
    (∀ style location, Termination.check style location .restlessBackwards =
      Termination.check style location .restless) ∧
    (Termination.unreachable .restlessBackwards).Perm
      (Termination.unreachable .restless) :=
  have hperm : Machine.restless.states.Perm Machine.restless.states.reverse :=
    (List.reverse_perm _).symm
  have hreordered : Machine.restless.Reordered .restlessBackwards :=
    .single (.states hperm)
  have hnodup : (States.names Machine.restless.states).Nodup := by decide
  have hverdict := (validate_order_irrelevant .restless).1
  have hwalks := (validate_order_irrelevant .restless).2 hnodup _ hperm
  ⟨hreordered, hnodup, fun settings => hverdict settings _ hreordered,
    hwalks.1, hwalks.2⟩

end Workflow

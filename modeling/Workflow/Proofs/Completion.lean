import Mathlib.Data.List.Chain
import Workflow.Building
import Workflow.Proofs.WellFormed

/-!
# Accepted definitions can run to their end

The check of termination looks at one scope at a time and takes a Parallel
state for a node like any other. What an author wants to know is whether the
whole definition can come to its end, with every branch of every Parallel state
on the way. It can: each scope has a route from its start to a state that ends
it, and the branches of the states on that route are scopes that have been
accepted themselves.

A route that comes to a state again can leave out what lies in between. So the
routes need no state twice, and no scope has to visit more states than it
declares.
-/

namespace Workflow

/-- A way through a scope, by the names of the states visited: it begins at the
start, goes on each time to a target of the ordinary course and comes to a
state that may end the scope. -/
structure Machine.Route (m : Machine) (route : List String) : Prop where
  start : route.head? = m.startAt
  moves : route.IsChain (States.Step m.states State.nextTargets)
  finish : ∃ name s, route.getLast? = some name ∧
    States.get? m.states name = some s ∧ s.Final

/-- The scope has a complete run: a way through it, and a complete run of every
branch of every state on that way. No scope that takes part visits more states
than its limit. -/
inductive Machine.Completes (limit : Machine → Nat) : Machine → Prop where
  | along {m : Machine} {route : List String} :
      m.Route route → route.length ≤ limit m →
      (∀ name ∈ route, ∀ s, States.get? m.states name = some s →
        ∀ b ∈ s.branches, Completes limit b.machine) →
      Completes limit m

namespace States

variable {states : States} {targets : State → List String} {a b : String}

/-- Whoever can get somewhere can get there without coming to any state
twice. -/
theorem exists_nodup_of_reaches (h : Reaches states targets a b) :
    ∃ route : List String, route.head? = some a ∧ route.getLast? = some b ∧
      route.IsChain (Step states targets) ∧ route.Nodup := by
  induction h using Relation.ReflTransGen.head_induction_on with
  | refl => exact ⟨[b], rfl, rfl, by simp, by simp⟩
  | @head a c hstep _ ih =>
      obtain ⟨route, hhead, hlast, hchain, hnodup⟩ := ih
      by_cases ha : a ∈ route
      · -- The route comes back to `a`: what lies before is left out.
        obtain ⟨before, after, rfl⟩ := List.append_of_mem ha
        rw [List.getLast?_append_cons] at hlast
        exact ⟨a :: after, rfl, hlast, hchain.right_of_append,
          hnodup.of_append_right⟩
      · refine ⟨a :: route, rfl, ?_, ?_, List.nodup_cons.mpr ⟨ha, hnodup⟩⟩
        · rw [List.getLast?_cons, hlast]
          rfl
        · refine List.isChain_cons.mpr ⟨fun c' hc' => ?_, hchain⟩
          rw [hhead] at hc'
          injection hc' with hc'
          exact hc' ▸ hstep

theorem subset_names_of_isChain {route : List String}
    (hchain : route.IsChain (Step states targets))
    (hhead : route.head? = some a) (ha : a ∈ names states) :
    route ⊆ names states := by
  induction route generalizing a with
  | nil => cases hhead
  | cons c rest ih =>
      injection hhead with hhead
      subst hhead
      refine List.cons_subset.mpr ⟨ha, ?_⟩
      cases rest with
      | nil => exact List.nil_subset _
      | cons d rest =>
          obtain ⟨hstep, hrest⟩ := List.isChain_cons_cons.mp hchain
          exact ih hrest rfl hstep.mem_names.2

/-- A scope that can end has a way through it that visits no more states than
are declared. -/
theorem CanEnd.exists_route {m : Machine} (hstart : m.startAt = some a)
    (h : CanEnd m.states a) :
    ∃ route, m.Route route ∧ route.length ≤ m.states.length := by
  have ha := h.mem_names
  obtain ⟨b, s, hreach, hs, hfinal⟩ := h
  obtain ⟨route, hhead, hlast, hchain, hnodup⟩ :=
    exists_nodup_of_reaches hreach
  have hsubset := subset_names_of_isChain hchain hhead ha
  refine ⟨route, ⟨hhead.trans hstart.symm, hchain, b, s, hlast, hs, hfinal⟩, ?_⟩
  have hlength := (List.subperm_of_subset hnodup hsubset).length_le
  rwa [names, List.length_map] at hlength

end States

namespace Scope

variable {settings : Settings} {s : Scope}

theorem exists_mem_children {name : String} {t : State} {b : Branch}
    (ht : States.get? s.machine.states name = some t) (hb : b ∈ t.branches) :
    ∃ c ∈ s.children, c.machine = b.machine := by
  obtain ⟨i, hi, e, he, rfl⟩ := States.get?_eq_some_iff.mp ht
  obtain ⟨j, hj⟩ := List.mem_iff_getElem?.mp hb
  exact ⟨_, mem_children_iff.mpr
    ⟨e, List.mem_of_getElem? he, j, b, hj, rfl⟩, rfl⟩

/-- A scope of which all scopes in it are well-formed has a complete run. -/
theorem completes_of_wellFormed
    (h : ∀ t ∈ s.preorder, t.WellFormed settings) :
    s.machine.Completes fun scope => scope.states.length := by
  induction s using induction with
  | step s ih =>
      rw [preorder_eq, List.forall_mem_cons, List.forall_mem_flatMap] at h
      obtain ⟨hself, hinside⟩ := h
      obtain ⟨start, hstart, -⟩ := hself.fields.start
      obtain ⟨route, hroute, hlength⟩ :=
        (hself.ends start hstart).exists_route hstart
      refine .along hroute hlength fun name _ t ht b hb => ?_
      obtain ⟨c, hc, hmachine⟩ := exists_mem_children ht hb
      rw [← hmachine]
      exact ih c hc (hinside c hc)

end Scope

/-- An accepted definition has a complete run in which no scope visits more
states than it declares. -/
theorem completes_of_validate_eq_ok (settings : Settings) {m : Machine}
    (h : validate settings m = .ok ()) :
    m.Completes fun scope => scope.states.length :=
  Scope.completes_of_wellFormed ((validate_eq_ok_iff settings m).mp h)

/-- A call that is made until it succeeds, beside a note that it has begun. -/
def Machine.calling : Machine where
  startAt := some "Fan"
  states := [
    ⟨"Fan", .parallel {
      branches := [
        .ofMachine {
          startAt := some "Call"
          states := [
            ⟨"Call", .task (.withNext (.running "call") "Answered")⟩,
            ⟨"Answered", .choice {
              rules := [.to "Done" (.stringEquals "$.answer" "yes")]
              defaultState := some "Call" }⟩,
            ⟨"Done", .succeed {}⟩] },
        .ofMachine {
          startAt := some "Note"
          states := [⟨"Note", .pass (.withEnd {})⟩] }]
      transition := some (.next "Report") }⟩,
    ⟨"Report", .pass (.withEnd {})⟩]

theorem completes_calling :
    validate { maxNestingDepth := 1 } .calling = .ok () ∧
      Machine.calling.Completes fun scope => scope.states.length :=
  ⟨by decide +kernel,
    completes_of_validate_eq_ok { maxNestingDepth := 1 } (by decide +kernel)⟩

end Workflow

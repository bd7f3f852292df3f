import Workflow.Proofs.Accepted
import Workflow.Proofs.ClosedParts

/-!
# One more state

A definition is built up state by state, and most of what has been accepted so
far stays accepted. The states declared before are a closed part of the longer
scope, for all their targets were declared before; so whatever the new state
goes on to, each of them reaches what it reached and can end if it could. What
none of them can do is to go on to the new state.

So if unreachable states are no violation, the longer definition is accepted,
and otherwise the new state is the one that is reported (`validate_withState`).
-/

namespace Workflow

/-- The scope can take in the state under the name: the name is new, and the
state is in order by itself, goes on to states that are declared with it, and
has branches that are accepted one level further in. -/
structure Machine.CanTake (settings : Settings) (m : Machine) (name : String)
    (s : State) : Prop where
  named : name ≠ ""
  undeclared : name ∉ States.names m.states
  fields : Fields.checkState (Location.root.state name) s = .ok ()
  paths : StatePaths.checkState (Location.root.state name) s = .ok ()
  targets : ∀ a ∈ s.targets, a = name ∨ a ∈ States.names m.states
  branches : ∀ b ∈ s.branches, b.machine.AcceptedAt settings 1

namespace Machine

variable {settings : Settings} {m : Machine} {name : String} {s : State}

theorem mem_states_withState_iff {e : Entry} :
    e ∈ (m.withState name s).states ↔ e ∈ m.states ∨ e = ⟨name, s⟩ := by
  simp [withState, States.insert]

theorem mem_names_withState_iff {a : String} :
    a ∈ States.names (m.withState name s).states ↔
      a ∈ States.names m.states ∨ a = name := by
  rw [withState, States.names_insert, List.mem_append, List.mem_singleton]

/-- None of the states declared before goes on to the new one. -/
theorem closedPart_withState (hresolved : m.Resolved) :
    States.ClosedPart m.states (m.withState name s).states where
  covers := fun e he =>
    ⟨e, mem_states_withState_iff.mpr (.inl he), rfl, .refl _⟩
  closed := hresolved.targets

namespace CanTake

variable (h : m.CanTake settings name s)

include h

theorem nodup_names (hnodup : (States.names m.states).Nodup) :
    (States.names (m.withState name s).states).Nodup := by
  rw [withState, States.names_insert, List.nodup_append]
  refine ⟨hnodup, List.nodup_singleton name, fun a ha b hb heq => ?_⟩
  rw [List.mem_singleton.mp hb] at heq
  exact h.undeclared (heq ▸ ha)

theorem fieldsWellFormed (hm : m.FieldsWellFormed) :
    (m.withState name s).FieldsWellFormed where
  start := hm.start
  timeout := hm.timeout
  someState := List.ne_nil_of_mem (mem_states_withState_iff.mpr (.inr rfl))
  named := by
    intro a ha
    rcases mem_names_withState_iff.mp ha with ha | rfl
    · exact hm.named a ha
    · exact h.named
  distinct := h.nodup_names hm.distinct

theorem resolved (hm : m.Resolved) : (m.withState name s).Resolved where
  start := fun a ha => mem_names_withState_iff.mpr (.inl (hm.start a ha))
  targets := by
    intro e he a ha
    rw [mem_names_withState_iff]
    rcases mem_states_withState_iff.mp he with he | rfl
    · exact .inl (hm.targets e he a ha)
    · exact (h.targets a ha).symm

theorem entry_eq_ok (hm : m.scope.WellFormed settings) :
    (m.withState name s).scope.entry settings = .ok () := by
  refine Scope.entry_eq_ok_iff.mpr ⟨hm.depth, h.fieldsWellFormed hm.fields,
    fun e he => ?_, fun e he => ?_, h.resolved hm.resolved⟩
  · rcases mem_states_withState_iff.mp he with he | rfl
    · exact hm.stateFields e he
    · exact Fields.checkState_eq_ok_iff.mp h.fields
  · rcases mem_states_withState_iff.mp he with he | rfl
    · exact hm.paths e he
    · exact StatePaths.checkState_eq_ok_iff.mp h.paths

theorem check_eq_ok (hm : m.scope.WellFormed settings) (style : Diagnostics)
    (location : Location) :
    Termination.check style location (m.withState name s) = .ok () := by
  have hnodup := h.nodup_names hm.fields.distinct
  refine Termination.check_eq_ok_iff.mpr fun start hstart _ => ?_
  refine ((closedPart_withState hm.resolved).canEnd_iff hnodup ?_).mpr
    (hm.ends start hstart)
  exact hm.resolved.start start hstart

/-- If all states could be reached, all but the new one can be. -/
theorem mem_unreachable_iff (hm : m.scope.WellFormed settings)
    (hreject : settings.rejectUnreachableStates = true) {a : String} :
    a ∈ Termination.unreachable (m.withState name s) ↔ a = name := by
  have hnodup := h.nodup_names hm.fields.distinct
  have hreaches : ∀ start, m.startAt = some start → ∀ b,
      States.Reaches (m.withState name s).states State.targets start b ↔
        States.Reaches m.states State.targets start b := fun start hstart _ =>
    (closedPart_withState hm.resolved).reaches_iff hnodup
      State.targetSort_targets (hm.resolved.start start hstart)
  rw [Termination.mem_unreachable_iff_of_nodup hnodup]
  constructor
  · rintro ⟨start, hstart, -, ha, hnot⟩
    rcases mem_names_withState_iff.mp ha with ha | rfl
    · have hreach := hm.reached hreject start hstart a ha
      exact absurd ((hreaches start hstart a).mpr hreach) hnot
    · rfl
  · rintro rfl
    obtain ⟨start, hstart, -⟩ := hm.fields.start
    have hdeclared := hm.resolved.start start hstart
    refine ⟨start, hstart, mem_names_withState_iff.mpr (.inl hdeclared),
      mem_names_withState_iff.mpr (.inr rfl), fun hreach => ?_⟩
    exact h.undeclared
      (((hreaches start hstart a).mp hreach).mem_names hdeclared)

theorem checkReachable_eq (hm : m.scope.WellFormed settings)
    (hreject : settings.rejectUnreachableStates = true) (location : Location) :
    Termination.checkReachable location (m.withState name s) =
      .error ⟨location.state name, .unreachable⟩ := by
  have hmem := fun a => h.mem_unreachable_iff hm hreject (a := a)
  rw [Termination.checkReachable]
  cases hlist : Termination.unreachable (m.withState name s) with
  | nil =>
      have hname := (hmem name).mpr rfl
      rw [hlist] at hname
      cases hname
  | cons a rest =>
      have ha : a = name := (hmem a).mp (by rw [hlist]; exact .head rest)
      rw [ha]
      rfl

theorem exit_eq (hm : m.scope.WellFormed settings) :
    (m.withState name s).scope.exit settings =
      if settings.rejectUnreachableStates then
        .error ⟨Location.root.state name, .unreachable⟩
      else .ok () := by
  have hcheck := h.check_eq_ok hm settings.diagnostics .root
  rw [Scope.exit_eq]
  change (Termination.check _ .root (m.withState name s) >>= fun _ => _) = _
  rw [hcheck]
  cases hreject : settings.rejectUnreachableStates with
  | true => exact h.checkReachable_eq hm hreject .root
  | false => rfl

theorem inside_eq_ok
    (hinside : ∀ e ∈ m.states, ∀ b ∈ e.state.branches,
      b.machine.AcceptedAt settings 1) :
    Verdict.each (Scope.verdict settings)
      (m.withState name s).scope.children = .ok () := by
  refine Verdict.each_eq_ok_iff.mpr fun c hc => ?_
  obtain ⟨e, he, i, b, hb, rfl⟩ := Scope.mem_children_iff.mp hc
  have hb := List.mem_of_getElem? hb
  rw [verdict_eq_ok_iff_acceptedAt]
  rcases mem_states_withState_iff.mp he with he | rfl
  · exact hinside e he b hb
  · exact h.branches b hb

end CanTake

end Machine

/-- An accepted definition may be given one more state under a new name, if the
state is in order by itself and goes on to declared states or to itself. Unless
unreachable states are violations, the longer definition is accepted; if they
are, it is rejected for the new state and nothing else. -/
theorem validate_withState {settings : Settings} {m : Machine}
    (hm : validate settings m = .ok ()) {name : String} {s : State}
    (hs : m.CanTake settings name s) :
    validate settings (m.withState name s) =
      if settings.rejectUnreachableStates then
        .error ⟨Location.root.state name, .unreachable⟩
      else .ok () := by
  obtain ⟨hself, hinside⟩ := Machine.acceptedAt_iff.mp hm
  rw [validate_eq, Scope.verdict_eq, hs.entry_eq_ok hself,
    hs.inside_eq_ok hinside, ← hs.exit_eq hself]
  rfl

/-- A state that runs a branch and goes on to the one state declared before, or
comes back to itself after an error. -/
def State.again : State :=
  .parallel {
    branches := [.ofMachine .done]
    catchers := [.matching [ErrorCode.all] "Again"]
    transition := some (.next "Done") }

theorem validate_withState_again :
    validate { rejectUnreachableStates := true } .done = .ok () ∧
    Machine.done.CanTake { rejectUnreachableStates := true } "Again" .again ∧
    validate { rejectUnreachableStates := true }
        (Machine.done.withState "Again" .again) =
      .error ⟨Location.root.state "Again", .unreachable⟩ :=
  have haccepted : validate { rejectUnreachableStates := true } .done =
      .ok () := by decide +kernel
  have htaken : Machine.done.CanTake { rejectUnreachableStates := true }
      "Again" .again := {
    named := by decide
    undeclared := by decide
    fields := by decide +kernel
    paths := by decide +kernel
    targets := by decide
    branches := List.forall_mem_singleton.mpr haccepted }
  ⟨haccepted, htaken, validate_withState haccepted htaken⟩

end Workflow

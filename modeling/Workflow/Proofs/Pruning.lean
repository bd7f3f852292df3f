import Workflow.Proofs.Accepted
import Workflow.Proofs.ClosedParts

/-!
# States that are never reached

A state that control cannot come to is dead weight, and `Machine.prune` takes
it out, in every scope of a definition. What is left is a closed part of the
scope: all targets of a state that is reached are reached, those of its
catchers included. So the way to the end, which follows no catcher, is still
there, and every state that is left can be reached by the states that are left.

A definition that was accepted with unreachable states is therefore accepted
without them under the stricter settings; and these accept exactly the
definitions in which there is nothing to take out (`validate_prune`).
-/

namespace Workflow

/-! ## What can be reached -/

namespace States

variable {states : States} {targets : State → List String} {a b : String}

theorem mem_spread_edges_iff {v w : Nat} (ha : states.index? a = some v)
    (hb : states.index? b = some w) :
    w ∈ Graph.spread (Graph.edges states targets) states.length [v] [v] ↔
      Reaches states targets a b := by
  rw [← Graph.walk_iff_reaches ha hb, Graph.mem_spread_iff
    (by simpa using lt_length_of_index? ha) Graph.lt_length_of_mem_edges]
  simp

/-- From or to a name that is not declared there is no step. -/
theorem eq_iff_reaches_of_index? (h : states.index? a = none ∨
    states.index? b = none) : a = b ↔ Reaches states targets a b := by
  constructor
  · rintro rfl
    exact .refl
  · intro hab
    rw [index?_eq_none_iff, index?_eq_none_iff] at h
    rcases Relation.ReflTransGen.cases_head hab with rfl | ⟨_, hstep, -⟩
    · rfl
    · have ha := hstep.mem_names.1
      exact absurd (hab.mem_names ha) (h.resolve_left fun h => h ha)

instance (states : States) (targets : State → List String) (a b : String) :
    Decidable (Reaches states targets a b) :=
  match ha : states.index? a, hb : states.index? b with
  | some v, some w =>
    decidable_of_iff
      (w ∈ Graph.spread (Graph.edges states targets) states.length [v] [v])
      (mem_spread_edges_iff ha hb)
  | none, _ => decidable_of_iff (a = b) (eq_iff_reaches_of_index? (.inl ha))
  | some _, none =>
    decidable_of_iff (a = b) (eq_iff_reaches_of_index? (.inr hb))

end States

/-- Control may come to the state of this name, be it as one that catches an
error. -/
def Machine.Reached (m : Machine) (name : String) : Prop :=
  ∃ start ∈ m.startAt, States.Reaches m.states State.targets start name

instance (m : Machine) : DecidablePred m.Reached := fun _ =>
  inferInstanceAs (Decidable (∃ start ∈ m.startAt, _))

/-! ## Pruning -/

mutual

/-- The definition without the states that are not reached, in all of its
scopes. -/
def Machine.prune : Machine → Machine
  | m@⟨comment, version, timeout, startAt, states⟩ =>
    ⟨comment, version, timeout, startAt,
      Entry.pruneEach (fun name => decide (m.Reached name)) states⟩

/-- The declarations to keep, with their states pruned. -/
def Entry.pruneEach (keep : String → Bool) : List Entry → List Entry
  | [] => []
  | ⟨name, state⟩ :: rest =>
    if keep name then ⟨name, state.prune⟩ :: Entry.pruneEach keep rest
    else Entry.pruneEach keep rest

/-- The state with its branches pruned. -/
def State.prune : State → State
  | .parallel s => .parallel s.prune
  | .pass s => .pass s
  | .task s => .task s
  | .wait s => .wait s
  | .choice s => .choice s
  | .succeed s => .succeed s
  | .fail s => .fail s

def ParallelState.prune : ParallelState → ParallelState
  | ⟨comment, input, output, result, branches, retriers, catchers,
      transition⟩ =>
    ⟨comment, input, output, result, Branch.pruneEach branches, retriers,
      catchers, transition⟩

def Branch.pruneEach : List Branch → List Branch
  | [] => []
  | ⟨comment, machine⟩ :: rest =>
    ⟨comment, machine.prune⟩ :: Branch.pruneEach rest

end

def Entry.prune (e : Entry) : Entry := ⟨e.name, e.state.prune⟩

def Branch.prune (b : Branch) : Branch := { b with machine := b.machine.prune }

theorem Entry.pruneEach_eq (keep : String → Bool) (es : List Entry) :
    Entry.pruneEach keep es =
      (es.filter fun e => keep e.name).map Entry.prune := by
  induction es with
  | nil => rfl
  | cons e rest ih =>
      obtain ⟨name, state⟩ := e
      rw [Entry.pruneEach, List.filter_cons, ih]
      split <;> rfl

theorem Branch.pruneEach_eq_map (bs : List Branch) :
    Branch.pruneEach bs = bs.map Branch.prune := by
  induction bs with
  | nil => rfl
  | cons b rest ih =>
      obtain ⟨comment, m⟩ := b
      rw [Branch.pruneEach, ih]
      rfl

theorem Machine.prune_eq (m : Machine) :
    m.prune = { m with states :=
      (m.states.filter fun e => decide (m.Reached e.name)).map Entry.prune } := by
  rw [← Entry.pruneEach_eq fun name => decide (m.Reached name)]
  cases m
  rfl

theorem State.prune_parallel (p : ParallelState) :
    State.prune (.parallel p) =
      .parallel { p with branches := p.branches.map Branch.prune } := by
  rw [← Branch.pruneEach_eq_map]
  cases p
  rfl

theorem State.alike_prune (s : State) : s.Alike s.prune := by
  cases s with
  | parallel p =>
      rw [State.prune_parallel]
      exact State.alike_parallel (by simp)
  | _ => exact .refl _

theorem State.branches_prune (s : State) :
    s.prune.branches = s.branches.map Branch.prune := by
  cases s with
  | parallel p => rw [State.prune_parallel]; rfl
  | _ => rfl

theorem State.prune_eq_self {s : State}
    (h : ∀ b ∈ s.branches, b.machine.prune = b.machine) : s.prune = s := by
  cases s with
  | parallel p =>
      have hbranches : ∀ b ∈ p.branches, b.prune = id b := by
        rintro ⟨comment, machine⟩ hb
        exact congrArg (Branch.mk comment) (h _ hb)
      rw [State.prune_parallel, List.map_congr_left hbranches, List.map_id]
      cases p
      rfl
  | _ => rfl

/-! ## What pruning leaves -/

namespace Machine

variable {m : Machine}

theorem startAt_prune (m : Machine) : m.prune.startAt = m.startAt := by
  rw [prune_eq]

theorem mem_states_prune_iff {e : Entry} :
    e ∈ m.prune.states ↔
      ∃ d ∈ m.states, m.Reached d.name ∧ d.prune = e := by
  rw [prune_eq]
  simp [and_assoc]

theorem mem_names_prune_iff {name : String} :
    name ∈ States.names m.prune.states ↔
      name ∈ States.names m.states ∧ m.Reached name := by
  simp only [States.mem_names_iff, mem_states_prune_iff]
  constructor
  · rintro ⟨_, ⟨d, hd, hreached, rfl⟩, rfl⟩
    exact ⟨⟨d, hd, rfl⟩, hreached⟩
  · rintro ⟨⟨d, hd, rfl⟩, hreached⟩
    exact ⟨d.prune, ⟨d, hd, hreached, rfl⟩, rfl⟩

theorem names_prune_sublist (m : Machine) :
    (States.names m.prune.states).Sublist (States.names m.states) := by
  rw [prune_eq, States.names, States.names, List.map_map]
  exact List.filter_sublist.map Entry.name

/-- The states that are left do not go on to one that was taken out. -/
theorem closedPart_prune (hresolved : m.Resolved)
    (hnodup : (States.names m.states).Nodup) :
    States.ClosedPart m.prune.states m.states where
  covers := by
    intro e he
    obtain ⟨d, hd, -, rfl⟩ := mem_states_prune_iff.mp he
    exact ⟨d, hd, rfl, (State.alike_prune d.state).symm⟩
  closed := by
    intro e he a ha
    obtain ⟨d, hd, ⟨start, hstart, hreach⟩, rfl⟩ :=
      mem_states_prune_iff.mp he
    have ha := ((State.alike_prune d.state).targets a).mpr ha
    have hdeclared := hresolved.targets d hd a ha
    exact mem_names_prune_iff.mpr ⟨hdeclared, start, hstart,
      hreach.tail ⟨d.state, States.get?_of_mem hnodup hd, ha, hdeclared⟩⟩

theorem start_mem_names_prune (hresolved : m.Resolved) {start : String}
    (hstart : m.startAt = some start) :
    start ∈ States.names m.prune.states :=
  mem_names_prune_iff.mpr
    ⟨hresolved.start start hstart, start, hstart, .refl⟩

theorem Resolved.prune (hm : m.Resolved)
    (hnodup : (States.names m.states).Nodup) : m.prune.Resolved where
  start := by
    intro start hstart
    rw [startAt_prune] at hstart
    exact start_mem_names_prune hm hstart
  targets := (closedPart_prune hm hnodup).closed

theorem FieldsWellFormed.prune (hm : m.FieldsWellFormed)
    (hresolved : m.Resolved) : m.prune.FieldsWellFormed where
  start := by
    rw [startAt_prune]
    exact hm.start
  timeout := by
    rw [prune_eq]
    exact hm.timeout
  someState := by
    obtain ⟨start, hstart, -⟩ := hm.start
    obtain ⟨e, he, -⟩ :=
      States.mem_names_iff.mp (start_mem_names_prune hresolved hstart)
    exact List.ne_nil_of_mem he
  named := fun name hname =>
    hm.named name (m.names_prune_sublist.subset hname)
  distinct := hm.distinct.sublist m.names_prune_sublist

end Machine

namespace Scope

variable {m : Machine} {settings : Settings} {l : Location} {depth : Nat}

/-- A scope in order is in order without its unreachable states, and then has
none. -/
theorem WellFormed.prune
    (h : WellFormed (settings.withRejectUnreachableStates false)
      ⟨l, depth, m⟩) :
    WellFormed (settings.withRejectUnreachableStates true)
      ⟨l, depth, m.prune⟩ := by
  have hnodup := h.fields.distinct
  have hpart := Machine.closedPart_prune h.resolved hnodup
  constructor
  case depth => exact h.depth
  case fields => exact h.fields.prune h.resolved
  case stateFields =>
    intro e he
    obtain ⟨d, hd, -, halike⟩ := hpart.covers e he
    exact halike.fields.mpr (h.stateFields d hd)
  case paths =>
    intro e he
    obtain ⟨d, hd, -, halike⟩ := hpart.covers e he
    exact halike.paths.mpr (h.paths d hd)
  case resolved => exact h.resolved.prune hnodup
  case ends =>
    intro start hstart
    rw [Machine.startAt_prune] at hstart
    have hmem := Machine.start_mem_names_prune h.resolved hstart
    exact (hpart.canEnd_iff hnodup hmem).mp (h.ends start hstart)
  case reached =>
    -- What is left was reached in the longer scope, by a walk that can only
    -- have passed through what is left.
    intro _ start hstart name hname
    rw [Machine.startAt_prune] at hstart
    obtain ⟨-, start', hstart', hreach⟩ :=
      Machine.mem_names_prune_iff.mp hname
    obtain rfl : start = start' := Option.some.inj (hstart.symm.trans hstart')
    exact (hpart.reaches_iff hnodup State.targetSort_targets
      (Machine.start_mem_names_prune h.resolved hstart)).mp hreach

end Scope

namespace Machine

variable {m : Machine} {settings : Settings} {depth : Nat}

/-- Without its unreachable states a definition is accepted under the stricter
settings. -/
theorem AcceptedAt.prune
    (h : m.AcceptedAt (settings.withRejectUnreachableStates false) depth) :
    m.prune.AcceptedAt (settings.withRejectUnreachableStates true) depth := by
  induction m using Machine.induction generalizing depth with
  | step m ih =>
      rw [acceptedAt_iff] at h ⊢
      obtain ⟨hself, hinside⟩ := h
      refine ⟨hself.prune, fun e he b hb => ?_⟩
      obtain ⟨d, hd, -, rfl⟩ := mem_states_prune_iff.mp he
      rw [Entry.prune, State.branches_prune] at hb
      obtain ⟨c, hc, rfl⟩ := List.mem_map.mp hb
      exact ih d hd c hc (hinside d hd c hc)

/-- Under the stricter settings only definitions are accepted from which
nothing is taken out. -/
theorem AcceptedAt.prune_eq_self (hreject : settings.rejectUnreachableStates)
    (h : m.AcceptedAt settings depth) : m.prune = m := by
  induction m using Machine.induction generalizing depth with
  | step m ih =>
      obtain ⟨hself, hinside⟩ := acceptedAt_iff.mp h
      obtain ⟨start, hstart, -⟩ := hself.fields.start
      have hkept : (m.states.filter fun e => decide (m.Reached e.name)) =
          m.states := by
        rw [List.filter_eq_self]
        intro e he
        exact decide_eq_true ⟨start, hstart, hself.reached hreject start hstart
          e.name (States.mem_names_iff.mpr ⟨e, he, rfl⟩)⟩
      have hstates : ∀ e ∈ m.states, e.prune = id e := by
        rintro ⟨name, state⟩ he
        exact congrArg (Entry.mk name) (State.prune_eq_self fun b hb =>
          ih _ he b hb (hinside _ he b hb))
      rw [prune_eq, hkept, List.map_congr_left hstates, List.map_id]
      cases m
      rfl

end Machine

/-- Unreachable states can be taken out. A definition that is accepted with
them is accepted without them where they are violations, there is nothing more
to take out of it then, and it is accepted there as it stands if and only if
there was nothing to take out in the first place. -/
theorem validate_prune (settings : Settings) {m : Machine}
    (h : validate (settings.withRejectUnreachableStates false) m = .ok ()) :
    validate (settings.withRejectUnreachableStates true) m.prune = .ok () ∧
      m.prune.prune = m.prune ∧
      (validate (settings.withRejectUnreachableStates true) m = .ok () ↔
        m.prune = m) := by
  have hpruned : m.prune.AcceptedAt
      (settings.withRejectUnreachableStates true) 0 :=
    Machine.AcceptedAt.prune h
  refine ⟨hpruned, hpruned.prune_eq_self rfl, fun hstrict => ?_, fun heq => ?_⟩
  · exact Machine.AcceptedAt.prune_eq_self rfl hstrict
  · rw [← heq]
    exact hpruned

/-- States that nothing leads to, both beside a state that runs in parallel and
inside its branch, where a state that only an error leads to is none of them. -/
def Machine.cluttered : Machine where
  startAt := some "Fan"
  states := [
    ⟨"Spare", .pass { transition := some (.next "Fan") }⟩,
    ⟨"Fan", .parallel {
      branches := [.ofMachine {
        startAt := some "Call"
        states := [
          ⟨"Old", .pass { transition := some (.next "Call") }⟩,
          ⟨"Call", .task {
            resource := some "call"
            catchers := [.matching [ErrorCode.all] "Recover"]
            transition := some .finish }⟩,
          ⟨"Recover", .succeed {}⟩] }]
      transition := some .finish }⟩]

theorem validate_prune_cluttered :
    validate (Settings.withRejectUnreachableStates {} false) .cluttered =
      .ok () ∧
    validate (Settings.withRejectUnreachableStates {} true)
      Machine.cluttered.prune = .ok () ∧
    Machine.cluttered.prune.prune = Machine.cluttered.prune ∧
    (validate (Settings.withRejectUnreachableStates {} true) .cluttered =
      .ok () ↔ Machine.cluttered.prune = .cluttered) :=
  have haccepted : validate (Settings.withRejectUnreachableStates {} false)
      .cluttered = .ok () := by decide +kernel
  ⟨haccepted, validate_prune {} haccepted⟩

end Workflow

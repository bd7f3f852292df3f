import Workflow.Proofs.Skeleton
import Workflow.Proofs.TwoRuns

/-!
# The unknown target that is reported

A scope may name many targets that it does not declare, and only one of them is
reported. Which one is a matter of two orders: that of the declarations, and
that of the places inside a state where a target can be named. The targets of a
state are handed over as one list, in which the places can no longer be seen, so
each target is put back at its place first (`namedTargets`). That list is in
order (`pairwise_namedTargets`), and the first undeclared name in it is the one
named at the earliest place.

Names may be declared twice: the later declaration of a name is checked like any
other. Branches are scopes of their own, and what is in them has no say.
-/

namespace Workflow

/-- Where in a state a target is named. -/
inductive TargetPlace where
  | transition
  | catcher (index : Nat)
  | rule (index : Nat)
  | default
deriving DecidableEq, Repr

namespace TargetPlace

/-- The order of the places. No kind of state has all of them: there is a
transition and perhaps catchers, or there are rules and perhaps a default. -/
def Before : TargetPlace → TargetPlace → Prop
  | .transition, .transition => False
  | .transition, _ => True
  | .catcher _, .transition => False
  | .catcher i, .catcher j => i < j
  | .catcher _, _ => True
  | .rule i, .rule j => i < j
  | .rule _, .default => True
  | .rule _, _ => False
  | .default, _ => False

theorem Before.asymm {p q : TargetPlace} (h : p.Before q) : ¬ q.Before p := by
  cases p <;> cases q <;> simp only [Before, not_false_eq_true] at *
  all_goals omega

end TargetPlace

namespace State

/-- The target named at a place, if there is one. -/
def targetAt? (s : State) : TargetPlace → Option String
  | .transition => s.transition.bind Transition.target?
  | .catcher i => s.catchers[i]?.bind Catcher.next
  | .rule i => s.rules[i]?.bind ChoiceRule.next
  | .default => s.defaultTarget

/-- The target is the first, in the order of its places, that the scope does not
declare. -/
def FirstUnknown (s : State) (declared : States) (target : String) : Prop :=
  ∃ place, s.targetAt? place = some target ∧
    target ∉ States.names declared ∧
    ∀ earlier a, TargetPlace.Before earlier place →
      s.targetAt? earlier = some a → a ∈ States.names declared

end State

/-- What is reported of a scope in which not all targets are declared. -/
inductive Machine.TargetReport (m : Machine) (location : Location) :
    Violation → Prop where
  /-- The start comes before all else, and is reported at the scope. -/
  | start {a : String} :
      m.startAt = some a → a ∉ States.names m.states →
        m.TargetReport location ⟨location, .unknownTarget a⟩
  /-- The first declaration that names an unknown target, at its state. -/
  | target {before after : States} {e : Entry} {a : String} :
      (∀ b, m.startAt = some b → b ∈ States.names m.states) →
        m.states = before ++ e :: after →
        (∀ d ∈ before, ∀ b ∈ d.state.targets, b ∈ States.names m.states) →
        e.state.FirstUnknown m.states a →
          m.TargetReport location ⟨location.state e.name, .unknownTarget a⟩

/-! ## Targets at their places -/

section Places

variable {α β : Type} {f : α → Option β} {place : Nat → TargetPlace}

/-- What the members of a list give, each at the place of its index. -/
def atPlaces (place : Nat → TargetPlace) (f : α → Option β) (as : List α) :
    List (TargetPlace × β) :=
  as.zipIdx.filterMap fun (a, i) => (f a).map (place i, ·)

theorem map_snd_atPlaces (as : List α) :
    (atPlaces place f as).map Prod.snd = as.filterMap f := by
  conv_rhs => rw [← List.zipIdx_map_fst 0 as, List.filterMap_map]
  rw [atPlaces, List.map_filterMap]
  refine List.filterMap_congr fun x _ => ?_
  rw [Option.map_map]
  exact Option.map_id'

theorem mem_atPlaces_iff {as : List α} {p : TargetPlace} {b : β} :
    (p, b) ∈ atPlaces place f as ↔
      ∃ i, place i = p ∧ (as[i]?).bind f = some b := by
  simp only [atPlaces, List.mem_filterMap, Prod.exists,
    List.mem_zipIdx_iff_getElem?, Option.map_eq_some_iff, Prod.mk.injEq,
    Option.bind_eq_some_iff]
  constructor
  · intro h
    obtain ⟨a, i, ha, b, hb, hp, rfl⟩ := h
    exact ⟨i, hp, a, ha, hb⟩
  · intro h
    obtain ⟨i, hp, a, ha, hb⟩ := h
    exact ⟨a, i, ha, b, hb, hp, rfl⟩

theorem pairwise_atPlaces (place : Nat → TargetPlace) (f : α → Option β)
    (hplace : ∀ i j, i < j → (place i).Before (place j)) (as : List α) :
    (atPlaces place f as).Pairwise fun x y => x.1.Before y.1 := by
  have hindices : as.zipIdx.Pairwise fun x y => x.2 < y.2 := by
    rw [← List.pairwise_map, List.zipIdx_map_snd]
    exact List.pairwise_lt_range'
  refine hindices.filterMap _ fun x y hxy p hp q hq => ?_
  obtain ⟨-, -, rfl⟩ := Option.map_eq_some_iff.mp hp
  obtain ⟨-, -, rfl⟩ := Option.map_eq_some_iff.mp hq
  exact hplace _ _ hxy

end Places

namespace State

variable {s : State} {p : TargetPlace} {a : String}

/-- The targets of a state with their places, in the order of the places. -/
def namedTargets (s : State) : List (TargetPlace × String) :=
  (s.transition.bind Transition.target?).toList.map (.transition, ·) ++
    (atPlaces .catcher Catcher.next s.catchers ++
      (atPlaces .rule ChoiceRule.next s.rules ++
        s.defaultTarget.toList.map (.default, ·)))

theorem map_snd_namedTargets (s : State) :
    s.namedTargets.map Prod.snd = s.targets := by
  rw [targets_eq_append, nextTargets_eq, catchTargets]
  simp only [namedTargets, List.map_append, map_snd_atPlaces, List.map_map,
    Function.comp_def, List.map_id']
  cases s <;> simp [transition, catchers, rules, ruleTargets, defaultTarget]

theorem mem_namedTargets_iff :
    (p, a) ∈ s.namedTargets ↔ s.targetAt? p = some a := by
  simp only [namedTargets, List.mem_append, List.mem_map, Option.mem_toList,
    mem_atPlaces_iff, Prod.mk.injEq, targetAt?]
  cases p <;> simp

theorem pairwise_namedTargets (s : State) :
    s.namedTargets.Pairwise fun x y => x.1.Before y.1 := by
  have hsingle (q : TargetPlace) (t : Option String) :
      (t.toList.map (q, ·)).Pairwise fun x y => x.1.Before y.1 := by
    cases t <;> simp
  have hcatchers := pairwise_atPlaces .catcher Catcher.next
    (fun _ _ h => h) s.catchers
  have hrules := pairwise_atPlaces .rule ChoiceRule.next
    (fun _ _ h => h) s.rules
  simp only [namedTargets, List.pairwise_append, List.mem_append,
    List.mem_map, Prod.forall, mem_atPlaces_iff, Prod.mk.injEq]
  refine ⟨hsingle _ _, ⟨hcatchers, ⟨hrules, hsingle _ _, ?_⟩, ?_⟩, ?_⟩
  · rintro _ _ ⟨i, rfl, -⟩ _ _ ⟨_, -, rfl, rfl⟩
    trivial
  · rintro _ _ ⟨i, rfl, -⟩ _ _ (⟨j, rfl, -⟩ | ⟨_, -, rfl, rfl⟩) <;> trivial
  · rintro _ _ ⟨_, -, rfl, rfl⟩ _ _
      (⟨i, rfl, -⟩ | ⟨i, rfl, -⟩ | ⟨_, -, rfl, rfl⟩) <;> trivial

/-- The first target with some property is the one named at the earliest
place. -/
theorem find?_targets_eq_some_iff {test : String → Bool} :
    s.targets.find? test = some a ↔
      ∃ place, s.targetAt? place = some a ∧ test a = true ∧
        ∀ earlier b, TargetPlace.Before earlier place →
          s.targetAt? earlier = some b → test b = false := by
  have hsorted := s.pairwise_namedTargets
  rw [← map_snd_namedTargets, List.find?_map, Option.map_eq_some_iff]
  constructor
  · intro h
    obtain ⟨⟨place, b⟩, hfind, rfl⟩ := h
    obtain ⟨htest, front, back, hlist, hfront⟩ :=
      List.find?_eq_some_iff_append.mp hfind
    refine ⟨place, mem_namedTargets_iff.mp (by simp [hlist]), htest, ?_⟩
    intro earlier b hbefore hb
    have hmem := mem_namedTargets_iff.mpr hb
    rw [hlist, List.mem_append, List.mem_cons] at hmem
    rw [hlist, List.pairwise_append, List.pairwise_cons] at hsorted
    rcases hmem with hmem | heq | hmem
    · simpa using hfront _ hmem
    · obtain ⟨rfl, -⟩ := Prod.mk.inj heq
      exact absurd hbefore hbefore.asymm
    · exact absurd hbefore (hsorted.2.1.1 _ hmem).asymm
  · intro h
    obtain ⟨place, hplace, htest, hfirst⟩ := h
    obtain ⟨front, back, hlist⟩ :=
      List.append_of_mem (mem_namedTargets_iff.mpr hplace)
    rw [hlist, List.pairwise_append] at hsorted
    refine ⟨(place, a), List.find?_eq_some_iff_append.mpr
      ⟨htest, front, back, hlist, ?_⟩, rfl⟩
    rintro ⟨earlier, b⟩ hmem
    have hb : (earlier, b) ∈ s.namedTargets := by simp [hlist, hmem]
    have hbefore := hsorted.2.2 _ hmem _ List.mem_cons_self
    simpa using hfirst earlier b hbefore (mem_namedTargets_iff.mp hb)

/-- The same state with other branches. A kind without branches is left as it
is. -/
def withBranches (branches : List Branch) : State → State
  | .parallel s => .parallel { s with branches }
  | s => s

theorem targets_withBranches (branches : List Branch) (s : State) :
    (s.withBranches branches).targets = s.targets := by
  cases s <;> rfl

end State

/-- The same scope with other branches in its Parallel states, those of the
declaration at position `i` being `branches i`. -/
def Machine.withBranches (branches : Nat → List Branch) (m : Machine) :
    Machine :=
  { m with
    states := m.states.mapIdx fun i e =>
      ⟨e.name, e.state.withBranches (branches i)⟩ }

/-! ## The check of targets -/

namespace Targets

open Verdict

variable {location : Location} {declared : States} {e : Entry} {m : Machine}
  {v : Violation}

theorem checkEntry_eq_error_iff :
    checkEntry location declared e = .error v ↔
      ∃ a, e.state.FirstUnknown declared a ∧
        v = ⟨location.state e.name, .unknownTarget a⟩ := by
  have hfirst (a : String) :
      (e.state.targets.find? fun b => !declared.contains b) = some a ↔
        e.state.FirstUnknown declared a := by
    simp only [State.find?_targets_eq_some_iff, State.FirstUnknown,
      ← States.contains_eq_true_iff, Bool.not_eq_true', Bool.not_eq_false',
      Bool.not_eq_true]
  simp only [← hfirst]
  rw [checkEntry]
  cases e.state.targets.find? fun b => !declared.contains b with
  | none => simp [accept]
  | some a => simp [reject, eq_comm (a := v)]

theorem checkStart_eq_error_iff :
    checkStart location m = .error v ↔
      ∃ a, m.startAt = some a ∧ a ∉ States.names m.states ∧
        v = ⟨location, .unknownTarget a⟩ := by
  rw [checkStart]
  cases m.startAt with
  | none => simp [accept]
  | some a =>
      simp [require_eq_error_iff, ← States.contains_eq_true_iff]

theorem check_eq_error_iff :
    check location m = .error v ↔ m.TargetReport location v := by
  rw [check, bind_eq_error_iff, checkStart_eq_error_iff,
    checkStart_eq_ok_iff, each_eq_error_iff]
  simp only [checkEntry_eq_ok_iff, checkEntry_eq_error_iff]
  constructor
  · intro h
    rcases h with ⟨a, ha, hnot, rfl⟩ | ⟨hstart, h⟩
    · exact .start ha hnot
    · obtain ⟨before, e, after, hstates, hbefore, a, hfirst, rfl⟩ := h
      exact .target hstart hstates hbefore hfirst
  · intro h
    cases h with
    | start ha hnot => exact .inl ⟨_, ha, hnot, rfl⟩
    | target hstart hstates hbefore hfirst =>
        exact .inr ⟨hstart, _, _, _, hstates, hbefore, _, hfirst, rfl⟩

/-- Of a scope the check sees the start and the names and targets of the
declarations, in order. -/
theorem check_congr {m' : Machine} (hstart : m.startAt = m'.startAt)
    (hstates : List.Forall₂
      (fun d e => d.name = e.name ∧ d.state.targets = e.state.targets)
      m.states m'.states) : check location m = check location m' := by
  have hnames : States.names m.states = States.names m'.states := by
    rw [States.names, States.names, ← List.forall₂_eq_eq_eq,
      List.forall₂_map_left_iff, List.forall₂_map_right_iff]
    exact hstates.imp fun _ _ h => h.1
  have hcontains := States.contains_congr hnames
  have hentries : Verdict.each (checkEntry location m.states) m.states =
      Verdict.each (checkEntry location m'.states) m'.states := by
    refine sequential_eq.forall₂_each (hstates.imp fun d e h => ?_)
    rw [checkEntry, checkEntry, hcontains, h.1, h.2]
  rw [check, check, checkStart, checkStart, hstart, hcontains, hentries]

/-- All targets of a scope are declared in it, or it is reported: for its start,
if that is unknown, and else for the unknown target that comes first, by the
order of the declarations and, inside a state, by that of the places where
targets are named. What the branches of its Parallel states hold makes no
difference. -/
theorem first_unknown_target (location : Location) (m : Machine) :
    (check location m = .ok () ↔ m.Resolved) ∧
      (∀ v, check location m = .error v ↔ m.TargetReport location v) ∧
      ∀ branches, check location (m.withBranches branches) =
        check location m := by
  refine ⟨check_eq_ok_iff, fun v => check_eq_error_iff, fun branches => ?_⟩
  refine check_congr rfl (List.forall₂_iff_get.mpr ⟨?_, fun i h h' => ?_⟩)
  · rw [Machine.withBranches, List.length_mapIdx]
  · simp [Machine.withBranches, State.targets_withBranches]

end Targets

end Workflow

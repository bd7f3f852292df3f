import Workflow.Proofs.Equality.Machines
import Workflow.Proofs.TwoRuns

/-!
# Equal machines are validated alike

Equal machines need not be the same: a zero may have another sign, and a literal
may be written with its keys in another order. No check looks at a literal but
to ask whether it is null, and a rate is only compared with one, which both
zeros are less than. So every check comes to the same verdict on both machines,
with one exception: a rate that is refused is reported as it stands, and the
text of that report shows the sign of a zero (`validate_of_beq`).

The checks of a scope are gone through once, to see that each reads only what
equality preserves. From there on it is the induction over the scopes of two
machines at once.
-/

namespace Workflow

/-! ## Verdicts that differ in a rate at most -/

namespace Verdict

/-- The verdicts are the same, or report equal rates as too small at the same
place. -/
def SameButRate (v w : Verdict) : Prop :=
  v = w ∨ ∃ l, ∃ x y : Double, (x == y) = true ∧
    v = .error ⟨l, .outOfRange (.rateBelowOne x)⟩ ∧
    w = .error ⟨l, .outOfRange (.rateBelowOne y)⟩

theorem sameButRate_sequential : Sequential SameButRate where
  accept := .inl rfl
  seq := by
    intro u v f g huv hfg
    rcases huv with rfl | ⟨l, x, y, hxy, rfl, rfl⟩
    · cases u with
      | ok _ => exact hfg
      | error _ => exact .inl rfl
    · exact .inr ⟨l, x, y, hxy, rfl, rfl⟩

theorem eachFrom_eq_of_forall₂ {α : Type} {check : Nat → α → Verdict}
    {as bs : List α}
    (h : List.Forall₂ (fun a b => ∀ i, check i a = check i b) as bs)
    (start : Nat) : eachFrom check start as = eachFrom check start bs := by
  induction h generalizing start with
  | nil => rfl
  | cons hab _ ih => rw [eachFrom, eachFrom, hab start, ih]

end Verdict

/-! ## Lists of corresponding elements -/

section Lists

variable {α β : Type} {R : α → α → Prop} {as bs : List α}

theorem isEmpty_eq_of_forall₂ (h : List.Forall₂ R as bs) :
    as.isEmpty = bs.isEmpty := by
  cases h <;> rfl

theorem map_eq_of_forall₂ {f g : α → β} (hfg : ∀ a b, R a b → f a = g b)
    (h : List.Forall₂ R as bs) : as.map f = bs.map g := by
  rw [← List.forall₂_eq_eq_eq, List.forall₂_map_left_iff,
    List.forall₂_map_right_iff]
  exact h.imp hfg

end Lists

/-! ## Conditions and rules -/

namespace Condition

variable {c d : Condition} {cs ds : List Condition}

theorem comparisonsEach_of_forall₂
    (ih : ∀ c ∈ cs, ∀ d, (c == d) = true →
      List.Forall₂ (fun a b => (a == b) = true) c.comparisons d.comparisons)
    (h : List.Forall₂ (fun a b => (a == b) = true) cs ds) :
    List.Forall₂ (fun a b => (a == b) = true) (comparisonsEach cs)
      (comparisonsEach ds) := by
  induction h with
  | nil => exact .nil
  | cons hcd _ ihs =>
      rw [List.forall_mem_cons] at ih
      rw [comparisonsEach, comparisonsEach]
      exact List.rel_append (ih.1 _ hcd) (ihs ih.2)

/-- Equal conditions make equal comparisons, in the same order. -/
theorem comparisons_of_beq (h : (c == d) = true) :
    List.Forall₂ (fun a b => (a == b) = true) c.comparisons
      d.comparisons := by
  induction c using induction generalizing d with
  | comparison test =>
      obtain ⟨other, rfl, h⟩ := comparison_beq_iff.mp h
      rw [comparisons, comparisons]
      exact .cons h .nil
  | all cs ih =>
      obtain ⟨ds, rfl, hcs⟩ := all_beq_iff.mp h
      rw [comparisons, comparisons]
      exact comparisonsEach_of_forall₂ (fun c hc _ => ih c hc) hcs
  | any cs ih =>
      obtain ⟨ds, rfl, hcs⟩ := any_beq_iff.mp h
      rw [comparisons, comparisons]
      exact comparisonsEach_of_forall₂ (fun c hc _ => ih c hc) hcs
  | negation o ih =>
      rcases negation_beq_iff.mp h with ⟨rfl, rfl⟩ | ⟨a, b, rfl, rfl, h⟩
      · exact .nil
      · rw [comparisons, comparisons]
        exact ih a rfl h

end Condition

namespace Fields

variable {location : Location}

theorem checkComparison_of_beq {a b : Comparison} (h : (a == b) = true) :
    checkComparison location a = checkComparison location b := by
  obtain ⟨hrest, hexpected⟩ := (Comparison.beq_iff a b).mp h
  have hgiven : (a.expected.any fun value => !value.isNull) =
      b.expected.any fun value => !value.isNull := by
    cases ha : a.expected <;> cases hb : b.expected <;>
      rw [ha, hb] at hexpected
    · cases hexpected
    · cases hexpected
    · rw [Option.some_beq_some] at hexpected
      rw [Option.any_some, Option.any_some,
        Literal.isNull_eq_of_beq hexpected]
  rw [checkComparison, checkComparison, (Comparison.mk.inj hrest).1, hgiven]

theorem checkConditions_eq_each (location : Location) (cs : List Condition) :
    checkConditions location cs =
      Verdict.each (checkCondition location) cs := by
  induction cs with
  | nil => rfl
  | cons c cs ih => rw [checkConditions, ih, Verdict.each]

theorem checkConditions_of_forall₂ {cs ds : List Condition}
    (ih : ∀ c ∈ cs, ∀ d, (c == d) = true →
      checkCondition location c = checkCondition location d)
    (h : List.Forall₂ (fun a b => (a == b) = true) cs ds) :
    checkConditions location cs = checkConditions location ds := by
  rw [checkConditions_eq_each, checkConditions_eq_each]
  have hboth := (List.forall₂_and_left _ _).mpr ⟨ih, h⟩
  exact Verdict.sequential_eq.forall₂_each
    (hboth.imp fun _ _ hcd => hcd.1 _ hcd.2)

theorem checkCondition_of_beq {c d : Condition} (h : (c == d) = true) :
    checkCondition location c = checkCondition location d := by
  induction c using Condition.induction generalizing d with
  | comparison test =>
      obtain ⟨other, rfl, h⟩ := Condition.comparison_beq_iff.mp h
      rw [checkCondition, checkCondition, checkComparison_of_beq h]
  | all cs ih =>
      obtain ⟨ds, rfl, hcs⟩ := Condition.all_beq_iff.mp h
      rw [checkCondition, checkCondition, isEmpty_eq_of_forall₂ hcs,
        checkConditions_of_forall₂ (fun c hc _ => ih c hc) hcs]
  | any cs ih =>
      obtain ⟨ds, rfl, hcs⟩ := Condition.any_beq_iff.mp h
      rw [checkCondition, checkCondition, isEmpty_eq_of_forall₂ hcs,
        checkConditions_of_forall₂ (fun c hc _ => ih c hc) hcs]
  | negation o ih =>
      rcases Condition.negation_beq_iff.mp h with
        ⟨rfl, rfl⟩ | ⟨a, b, rfl, rfl, h⟩
      · rfl
      · rw [checkCondition, checkCondition, checkGivenCondition,
          checkGivenCondition, ih a rfl h]

end Fields

theorem ChoiceRule.next_eq_of_beq {a b : ChoiceRule} (h : (a == b) = true) :
    a.next = b.next :=
  (ChoiceRule.mk.inj ((ChoiceRule.beq_iff a b).mp h).1).2

theorem Fields.checkRule_of_beq {location : Location} {a b : ChoiceRule}
    (h : (a == b) = true) :
    checkRule location a = checkRule location b := by
  have hcondition := ((ChoiceRule.beq_iff a b).mp h).2
  rw [checkRule, checkRule, a.next_eq_of_beq h]
  cases ha : a.condition <;> cases hb : b.condition <;>
    rw [ha, hb] at hcondition
  · cases hcondition
  · cases hcondition
  · rw [checkGivenCondition, checkGivenCondition,
      checkCondition_of_beq hcondition]

theorem Fields.checkRules_of_forall₂ {location : Location}
    {rules rules' : List ChoiceRule}
    (h : List.Forall₂ (fun a b => (a == b) = true) rules rules') :
    Verdict.eachFrom (fun i rule => checkRule (location.choice i) rule) 0
        rules =
      Verdict.eachFrom (fun i rule => checkRule (location.choice i) rule) 0
        rules' :=
  Verdict.eachFrom_eq_of_forall₂
    (h.imp fun _ _ hab _ => checkRule_of_beq hab) 0

theorem PathUse.ofRule_of_beq {location : Location} {a b : ChoiceRule}
    (h : (a == b) = true) : ofRule location a = ofRule location b := by
  have hcondition := ((ChoiceRule.beq_iff a b).mp h).2
  have hcomparisons : List.Forall₂ (fun a b => (a == b) = true)
      (Condition.comparisonsOption a.condition)
      (Condition.comparisonsOption b.condition) := by
    cases ha : a.condition <;> cases hb : b.condition <;>
      rw [ha, hb] at hcondition
    · exact .nil
    · cases hcondition
    · cases hcondition
    · exact Condition.comparisons_of_beq hcondition
  rw [ofRule, ofRule, List.flatMap_def, List.flatMap_def]
  refine congrArg List.flatten (map_eq_of_forall₂ (fun t u htu => ?_)
    hcomparisons)
  rw [(Comparison.mk.inj ((Comparison.beq_iff t u).mp htu).1).1]

theorem PathUse.ofRules_of_forall₂ {location : Location}
    {rules rules' : List ChoiceRule}
    (h : List.Forall₂ (fun a b => (a == b) = true) rules rules')
    (index : Nat) :
    ofRules location index rules = ofRules location index rules' := by
  induction h generalizing index with
  | nil => rfl
  | cons hab _ ih => rw [ofRules, ofRules, ofRule_of_beq hab, ih]

/-! ## Retriers -/

namespace Fields

variable {location : Location}

theorem checkRate_of_beq {x y : Option Double} (h : (x == y) = true) :
    Verdict.SameButRate (checkRate location x) (checkRate location y) := by
  cases x <;> cases y
  · exact .inl rfl
  · cases h
  · cases h
  · next x y =>
      rw [Option.some_beq_some] at h
      rw [checkRate, checkRate, ← Double.atLeastOne_eq_of_beq h]
      cases x.atLeastOne with
      | true => exact .inl rfl
      | false => exact .inr ⟨location, x, y, h, rfl, rfl⟩

theorem checkRetrier_of_beq {r s : Retrier} (h : (r == s) = true) :
    Verdict.SameButRate (checkRetrier location r)
      (checkRetrier location s) := by
  obtain ⟨hrest, hrate⟩ := (Retrier.beq_iff r s).mp h
  obtain ⟨-, hinterval, hattempts, -⟩ := Retrier.mk.inj hrest
  have hR := Verdict.sameButRate_sequential
  rw [checkRetrier, checkRetrier, hattempts, hinterval]
  exact hR.seq (.inl rfl) (hR.seq (.inl rfl) (checkRate_of_beq hrate))

theorem checkRetriers_of_beq {rs ss : List Retrier} (h : (rs == ss) = true) :
    Verdict.SameButRate (checkRetriers location rs)
      (checkRetriers location ss) := by
  have hR := Verdict.sameButRate_sequential
  rw [list_beq_iff] at h
  rw [checkRetriers, checkRetriers]
  generalize 0 = index
  generalize false = afterAll
  induction h generalizing index afterAll with
  | nil => exact .inl rfl
  | @cons r s _ _ hrs _ ih =>
      have hcodes := (Retrier.mk.inj ((Retrier.beq_iff r s).mp hrs).1).1
      rw [checkPolicies, checkPolicies, hcodes]
      exact hR.seq (.inl rfl) (hR.seq (checkRetrier_of_beq hrs)
        (hR.seq (.inl rfl) (ih _ _)))

end Fields

/-! ## States -/

theorem PassState.eq_of_beq {s t : PassState} (h : (s == t) = true) :
    t = { s with result := t.result } :=
  congrArg (fun u : PassState => { u with result := t.result })
    ((beq_iff s t).mp h).1.symm

theorem TaskState.eq_of_beq {s t : TaskState} (h : (s == t) = true) :
    t = { s with retriers := t.retriers } :=
  congrArg (fun u : TaskState => { u with retriers := t.retriers })
    ((beq_iff s t).mp h).1.symm

theorem ChoiceState.eq_of_beq {s t : ChoiceState} (h : (s == t) = true) :
    t = { s with rules := t.rules } :=
  congrArg (fun u : ChoiceState => { u with rules := t.rules })
    ((beq_iff s t).mp h).1.symm

theorem ParallelState.Same.eq {s t : ParallelState} (h : s.Same t) :
    t = { s with branches := t.branches, retriers := t.retriers } := by
  -- The fields of a record that is defined together with others need its
  -- constructor before they can be put together again.
  have hrest := h.rest
  cases t with
  | mk comment input output path branches retriers catchers transition =>
      exact congrArg (fun u : ParallelState =>
        { u with branches := branches, retriers := retriers }) hrest.symm

/-- States that look the same to all checks but that of their fields. -/
structure State.LooksLike (s t : State) : Prop where
  pathUses : ∀ location, s.pathUses location = t.pathUses location
  nextTargets : s.nextTargets = t.nextTargets
  catchTargets : s.catchTargets = t.catchTargets
  isTerminal : s.isTerminal = t.isTerminal
  isBranching : s.isBranching = t.isBranching

namespace State.Same

variable {s t : State}

theorem looksLike (h : s.Same t) : s.LooksLike t := by
  cases h with
  | wait | succeed | fail => exact ⟨fun _ => rfl, rfl, rfl, rfl, rfl⟩
  | pass h =>
      rw [PassState.eq_of_beq h]
      exact ⟨fun _ => rfl, rfl, rfl, rfl, rfl⟩
  | task h =>
      rw [TaskState.eq_of_beq h]
      exact ⟨fun _ => rfl, rfl, rfl, rfl, rfl⟩
  | parallel h =>
      rw [h.eq]
      exact ⟨fun _ => rfl, rfl, rfl, rfl, rfl⟩
  | @choice s t h =>
      have hrules := list_beq_iff.mp ((ChoiceState.beq_iff s t).mp h).2
      rw [ChoiceState.eq_of_beq h]
      refine ⟨fun location => ?_, ?_, rfl, rfl, rfl⟩
      · exact congrArg (_ ++ ·) (PathUse.ofRules_of_forall₂ hrules 0)
      · have hnexts := map_eq_of_forall₂
          (fun a b => ChoiceRule.next_eq_of_beq (a := a) (b := b)) hrules
        have hfilter (rules : List ChoiceRule) :
            rules.filterMap ChoiceRule.next =
              (rules.map ChoiceRule.next).filterMap id := by
          rw [List.filterMap_map, Function.id_comp]
        rw [nextTargets, nextTargets, hfilter, hnexts, ← hfilter]

theorem branches (h : s.Same t) :
    List.Forall₂ Branch.Same s.branches t.branches := by
  cases h with
  | parallel h => exact h.branches
  | _ => exact .nil

theorem checkState (location : Location) (h : s.Same t) :
    Verdict.SameButRate (Fields.checkState location s)
      (Fields.checkState location t) := by
  have hR := Verdict.sameButRate_sequential
  cases h with
  | wait | succeed | fail => exact .inl rfl
  | pass h =>
      rw [PassState.eq_of_beq h]
      exact .inl rfl
  | @task s t h =>
      have hretriers := ((TaskState.beq_iff s t).mp h).2
      rw [TaskState.eq_of_beq h, Fields.checkState, Fields.checkState,
        Fields.checkTask, Fields.checkTask]
      refine hR.seq (.inl rfl) (hR.seq (.inl rfl) (hR.seq (.inl rfl) ?_))
      refine hR.seq (.inl rfl) (hR.seq ?_ (.inl rfl))
      exact Fields.checkRetriers_of_beq hretriers
  | @choice s t h =>
      have hrules := list_beq_iff.mp ((ChoiceState.beq_iff s t).mp h).2
      left
      rw [ChoiceState.eq_of_beq h, Fields.checkState, Fields.checkState,
        Fields.checkChoice, Fields.checkChoice, isEmpty_eq_of_forall₂ hrules,
        Fields.checkRules_of_forall₂ hrules]
  | parallel h =>
      rw [h.eq, Fields.checkState, Fields.checkState, Fields.checkParallel,
        Fields.checkParallel, isEmpty_eq_of_forall₂ h.branches]
      refine hR.seq (.inl rfl) (hR.seq ?_ (.inl rfl))
      exact Fields.checkRetriers_of_beq h.retriers

end State.Same

/-! ## The states of a scope -/

namespace States

variable {es fs : States} (h : List.Forall₂ Entry.Same es fs)

include h

theorem names_eq_of_same : names es = names fs :=
  map_eq_of_forall₂ (fun _ _ => Entry.Same.name) h

theorem contains_eq_of_same : es.contains = fs.contains :=
  contains_congr (names_eq_of_same h)

theorem index?_eq_of_same : es.index? = fs.index? :=
  index?_congr (names_eq_of_same h)

theorem ofStates_eq_of_same : Graph.ofStates es = Graph.ofStates fs := by
  rw [Graph.ofStates, Graph.ofStates]
  refine congrArg Graph.mk (map_eq_of_forall₂ (fun e f hef => ?_) h)
  have hlooks := (State.beq_iff.mp hef.state).looksLike
  rw [Graph.node, Graph.node, hef.name, hlooks.nextTargets,
    hlooks.catchTargets, hlooks.isTerminal, hlooks.isBranching,
    index?_eq_of_same h]

theorem checkFields_of_same (location : Location) :
    Verdict.SameButRate (Fields.checkStates location es)
      (Fields.checkStates location fs) := by
  refine Verdict.sameButRate_sequential.forall₂_each (h.imp fun e f hef => ?_)
  rw [hef.name]
  exact (State.beq_iff.mp hef.state).checkState _

theorem checkPaths_eq_of_same (location : Location) :
    StatePaths.checkStates location es =
      StatePaths.checkStates location fs := by
  refine Verdict.sequential_eq.forall₂_each (h.imp fun e f hef => ?_)
  rw [hef.name, StatePaths.checkState_eq_each, StatePaths.checkState_eq_each,
    (State.beq_iff.mp hef.state).looksLike.pathUses]

theorem checkTargets_eq_of_same (location : Location) :
    Verdict.each (Targets.checkEntry location es) es =
      Verdict.each (Targets.checkEntry location fs) fs := by
  refine Verdict.sequential_eq.forall₂_each (h.imp fun e f hef => ?_)
  have hlooks := (State.beq_iff.mp hef.state).looksLike
  rw [Targets.checkEntry, Targets.checkEntry, State.targets_eq_append,
    State.targets_eq_append, hef.name, hlooks.nextTargets, hlooks.catchTargets,
    contains_eq_of_same h]

end States

/-! ## Scopes -/

/-- Scopes of equal machines at the same place and depth. -/
structure Scope.Same (s t : Scope) : Prop where
  location : s.location = t.location
  depth : s.depth = t.depth
  machine : (s.machine == t.machine) = true

namespace Scope.Same

variable {s t : Scope}

theorem startAt (h : s.Same t) : s.machine.startAt = t.machine.startAt := by
  obtain ⟨-, -, -, hstart, -⟩ :=
    Machine.mk.inj (Machine.beq_iff.mp h.machine).1
  exact hstart

theorem timeout (h : s.Same t) :
    s.machine.timeoutSeconds = t.machine.timeoutSeconds := by
  obtain ⟨-, -, htimeout, -⟩ :=
    Machine.mk.inj (Machine.beq_iff.mp h.machine).1
  exact htimeout

theorem states (h : s.Same t) :
    List.Forall₂ Entry.Same s.machine.states t.machine.states :=
  (Machine.beq_iff.mp h.machine).2

theorem ofBranches {location : Location} {depth : Nat} {bs cs : List Branch}
    (h : List.Forall₂ Branch.Same bs cs) (index : Nat) :
    List.Forall₂ Scope.Same (Scope.ofBranches location depth index bs)
      (Scope.ofBranches location depth index cs) := by
  induction h generalizing index with
  | nil => exact .nil
  | cons hbc _ ih =>
      rw [ofBranches_cons, ofBranches_cons]
      exact .cons ⟨rfl, rfl, hbc.machine⟩ (ih _)

theorem children (h : s.Same t) :
    List.Forall₂ Scope.Same s.children t.children := by
  refine List.rel_flatMap h.states fun e f hef => ?_
  rw [h.location, h.depth, hef.name]
  exact ofBranches (State.beq_iff.mp hef.state).branches 0

variable (settings : Settings)

theorem entry (h : s.Same t) :
    Verdict.SameButRate (s.entry settings) (t.entry settings) := by
  have hR := Verdict.sameButRate_sequential
  rw [entry_eq, entry_eq, Fields.checkScope, Fields.checkScope, Targets.check,
    Targets.check, Targets.checkStart, Targets.checkStart, h.location,
    h.depth, h.startAt, h.timeout, isEmpty_eq_of_forall₂ h.states,
    States.names_eq_of_same h.states, States.contains_eq_of_same h.states,
    States.checkPaths_eq_of_same h.states,
    States.checkTargets_eq_of_same h.states]
  refine hR.seq (.inl rfl) (hR.seq (.inl rfl) (hR.seq ?_ (.inl rfl)))
  exact States.checkFields_of_same h.states _

theorem exit_eq (h : s.Same t) : s.exit settings = t.exit settings := by
  rw [Scope.exit_eq, Scope.exit_eq, Termination.check, Termination.check,
    Termination.checkReachable, Termination.checkReachable,
    Termination.unreachable, Termination.unreachable, Termination.start?,
    Termination.start?, h.location, h.startAt,
    States.index?_eq_of_same h.states, States.ofStates_eq_of_same h.states]

theorem verdict (h : s.Same t) :
    Verdict.SameButRate (s.verdict settings) (t.verdict settings) :=
  verdict_related_of_rel Verdict.sameButRate_sequential
    (fun _ _ => children) (fun _ _ h => h.entry settings)
    (fun _ _ h => .inl (h.exit_eq settings)) h

end Scope.Same

/-- Equal machines are accepted alike and rejected alike: for the same problem,
at the same place and with the same causes, but for a rate that is less than
one, which is reported as it is written in either of them. -/
theorem validate_of_beq {a b : Machine} (h : (a == b) = true)
    (settings : Settings) :
    validate settings a = validate settings b ∨
      ∃ l, ∃ x y : Double, (x == y) = true ∧
        validate settings a = .error ⟨l, .outOfRange (.rateBelowOne x)⟩ ∧
        validate settings b = .error ⟨l, .outOfRange (.rateBelowOne y)⟩ :=
  Scope.Same.verdict settings (s := a.scope) (t := b.scope) ⟨rfl, rfl, h⟩

/-- Two machines that differ in the sign of a zero, and are told apart by
nothing but the report of it. -/
theorem validate_of_beq_retrying :
    (Machine.retrying (.finite (.zero true)) ==
        Machine.retrying (.finite (.zero false))) = true ∧
      validate {} (.retrying (.finite (.zero true))) ≠
        validate {} (.retrying (.finite (.zero false))) ∧
      ∃ l, ∃ x y : Double, (x == y) = true ∧
        validate {} (.retrying (.finite (.zero true))) =
          .error ⟨l, .outOfRange (.rateBelowOne x)⟩ ∧
        validate {} (.retrying (.finite (.zero false))) =
          .error ⟨l, .outOfRange (.rateBelowOne y)⟩ := by
  have hequal : (Machine.retrying (.finite (.zero true)) ==
      Machine.retrying (.finite (.zero false))) = true := by decide +kernel
  have hother : validate {} (.retrying (.finite (.zero true))) ≠
      validate {} (.retrying (.finite (.zero false))) := by decide +kernel
  exact ⟨hequal, hother, (validate_of_beq hequal {}).resolve_left hother⟩

end Workflow

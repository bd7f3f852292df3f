import Mathlib.Data.List.Basic
import Workflow.Fields
import Workflow.Proofs.Renaming.Basic
import Workflow.Proofs.PathUses

/-!
# Checks do not read names

A relabelling gives the states of a definition other names and the definition
another place. Every check of one scope reports of the relabelled scope what it
reports of the scope itself, under the new names and at the new place. For
most checks this is a matter of going through them; what they ask of names is
no more than whether one is empty and whether two are the same, and a
relabelling keeps both.
-/

namespace Workflow

/-- Other names for the states of a definition, and another place for the
definition as a whole. No two names become one, and the empty name, which
stands for a missing one, keeps its meaning. -/
structure Relabelling where
  name : String → String
  injective : Function.Injective name
  name_empty : name "" = ""
  /-- Where the top of the definition comes to stand. -/
  base : Location := .root
  /-- How many branches the new place lies in. -/
  levels : Nat := 0

namespace Relabelling

open Verdict

variable (r : Relabelling) (l : Location)

/-- Where the part that was at a place has come to. -/
def place (l : Location) : Location :=
  ⟨r.base.steps ++ l.steps.map (Step.rename r.name)⟩

def violation (v : Violation) : Violation :=
  ⟨r.place v.location, v.problem.rename r.name⟩

/-- The verdict with its violation, if any, under the new labels. -/
def verdict (v : Verdict) : Verdict := v.mapError r.violation

theorem name_eq_empty_iff {a : String} : r.name a = "" ↔ a = "" := by
  constructor
  · intro h
    exact r.injective (h.trans r.name_empty.symm)
  · intro h
    rw [h, r.name_empty]

theorem isEmpty_name (a : String) : (r.name a).isEmpty = a.isEmpty := by
  rw [Bool.eq_iff_iff, String.isEmpty_iff, String.isEmpty_iff,
    name_eq_empty_iff]

/-! ## Places -/

theorem place_child (step : Step) :
    r.place (l.child step) = (r.place l).child (step.rename r.name) := by
  simp [place, Location.child]

@[simp] theorem place_state (a : String) :
    r.place (l.state a) = (r.place l).state (r.name a) :=
  r.place_child l _

@[simp] theorem place_branch (i : Nat) :
    r.place (l.branch i) = (r.place l).branch i :=
  r.place_child l _

@[simp] theorem place_choice (i : Nat) :
    r.place (l.choice i) = (r.place l).choice i :=
  r.place_child l _

@[simp] theorem place_retrier (i : Nat) :
    r.place (l.retrier i) = (r.place l).retrier i :=
  r.place_child l _

@[simp] theorem place_catcher (i : Nat) :
    r.place (l.catcher i) = (r.place l).catcher i :=
  r.place_child l _

/-! ## Verdicts -/

theorem verdict_reject (p : Problem) :
    r.verdict (reject l p) = reject (r.place l) (p.rename r.name) := rfl

theorem verdict_require (c : Bool) (p : Problem) :
    r.verdict (require c l p) =
      require c (r.place l) (p.rename r.name) := by
  cases c <;> rfl

theorem verdict_bind (v : Verdict) (f : Unit → Verdict) :
    r.verdict (v >>= f) = (r.verdict v >>= fun u => r.verdict (f u)) := by
  cases v <;> rfl

theorem verdict_each {α β : Type} {check : α → Verdict}
    {check' : β → Verdict} {g : α → β} {as : List α}
    (hcheck : ∀ a ∈ as, r.verdict (check a) = check' (g a)) :
    r.verdict (each check as) = each check' (as.map g) := by
  induction as with
  | nil => rfl
  | cons a as ih =>
      obtain ⟨ha, has⟩ := List.forall_mem_cons.mp hcheck
      rw [each, verdict_bind, ha, ih has, List.map_cons, each]

theorem verdict_eachFrom {α β : Type} {check : Nat → α → Verdict}
    {check' : Nat → β → Verdict} {g : α → β}
    (hcheck : ∀ i a, r.verdict (check i a) = check' i (g a)) (as : List α)
    (start : Nat) :
    r.verdict (eachFrom check start as) =
      eachFrom check' start (as.map g) := by
  induction as generalizing start with
  | nil => rfl
  | cons a as ih =>
      rw [eachFrom, verdict_bind, hcheck, ih, List.map_cons, eachFrom]

/-! ## Checks of values -/

section Values

open Fields

/-- Whether a name is given does not depend on what it is called. -/
theorem requireText_name (field : Field) (a : Option String) :
    requireText l field (a.map r.name) = requireText l field a := by
  cases a with
  | none => rfl
  | some a => simp [requireText, isEmpty_name]

theorem verdict_requireText (field : Field) (value : Option String) :
    r.verdict (requireText l field value) =
      requireText (r.place l) field value := by
  rw [requireText, verdict_require]
  rfl

theorem verdict_requirePositive (field : Field) (value : Option Int) :
    r.verdict (requirePositive l field value) =
      requirePositive (r.place l) field value := by
  cases value with
  | none => rfl
  | some n =>
      rw [requirePositive, verdict_require]
      rfl

theorem verdict_checkTransition (t : Option Transition) :
    r.verdict (checkTransition l t) =
      checkTransition (r.place l) (t.map (.rename r.name)) := by
  rcases t with _ | target | _
  · rfl
  · rw [checkTransition, verdict_requireText, ← requireText_name]
    rfl
  · rfl

theorem verdict_checkCodes (codes : List String) :
    r.verdict (checkCodes l codes) = checkCodes (r.place l) codes := by
  rw [checkCodes, verdict_bind, verdict_require, verdict_require]
  rfl

theorem verdict_checkPolicies {α : Type} {place place' : Nat → Location}
    {notLast : CodesFault} {codes : α → List String}
    {check : Location → α → Verdict} {g : α → α}
    (hplace : ∀ i, r.place (place i) = place' i)
    (hcheck : ∀ l p, r.verdict (check l p) = check (r.place l) (g p))
    (hcodes : ∀ p, codes (g p) = codes p)
    (policies : List α) (index : Nat) (afterAll : Bool) :
    r.verdict (checkPolicies place notLast codes check index afterAll
        policies) =
      checkPolicies place' notLast codes check index afterAll
        (policies.map g) := by
  induction policies generalizing index afterAll with
  | nil => rfl
  | cons p rest ih =>
      rw [checkPolicies, verdict_bind, verdict_bind, verdict_bind,
        verdict_require, hcheck, verdict_checkCodes, ih, hplace,
        List.map_cons, checkPolicies, hcodes]
      rfl

theorem verdict_checkRetrier (retrier : Retrier) :
    r.verdict (checkRetrier l retrier) =
      checkRetrier (r.place l) retrier := by
  have hattempts : r.verdict (checkAttempts l retrier.maxAttempts) =
      checkAttempts (r.place l) retrier.maxAttempts := by
    cases retrier.maxAttempts with
    | none => rfl
    | some n =>
        rw [checkAttempts, verdict_require]
        rfl
  have hrate : r.verdict (checkRate l retrier.backoffRate) =
      checkRate (r.place l) retrier.backoffRate := by
    cases retrier.backoffRate with
    | none => rfl
    | some x =>
        rw [checkRate, verdict_require]
        rfl
  rw [checkRetrier, verdict_bind, verdict_bind, hattempts,
    verdict_requirePositive, hrate, checkRetrier]

theorem verdict_checkRetriers (retriers : List Retrier) :
    r.verdict (checkRetriers l retriers) =
      checkRetriers (r.place l) retriers := by
  rw [checkRetriers, r.verdict_checkPolicies (r.place_retrier l)
    r.verdict_checkRetrier (fun _ => rfl), List.map_id', checkRetriers]

theorem verdict_checkCatchers (catchers : List Catcher) :
    r.verdict (checkCatchers l catchers) =
      checkCatchers (r.place l) (catchers.map (.rename r.name)) := by
  have hcheck : ∀ l c, r.verdict (checkCatcher l c) =
      checkCatcher (r.place l) (c.rename r.name) := by
    intro l c
    rw [checkCatcher, verdict_requireText, ← requireText_name]
    rfl
  rw [checkCatchers, r.verdict_checkPolicies (r.place_catcher l) hcheck
    (fun _ => rfl), checkCatchers]

/-! ## Checks of rules -/

theorem verdict_checkComparison (test : Comparison) :
    r.verdict (checkComparison l test) =
      checkComparison (r.place l) test := by
  rw [checkComparison, verdict_bind, verdict_requireText, verdict_require]
  rfl

mutual

theorem verdict_checkCondition : (c : Condition) →
    r.verdict (checkCondition l c) = checkCondition (r.place l) c
  | .comparison test => r.verdict_checkComparison l test
  | .all cs => by
      rw [checkCondition, verdict_bind, verdict_require,
        verdict_checkConditions cs]
      rfl
  | .any cs => by
      rw [checkCondition, verdict_bind, verdict_require,
        verdict_checkConditions cs]
      rfl
  | .negation c => verdict_checkGivenCondition c

theorem verdict_checkConditions : (cs : List Condition) →
    r.verdict (checkConditions l cs) = checkConditions (r.place l) cs
  | [] => rfl
  | c :: cs => by
      rw [checkConditions, verdict_bind, verdict_checkCondition c,
        verdict_checkConditions cs, checkConditions]

theorem verdict_checkGivenCondition : (c : Option Condition) →
    r.verdict (checkGivenCondition l c) = checkGivenCondition (r.place l) c
  | none => rfl
  | some c => verdict_checkCondition c

end

theorem verdict_checkRule (rule : ChoiceRule) :
    r.verdict (checkRule l rule) =
      checkRule (r.place l) (rule.rename r.name) := by
  rw [checkRule, verdict_bind, verdict_requireText,
    verdict_checkGivenCondition, ← requireText_name]
  rfl

/-! ## Checks of states -/

theorem verdict_checkTask (s : TaskState) :
    r.verdict (checkTask l s) =
      checkState (r.place l) ((State.task s).rename r.name) := by
  have hheartbeat :
      r.verdict (checkHeartbeat l s.timeoutSeconds s.heartbeatSeconds) =
        checkHeartbeat (r.place l) s.timeoutSeconds s.heartbeatSeconds := by
    cases s.timeoutSeconds with
    | none => rfl
    | some timeout =>
        cases s.heartbeatSeconds with
        | none => rfl
        | some heartbeat =>
            rw [checkHeartbeat, verdict_require]
            rfl
  simp only [checkTask, verdict_bind, verdict_requirePositive, hheartbeat,
    verdict_requireText, verdict_checkRetriers, verdict_checkCatchers,
    verdict_checkTransition]
  rfl

theorem verdict_checkWait (s : WaitState) :
    r.verdict (checkWait l s) =
      checkState (r.place l) ((State.wait s).rename r.name) := by
  have hwait : r.verdict (checkWaitFor l s.waitFor) =
      checkWaitFor (r.place l) s.waitFor := by
    rcases s.waitFor with _ | count | path | _ | path
    · rfl
    · exact r.verdict_requirePositive l .seconds (some count)
    · exact r.verdict_requireText l _ _
    · cases ‹Option Int› <;> rfl
    · exact r.verdict_requireText l _ _
  rw [checkWait, verdict_bind, hwait, verdict_checkTransition]
  rfl

theorem verdict_checkChoice (s : ChoiceState) :
    r.verdict (checkChoice l s) =
      checkState (r.place l) ((State.choice s).rename r.name) := by
  have hdefault : r.verdict (checkDefault l s.defaultState) =
      checkDefault (r.place l) (s.defaultState.map r.name) := by
    cases s.defaultState with
    | none => rfl
    | some a =>
        rw [checkDefault, verdict_requireText, ← requireText_name]
        rfl
  have hrule : ∀ i rule, r.verdict (checkRule (l.choice i) rule) =
      checkRule ((r.place l).choice i) (rule.rename r.name) := by
    intro i rule
    rw [verdict_checkRule, place_choice]
  have hempty : (s.rules.map (ChoiceRule.rename r.name)).isEmpty =
      s.rules.isEmpty := List.isEmpty_map
  rw [checkChoice, verdict_bind, verdict_bind, verdict_require, hdefault,
    r.verdict_eachFrom hrule, ← hempty]
  rfl

theorem verdict_checkParallel (s : ParallelState) :
    r.verdict (checkParallel l s) =
      checkState (r.place l) ((State.parallel s).rename r.name) := by
  obtain ⟨_, _, _, _, branches, retriers, catchers, transition⟩ := s
  have hempty : (Branch.renameEach r.name branches).isEmpty =
      branches.isEmpty := by
    rw [Branch.renameEach_eq_map, List.isEmpty_map]
  simp only [checkParallel, verdict_bind, verdict_require,
    verdict_checkRetriers, verdict_checkCatchers, verdict_checkTransition,
    ← hempty]
  rfl

theorem verdict_checkState (s : State) :
    r.verdict (checkState l s) = checkState (r.place l) (s.rename r.name) := by
  cases s with
  | pass s => exact r.verdict_checkTransition l _
  | task s => exact r.verdict_checkTask l s
  | wait s => exact r.verdict_checkWait l s
  | choice s => exact r.verdict_checkChoice l s
  | succeed s => rfl
  | fail s => exact r.verdict_requireText l _ _
  | parallel s => exact r.verdict_checkParallel l s

/-! ## Checks of scopes -/

/-- A name is new among new names if it was new among the old. -/
theorem verdict_checkNames (names seen : List String) :
    r.verdict (checkNames l seen names) =
      checkNames (r.place l) (seen.map r.name) (names.map r.name) := by
  induction names generalizing seen with
  | nil => rfl
  | cons a rest ih =>
      have hseen : decide (r.name a ∉ seen.map r.name) =
          decide (a ∉ seen) := by
        rw [decide_eq_decide, List.mem_map_of_injective r.injective]
      rw [checkNames, verdict_bind, verdict_bind, verdict_require,
        verdict_require, ih, place_state, List.map_cons, List.map_cons,
        checkNames, hseen, isEmpty_name]
      rfl

theorem names_rename (states : States) :
    States.names (states.map (Entry.rename r.name)) =
      (States.names states).map r.name := by
  simp [States.names, Entry.rename]

theorem verdict_checkScope (m : Machine) :
    r.verdict (checkScope l m) =
      checkScope (r.place l) (m.rename r.name) := by
  rw [checkScope, verdict_bind, verdict_bind, verdict_bind,
    verdict_requireText, verdict_requirePositive, verdict_require,
    verdict_checkNames, ← requireText_name, ← names_rename, checkScope,
    Machine.startAt_rename, Machine.timeoutSeconds_rename,
    Machine.states_rename, List.isEmpty_map]
  rfl

theorem verdict_checkStates (states : States) :
    r.verdict (checkStates l states) =
      checkStates (r.place l) (states.map (Entry.rename r.name)) := by
  refine r.verdict_each fun e _ => ?_
  rw [verdict_checkState, place_state]
  rfl

end Values

/-! ## Paths -/

section Paths

/-- The use of a path under the new labels. -/
def pathUse (u : PathUse) : PathUse := { u with location := r.place u.location }

theorem verdict_checkPathUse (u : PathUse) :
    r.verdict u.check = (r.pathUse u).check := by
  rw [PathUse.check, PathUse.check, pathUse]
  cases Path.check u.dialect u.path <;> rfl

theorem ofOption_place (field : Field) (d : Path.Dialect)
    (path : Option String) :
    PathUse.ofOption (r.place l) field d path =
      (PathUse.ofOption l field d path).map r.pathUse := by
  cases path <;> rfl

theorem ofCatchers_place (catchers : List Catcher) (index : Nat) :
    PathUse.ofCatchers (r.place l) index
        (catchers.map (Catcher.rename r.name)) =
      (PathUse.ofCatchers l index catchers).map r.pathUse := by
  induction catchers generalizing index with
  | nil => rfl
  | cons c cs ih =>
      rw [List.map_cons, PathUse.ofCatchers, ih, ← place_catcher,
        ofOption_place, PathUse.ofCatchers, List.map_append]
      rfl

theorem ofRule_place (rule : ChoiceRule) :
    PathUse.ofRule (r.place l) (rule.rename r.name) =
      (PathUse.ofRule l rule).map r.pathUse := by
  simp only [PathUse.ofRule, ofOption_place, List.map_flatMap]
  rfl

theorem ofRules_place (rules : List ChoiceRule) (index : Nat) :
    PathUse.ofRules (r.place l) index (rules.map (ChoiceRule.rename r.name)) =
      (PathUse.ofRules l index rules).map r.pathUse := by
  induction rules generalizing index with
  | nil => rfl
  | cons rule rest ih =>
      rw [List.map_cons, PathUse.ofRules, ih, ← place_choice, ofRule_place,
        PathUse.ofRules, List.map_append]

theorem ofEnds_place (input output : Option String) :
    PathUse.ofEnds (r.place l) input output =
      (PathUse.ofEnds l input output).map r.pathUse := by
  rw [PathUse.ofEnds, ofOption_place, ofOption_place, PathUse.ofEnds,
    List.map_append]

theorem ofResult_place (path : Option String) (catchers : List Catcher) :
    PathUse.ofResult (r.place l) path
        (catchers.map (Catcher.rename r.name)) =
      (PathUse.ofResult l path catchers).map r.pathUse := by
  rw [PathUse.ofResult, ofOption_place, ofCatchers_place, PathUse.ofResult,
    List.map_append]

theorem ofWaitFor_place (waitFor : Option WaitFor) :
    PathUse.ofWaitFor (r.place l) waitFor =
      (PathUse.ofWaitFor l waitFor).map r.pathUse := by
  rcases waitFor with _ | _ | _ | _ | _ <;> rfl

theorem pathUses_place (s : State) :
    (s.rename r.name).pathUses (r.place l) =
      (s.pathUses l).map r.pathUse := by
  cases s with
  | pass s =>
      rw [State.pathUses, List.map_append, ← ofEnds_place, ← ofOption_place]
      rfl
  | task s =>
      rw [State.pathUses, List.map_append, ← ofEnds_place, ← ofResult_place]
      rfl
  | wait s =>
      rw [State.pathUses, List.map_append, ← ofEnds_place, ← ofWaitFor_place]
      rfl
  | choice s =>
      rw [State.pathUses, List.map_append, ← ofEnds_place, ← ofRules_place]
      rfl
  | succeed s => exact r.ofEnds_place l s.inputPath s.outputPath
  | fail s => rfl
  | parallel s =>
      cases s
      rw [State.pathUses, List.map_append, ← ofEnds_place, ← ofResult_place]
      rfl

theorem verdict_checkPaths (states : States) :
    r.verdict (StatePaths.checkStates l states) =
      StatePaths.checkStates (r.place l)
        (states.map (Entry.rename r.name)) := by
  refine r.verdict_each fun e _ => ?_
  rw [StatePaths.checkState_eq_each,
    r.verdict_each fun u _ => r.verdict_checkPathUse u, ← pathUses_place,
    place_state, ← StatePaths.checkState_eq_each]
  rfl

end Paths

/-! ## Targets -/

section Targets

theorem contains_rename (states : States) (a : String) :
    States.contains (states.map (Entry.rename r.name)) (r.name a) =
      states.contains a := by
  rw [Bool.eq_iff_iff, States.contains_eq_true_iff,
    States.contains_eq_true_iff, names_rename,
    List.mem_map_of_injective r.injective]

theorem verdict_checkEntry (declared : States) (e : Entry) :
    r.verdict (Targets.checkEntry l declared e) =
      Targets.checkEntry (r.place l)
        (declared.map (Entry.rename r.name)) (e.rename r.name) := by
  have hfind : (e.rename r.name).state.targets.find? (fun target =>
        !States.contains (declared.map (Entry.rename r.name)) target) =
      (e.state.targets.find? fun target =>
        !declared.contains target).map r.name := by
    change (e.state.rename r.name).targets.find? _ = _
    rw [State.targets_rename, List.find?_map]
    simp only [Function.comp_def, contains_rename]
  rw [Targets.checkEntry, Targets.checkEntry, hfind]
  cases e.state.targets.find? fun target => !declared.contains target with
  | none => rfl
  | some target =>
      change r.verdict (reject _ _) = reject _ _
      rw [verdict_reject, place_state]
      rfl

theorem verdict_checkTargets (m : Machine) :
    r.verdict (Targets.check l m) =
      Targets.check (r.place l) (m.rename r.name) := by
  have hstart : r.verdict (Targets.checkStart l m) =
      Targets.checkStart (r.place l) (m.rename r.name) := by
    rw [Targets.checkStart, Targets.checkStart, Machine.startAt_rename,
      Machine.states_rename]
    cases m.startAt with
    | none => rfl
    | some a =>
        rw [verdict_require, ← contains_rename]
        rfl
  rw [Targets.check, verdict_bind, hstart,
    r.verdict_each fun e _ => r.verdict_checkEntry l m.states e,
    Targets.check, Machine.states_rename]

end Targets

end Relabelling

end Workflow

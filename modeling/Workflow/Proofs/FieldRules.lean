import Mathlib.Algebra.Order.Field.Basic
import Mathlib.Algebra.Order.Field.Rat
import Mathlib.Tactic.MkIffOfInductiveProp
import Workflow.Fields
import Workflow.Proofs.FirstViolation

/-!
# The field rules

What each kind of element must look like, said as properties of the element
and without a word about the order in which anything is checked, a location or
a problem. The second half ties every check of `Fields.lean` to the rule it
stands for: the check accepts if and only if the rule holds, at whatever
location it is run.
-/

namespace Workflow

/-! ## Values -/

/-- A text that is there and not empty. -/
def Given (value : Option String) : Prop := ∃ s, value = some s ∧ s ≠ ""

/-- A number that is positive if it is there. -/
def PositiveIfGiven (value : Option Int) : Prop := ∀ n, value = some n → 0 < n

@[simp] theorem given_some {s : String} : Given (some s) ↔ s ≠ "" := by
  simp [Given]

@[simp] theorem not_given_none : ¬ Given none := by simp [Given]

@[simp] theorem positiveIfGiven_some {n : Int} :
    PositiveIfGiven (some n) ↔ 0 < n := by
  simp [PositiveIfGiven]

@[simp] theorem positiveIfGiven_none : PositiveIfGiven none := by
  simp [PositiveIfGiven]

namespace Double

/-- The number that a finite double stands for. -/
def Finite.value (x : Finite) : ℚ :=
  (if x.negative then -(x.units : ℚ) else x.units) / unitsPerOne

/-- One or more, the positive infinity included. -/
def AtLeastOne : Double → Prop
  | .nan => False
  | .infinity negative => negative = false
  | .finite x => 1 ≤ x.value

end Double

/-! ## Elements -/

/-- The scope ends here, or goes on with a state that is named. -/
def TransitionGiven (t : Option Transition) : Prop :=
  t = some .finish ∨ ∃ name, t = some (.next name) ∧ name ≠ ""

/-- Some code, and the code that matches every error only on its own. -/
@[mk_iff] structure CodesWellFormed (codes : List String) : Prop where
  notEmpty : codes ≠ []
  alone : ErrorCode.all ∈ codes → codes = [ErrorCode.all]

/-- The rules for retriers and for catchers: each is in order by itself, and
only the last may match every error. -/
@[mk_iff] structure PoliciesWellFormed {α : Type} (codes : α → List String)
    (good : α → Prop) (policies : List α) : Prop where
  each : ∀ p ∈ policies, good p ∧ CodesWellFormed (codes p)
  last : ∀ p ∈ policies.dropLast, codes p ≠ [ErrorCode.all]

@[mk_iff] structure Retrier.WellFormed (r : Retrier) : Prop where
  attempts : ∀ n, r.maxAttempts = some n → 0 ≤ n
  interval : PositiveIfGiven r.intervalSeconds
  rate : ∀ x, r.backoffRate = some x → x.AtLeastOne

def RetriersWellFormed : List Retrier → Prop :=
  PoliciesWellFormed Retrier.errorEquals Retrier.WellFormed

def CatchersWellFormed : List Catcher → Prop :=
  PoliciesWellFormed Catcher.errorEquals fun c => Given c.next

/-- A complete condition: every comparison has a path to look at and something
other than null to expect, every conjunction and disjunction has members, and
every negation has a condition. -/
inductive Condition.WellFormed : Condition → Prop where
  | comparison {test : Comparison} {value : Literal} :
      Given test.subject → test.expected = some value →
        value.isNull = false → WellFormed (.comparison test)
  | all {conditions : List Condition} :
      conditions ≠ [] → (∀ c ∈ conditions, WellFormed c) →
        WellFormed (.all conditions)
  | any {conditions : List Condition} :
      conditions ≠ [] → (∀ c ∈ conditions, WellFormed c) →
        WellFormed (.any conditions)
  | negation {c : Condition} : WellFormed c → WellFormed (.negation (some c))

@[mk_iff] structure ChoiceRule.WellFormed (rule : ChoiceRule) : Prop where
  next : Given rule.next
  condition : ∃ c, rule.condition = some c ∧ c.WellFormed

/-! ## States -/

@[mk_iff] structure TaskState.WellFormed (s : TaskState) : Prop where
  timeout : PositiveIfGiven s.timeoutSeconds
  heartbeat : PositiveIfGiven s.heartbeatSeconds
  heartbeatWithin : ∀ timeout heartbeat, s.timeoutSeconds = some timeout →
    s.heartbeatSeconds = some heartbeat → heartbeat ≤ timeout
  resource : Given s.resource
  retriers : RetriersWellFormed s.retriers
  catchers : CatchersWellFormed s.catchers
  transition : TransitionGiven s.transition

inductive WaitFor.WellFormed : WaitFor → Prop where
  | seconds {count : Int} : 0 < count → WellFormed (.seconds count)
  | secondsPath {path : String} : path ≠ "" → WellFormed (.secondsPath path)
  | timestamp {instant : Int} : WellFormed (.timestamp (some instant))
  | timestampPath {path : String} :
      path ≠ "" → WellFormed (.timestampPath path)

@[mk_iff] structure WaitState.WellFormed (s : WaitState) : Prop where
  waitFor : ∃ w, s.waitFor = some w ∧ w.WellFormed
  transition : TransitionGiven s.transition

@[mk_iff] structure ChoiceState.WellFormed (s : ChoiceState) : Prop where
  someRule : s.rules ≠ []
  default : ∀ name, s.defaultState = some name → name ≠ ""
  rules : ∀ rule ∈ s.rules, rule.WellFormed

@[mk_iff] structure ParallelState.WellFormed (s : ParallelState) : Prop where
  someBranch : s.branches ≠ []
  retriers : RetriersWellFormed s.retriers
  catchers : CatchersWellFormed s.catchers
  transition : TransitionGiven s.transition

/-- The fields of a state are in order, what lies inside its branches left
aside. -/
def State.FieldsWellFormed : State → Prop
  | .pass s => TransitionGiven s.transition
  | .task s => s.WellFormed
  | .wait s => s.WellFormed
  | .choice s => s.WellFormed
  | .succeed _ => True
  | .fail s => Given s.cause
  | .parallel s => s.WellFormed

/-- The fields of a scope itself: where to start, how long it may take, and
some states under distinct names. -/
@[mk_iff] structure Machine.FieldsWellFormed (m : Machine) : Prop where
  start : Given m.startAt
  timeout : PositiveIfGiven m.timeoutSeconds
  someState : m.states ≠ []
  named : ∀ name ∈ States.names m.states, name ≠ ""
  distinct : (States.names m.states).Nodup

/-! ## Checks of values -/

namespace Double

theorem unitsPerOne_pos : (0 : ℚ) < unitsPerOne := by
  unfold unitsPerOne
  -- The exponent stays closed to the arithmetic of literals.
  generalize 1074 = n
  exact Nat.cast_pos.mpr (Nat.pow_pos (by decide))

theorem atLeastOne_iff {x : Double} :
    x.atLeastOne = true ↔ x.AtLeastOne := by
  cases x with
  | nan => simp [atLeastOne, AtLeastOne]
  | infinity negative => simp [atLeastOne, AtLeastOne]
  | finite x =>
      rw [atLeastOne, AtLeastOne, Finite.value, le_div_iff₀ unitsPerOne_pos,
        one_mul]
      cases x.negative with
      | false =>
          simp only [Bool.not_false, Bool.true_and, decide_eq_true_iff,
            Bool.false_eq_true, if_false, Nat.cast_le]
      | true =>
          have hpos := unitsPerOne_pos
          have hunits : (0 : ℚ) ≤ x.units := Nat.cast_nonneg _
          simp only [Bool.not_true, Bool.false_and, Bool.false_eq_true,
            if_true, false_iff, not_le]
          exact lt_of_le_of_lt (neg_nonpos.mpr hunits) hpos

end Double

namespace Fields

open Verdict

variable {location : Location} {field : Field} {v : Violation}

theorem requireText_eq_ok_iff {value : Option String} :
    requireText location field value = .ok () ↔ Given value := by
  rw [requireText, require_eq_ok_iff]
  cases value with
  | none => simp
  | some s => simp

theorem requireText_eq_error_iff {value : Option String} :
    requireText location field value = .error v ↔
      ¬ Given value ∧ v = ⟨location, .missing field⟩ := by
  have hgiven : requireText location field value = .ok () ↔ Given value :=
    requireText_eq_ok_iff
  rw [requireText, require_eq_ok_iff] at hgiven
  rw [requireText, require_eq_error_iff, ← hgiven, Bool.not_eq_true]

theorem requirePositive_eq_ok_iff {value : Option Int} :
    requirePositive location field value = .ok () ↔
      PositiveIfGiven value := by
  cases value with
  | none => simp [requirePositive, accept]
  | some n => simp [requirePositive, require_eq_ok_iff]

theorem of_requirePositive_error {value : Option Int}
    (h : requirePositive location field value = .error v) :
    ∃ n, value = some n ∧ n ≤ 0 ∧
      v = ⟨location, .outOfRange (.notPositive field n)⟩ := by
  cases value with
  | none => exact absurd h accept_ne_error
  | some n =>
      obtain ⟨hn, hv⟩ := eq_of_require_error h
      exact ⟨n, rfl, by simpa using hn, hv⟩

theorem checkTransition_eq_ok_iff {t : Option Transition} :
    checkTransition location t = .ok () ↔ TransitionGiven t := by
  rcases t with _ | name | _
  · simp [checkTransition, reject, TransitionGiven]
  · simp [checkTransition, requireText_eq_ok_iff, TransitionGiven]
  · simp [checkTransition, accept, TransitionGiven]

theorem checkCodes_eq_ok_iff {codes : List String} :
    checkCodes location codes = .ok () ↔ CodesWellFormed codes := by
  rw [checkCodes, bind_eq_ok_iff, require_eq_ok_iff, require_eq_ok_iff,
    codesWellFormed_iff]
  rcases codes with _ | ⟨code, _ | ⟨code', rest⟩⟩
  · simp
  · simp only [List.isEmpty_cons, List.length_singleton]
    simp
    exact fun h => h.symm
  · have hany : (code :: code' :: rest).any ErrorCode.isMatchAll =
        decide (ErrorCode.all ∈ code :: code' :: rest) := by
      rw [Bool.eq_iff_iff, List.any_eq_true, decide_eq_true_iff]
      simp only [ErrorCode.isMatchAll, beq_iff_eq, exists_eq_right]
    rw [hany]
    simp

theorem policiesWellFormed_cons {α : Type} {codes : α → List String}
    {good : α → Prop} {p : α} {rest : List α} :
    PoliciesWellFormed codes good (p :: rest) ↔
      good p ∧ CodesWellFormed (codes p) ∧
        (codes p = [ErrorCode.all] → rest = []) ∧
        PoliciesWellFormed codes good rest := by
  rw [policiesWellFormed_iff, policiesWellFormed_iff, List.forall_mem_cons]
  cases rest with
  | nil => simp
  | cons q rest =>
      rw [List.dropLast_cons_cons, List.forall_mem_cons (p := (codes · ≠ _))]
      simp only [reduceCtorEq, imp_false, ne_eq]
      tauto

/-- A list of retriers or catchers passes if and only if it keeps the rules
and, where the element before it matches every error, is empty. -/
theorem checkPolicies_eq_ok_iff {α : Type} {place : Nat → Location}
    {notLast : CodesFault} {codes : α → List String}
    {check : Location → α → Verdict} {good : α → Prop}
    (hcheck : ∀ l p, check l p = .ok () ↔ good p) {policies : List α} :
    ∀ {index : Nat} {afterAll : Bool},
      checkPolicies place notLast codes check index afterAll policies =
          .ok () ↔
        (afterAll = true → policies = []) ∧
          PoliciesWellFormed codes good policies := by
  induction policies with
  | nil => simp [checkPolicies, accept, policiesWellFormed_iff]
  | cons p rest ih =>
      intro index afterAll
      rw [checkPolicies, bind_eq_ok_iff, bind_eq_ok_iff, bind_eq_ok_iff,
        require_eq_ok_iff, hcheck, checkCodes_eq_ok_iff, ih, isMatchAllList,
        beq_iff_eq, policiesWellFormed_cons]
      cases afterAll <;> simp

theorem checkRetrier_eq_ok_iff (location : Location) (r : Retrier) :
    checkRetrier location r = .ok () ↔ r.WellFormed := by
  rw [checkRetrier, bind_eq_ok_iff, bind_eq_ok_iff,
    requirePositive_eq_ok_iff, Retrier.wellFormed_iff]
  refine and_congr ?_ (and_congr_right fun _ => ?_)
  · cases r.maxAttempts with
    | none => simp [checkAttempts, accept]
    | some n => simp [checkAttempts, require_eq_ok_iff]
  · cases r.backoffRate with
    | none => simp [checkRate, accept]
    | some x =>
        simp [checkRate, require_eq_ok_iff, Double.atLeastOne_iff]

theorem checkRetriers_eq_ok_iff {retriers : List Retrier} :
    checkRetriers location retriers = .ok () ↔
      RetriersWellFormed retriers := by
  rw [checkRetriers, checkPolicies_eq_ok_iff checkRetrier_eq_ok_iff]
  simp [RetriersWellFormed]

theorem checkCatchers_eq_ok_iff {catchers : List Catcher} :
    checkCatchers location catchers = .ok () ↔
      CatchersWellFormed catchers := by
  have hcheck : ∀ l c, checkCatcher l c = .ok () ↔ Given c.next :=
    fun _ _ => requireText_eq_ok_iff
  rw [checkCatchers, checkPolicies_eq_ok_iff hcheck]
  simp [CatchersWellFormed]

theorem checkComparison_eq_ok_iff {test : Comparison} :
    checkComparison location test = .ok () ↔
      Condition.WellFormed (.comparison test) := by
  rw [checkComparison, bind_eq_ok_iff, requireText_eq_ok_iff,
    require_eq_ok_iff]
  constructor
  · intro h
    obtain ⟨hsubject, hexpected⟩ := h
    obtain ⟨value, hvalue, hnull⟩ := (Option.any_eq_true _ _).mp hexpected
    exact .comparison hsubject hvalue (by simpa using hnull)
  · intro h
    cases h with
    | comparison hsubject hvalue hnull => simp [hsubject, hvalue, hnull]

mutual

theorem checkCondition_eq_ok_iff : (c : Condition) →
    (checkCondition location c = .ok () ↔ c.WellFormed)
  | .comparison test => checkComparison_eq_ok_iff
  | .all conditions => by
      rw [checkCondition, bind_eq_ok_iff, require_eq_ok_iff,
        checkConditions_eq_ok_iff conditions]
      constructor
      · intro h
        obtain ⟨hne, h⟩ := h
        exact .all (by simpa using hne) h
      · intro h
        cases h with
        | all hne h => exact ⟨by simpa using hne, h⟩
  | .any conditions => by
      rw [checkCondition, bind_eq_ok_iff, require_eq_ok_iff,
        checkConditions_eq_ok_iff conditions]
      constructor
      · intro h
        obtain ⟨hne, h⟩ := h
        exact .any (by simpa using hne) h
      · intro h
        cases h with
        | any hne h => exact ⟨by simpa using hne, h⟩
  | .negation condition => by
      rw [checkCondition, checkGivenCondition_eq_ok_iff condition]
      constructor
      · intro h
        obtain ⟨c, hc, h⟩ := h
        rw [hc]
        exact .negation h
      · intro h
        cases h with
        | negation h => exact ⟨_, rfl, h⟩

theorem checkConditions_eq_ok_iff : (cs : List Condition) →
    (checkConditions location cs = .ok () ↔ ∀ c ∈ cs, c.WellFormed)
  | [] => by simp [checkConditions, accept]
  | c :: cs => by
      rw [checkConditions, bind_eq_ok_iff, checkCondition_eq_ok_iff c,
        checkConditions_eq_ok_iff cs, List.forall_mem_cons]

theorem checkGivenCondition_eq_ok_iff : (condition : Option Condition) →
    (checkGivenCondition location condition = .ok () ↔
      ∃ c, condition = some c ∧ c.WellFormed)
  | none => by simp [checkGivenCondition, reject]
  | some c => by
      rw [checkGivenCondition, checkCondition_eq_ok_iff c]
      simp

end

/-! ## Checks of states -/

theorem checkRule_eq_ok_iff {rule : ChoiceRule} :
    checkRule location rule = .ok () ↔ rule.WellFormed := by
  rw [checkRule, bind_eq_ok_iff, requireText_eq_ok_iff,
    checkGivenCondition_eq_ok_iff, ChoiceRule.wellFormed_iff]

theorem checkRules_eq_ok_iff {rules : List ChoiceRule} :
    eachFrom (fun i rule => checkRule (location.choice i) rule) 0 rules =
      .ok () ↔ ∀ rule ∈ rules, rule.WellFormed := by
  simp only [eachFrom_eq_ok_iff, checkRule_eq_ok_iff]
  exact List.forall_mem_iff_forall_getElem.symm

theorem checkHeartbeat_eq_ok_iff {timeout heartbeat : Option Int} :
    checkHeartbeat location timeout heartbeat = .ok () ↔
      ∀ t h, timeout = some t → heartbeat = some h → h ≤ t := by
  rcases timeout with _ | t <;> rcases heartbeat with _ | h <;>
    simp [checkHeartbeat, accept, require_eq_ok_iff]

theorem checkTask_eq_ok_iff {s : TaskState} :
    checkTask location s = .ok () ↔ s.WellFormed := by
  simp only [checkTask, bind_eq_ok_iff, requirePositive_eq_ok_iff,
    checkHeartbeat_eq_ok_iff, requireText_eq_ok_iff, checkRetriers_eq_ok_iff,
    checkCatchers_eq_ok_iff, checkTransition_eq_ok_iff,
    TaskState.wellFormed_iff]

theorem checkWaitFor_eq_ok_iff {waitFor : Option WaitFor} :
    checkWaitFor location waitFor = .ok () ↔
      ∃ w, waitFor = some w ∧ w.WellFormed := by
  cases waitFor with
  | none => simp [checkWaitFor, reject]
  | some w =>
      simp only [Option.some.injEq, exists_eq_left']
      cases w with
      | seconds count =>
          rw [checkWaitFor, requirePositive_eq_ok_iff, positiveIfGiven_some]
          constructor
          · intro h
            exact .seconds h
          · intro h
            cases h with
            | seconds h => exact h
      | secondsPath path =>
          rw [checkWaitFor, requireText_eq_ok_iff, given_some]
          constructor
          · intro h
            exact .secondsPath h
          · intro h
            cases h with
            | secondsPath h => exact h
      | timestamp instant =>
          cases instant with
          | none =>
              refine iff_of_false (by simp [checkWaitFor, reject]) ?_
              intro h
              cases h
          | some instant => exact iff_of_true rfl .timestamp
      | timestampPath path =>
          rw [checkWaitFor, requireText_eq_ok_iff, given_some]
          constructor
          · intro h
            exact .timestampPath h
          · intro h
            cases h with
            | timestampPath h => exact h

theorem checkWait_eq_ok_iff {s : WaitState} :
    checkWait location s = .ok () ↔ s.WellFormed := by
  rw [checkWait, bind_eq_ok_iff, checkWaitFor_eq_ok_iff,
    checkTransition_eq_ok_iff, WaitState.wellFormed_iff]

theorem checkDefault_eq_ok_iff {name : Option String} :
    checkDefault location name = .ok () ↔ name ≠ some "" := by
  cases name with
  | none => simp [checkDefault, accept]
  | some name => simp [checkDefault, requireText_eq_ok_iff]

theorem checkChoice_eq_ok_iff {s : ChoiceState} :
    checkChoice location s = .ok () ↔ s.WellFormed := by
  have hdefault : s.defaultState ≠ some "" ↔
      ∀ name, s.defaultState = some name → name ≠ "" := by
    cases s.defaultState <;> simp
  rw [checkChoice, bind_eq_ok_iff, bind_eq_ok_iff, require_eq_ok_iff,
    checkDefault_eq_ok_iff, checkRules_eq_ok_iff, hdefault,
    ChoiceState.wellFormed_iff]
  simp

theorem checkParallel_eq_ok_iff {s : ParallelState} :
    checkParallel location s = .ok () ↔ s.WellFormed := by
  simp [checkParallel, bind_eq_ok_iff, require_eq_ok_iff,
    checkRetriers_eq_ok_iff, checkCatchers_eq_ok_iff,
    checkTransition_eq_ok_iff, ParallelState.wellFormed_iff]

theorem checkState_eq_ok_iff {s : State} :
    checkState location s = .ok () ↔ s.FieldsWellFormed := by
  cases s with
  | pass s => exact checkTransition_eq_ok_iff
  | task s => exact checkTask_eq_ok_iff
  | wait s => exact checkWait_eq_ok_iff
  | choice s => exact checkChoice_eq_ok_iff
  | succeed s => exact iff_of_true rfl trivial
  | fail s => exact requireText_eq_ok_iff
  | parallel s => exact checkParallel_eq_ok_iff

theorem checkStates_eq_ok_iff {states : States} :
    checkStates location states = .ok () ↔
      ∀ e ∈ states, e.state.FieldsWellFormed := by
  simp only [checkStates, each_eq_ok_iff, checkState_eq_ok_iff]

/-! ## Checks of a scope -/

/-- Names pass one by one: none is empty, and none has been seen, be it among
the names seen before the list or within the list itself. -/
theorem checkNames_eq_ok_iff {names : List String} :
    ∀ {seen : List String}, checkNames location seen names = .ok () ↔
      (∀ name ∈ names, name ≠ "") ∧ names.Nodup ∧
        ∀ name ∈ names, name ∉ seen := by
  induction names with
  | nil => simp [checkNames, accept]
  | cons name rest ih =>
      intro seen
      rw [checkNames, bind_eq_ok_iff, bind_eq_ok_iff, require_eq_ok_iff,
        require_eq_ok_iff, ih, List.nodup_cons, List.forall_mem_cons,
        List.forall_mem_cons]
      simp only [Bool.not_eq_true', String.isEmpty_eq_false_iff,
        decide_eq_true_iff, List.mem_cons, not_or]
      constructor
      · intro h
        obtain ⟨hname, hseen, hnames, hnodup, hrest⟩ := h
        exact ⟨⟨hname, hnames⟩, ⟨fun h => (hrest name h).1 rfl, hnodup⟩,
          hseen, fun n hn => (hrest n hn).2⟩
      · intro h
        obtain ⟨⟨hname, hnames⟩, ⟨hnotin, hnodup⟩, hseen, hrest⟩ := h
        refine ⟨hname, hseen, hnames, hnodup, fun n hn => ⟨?_, hrest n hn⟩⟩
        intro heq
        exact hnotin (heq ▸ hn)

theorem checkScope_eq_ok_iff {m : Machine} :
    checkScope location m = .ok () ↔ m.FieldsWellFormed := by
  simp [checkScope, bind_eq_ok_iff, requireText_eq_ok_iff,
    requirePositive_eq_ok_iff, require_eq_ok_iff, checkNames_eq_ok_iff,
    Machine.fieldsWellFormed_iff]

end Fields

end Workflow

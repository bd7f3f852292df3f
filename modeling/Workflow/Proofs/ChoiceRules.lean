import Workflow.Proofs.Elements

/-!
# The rules of a Choice state

A condition is checked by going down its tree, which is to check the list of
its parts from front to back, one part at a time
(`Fields.checkCondition_eq_each`). That is all that the order of the descent
amounts to: a rule is reported for the first of its parts that is incomplete in
itself, and a part that could be reported for two fields is reported for the
path under test.

With it the verdict on a Choice state is settled in full
(`Fields.first_bad_rule`): which of its rules is reported, if any is, and for
which field.
-/

namespace Workflow

namespace Condition

/-! ## What a part lacks -/

variable {field : Field}

@[simp] theorem incomplete_comparison_iff {test : Comparison} :
    Incomplete (.comparison test) field ↔
      field = .subject ∧ ¬ Given test.subject ∨
        field = .expectedValue ∧
          ∀ value, test.expected = some value → value.isNull = true := by
  constructor
  · intro h
    cases h with
    | subject h => exact .inl ⟨rfl, h⟩
    | expectedValue h => exact .inr ⟨rfl, h⟩
  · intro h
    rcases h with ⟨rfl, h⟩ | ⟨rfl, h⟩
    · exact .subject h
    · exact .expectedValue h

@[simp] theorem incomplete_all_iff {cs : List Condition} :
    Incomplete (.all cs) field ↔ cs = [] ∧ field = .conditions := by
  constructor
  · intro h
    cases h
    exact ⟨rfl, rfl⟩
  · intro h
    obtain ⟨rfl, rfl⟩ := h
    exact .allConditions

@[simp] theorem incomplete_any_iff {cs : List Condition} :
    Incomplete (.any cs) field ↔ cs = [] ∧ field = .conditions := by
  constructor
  · intro h
    cases h
    exact ⟨rfl, rfl⟩
  · intro h
    obtain ⟨rfl, rfl⟩ := h
    exact .anyConditions

@[simp] theorem incomplete_negation_iff {condition : Option Condition} :
    Incomplete (.negation condition) field ↔
      condition = none ∧ field = .condition := by
  constructor
  · intro h
    cases h
    exact ⟨rfl, rfl⟩
  · intro h
    obtain ⟨rfl, rfl⟩ := h
    exact .condition

/-- Nothing is missing from the part itself. -/
def Complete (part : Condition) : Prop := ∀ field, ¬ part.Incomplete field

/-- What is reported of an incomplete part. Only a comparison can lack two
fields, and its path comes before the value to expect. -/
def OwnLack (part : Condition) (field : Field) : Prop :=
  part.Incomplete field ∧
    (field = .expectedValue → ¬ part.Incomplete .subject)

theorem complete_iff {part : Condition} :
    part.Complete ↔ ∀ field, ¬ part.OwnLack field := by
  constructor
  · intro h field hlack
    exact h field hlack.1
  · intro h field hincomplete
    by_cases hsubject : part.Incomplete .subject
    · exact h .subject ⟨hsubject, by simp⟩
    · exact h field ⟨hincomplete, fun _ => hsubject⟩

/-- The field that a condition is reported for: the one that its first
incomplete part lacks. -/
def FirstLack (c : Condition) (field : Field) : Prop :=
  ∃ before part after, c.parts = before ++ part :: after ∧
    (∀ earlier ∈ before, earlier.Complete) ∧ part.OwnLack field

theorem FirstLack.exists_partOf {c : Condition} (h : c.FirstLack field) :
    ∃ part, PartOf part c ∧ part.Incomplete field := by
  obtain ⟨before, part, after, hparts, -, hlack⟩ := h
  have hmem : part ∈ c.parts := by simp [hparts]
  exact ⟨part, (mem_parts_iff c).mp hmem, hlack.1⟩

end Condition

/-! ## What a rule and a Choice state are reported for -/

/-- The field that a rule is reported for: where to go, then that there is a
condition, then what the condition lacks. -/
inductive ChoiceRule.FirstLack (rule : ChoiceRule) : Field → Prop where
  | next : ¬ Given rule.next → rule.FirstLack .next
  | noCondition :
      Given rule.next → rule.condition = none → rule.FirstLack .condition
  | part {c : Condition} {field : Field} :
      Given rule.next → rule.condition = some c → c.FirstLack field →
        rule.FirstLack field

/-- The violation that a Choice state at the location is reported for. -/
inductive ChoiceState.Reports (s : ChoiceState) (location : Location) :
    Violation → Prop where
  | noRules : s.rules = [] → s.Reports location ⟨location, .noRules⟩
  | default :
      s.rules ≠ [] → s.defaultState = some "" →
        s.Reports location ⟨location, .missing .default⟩
  /-- The first rule that is not well formed, at its index. -/
  | rule {before after : List ChoiceRule} {rule : ChoiceRule}
      {field : Field} :
      s.defaultState ≠ some "" → s.rules = before ++ rule :: after →
        (∀ earlier ∈ before, earlier.WellFormed) → rule.FirstLack field →
          s.Reports location
            ⟨location.choice before.length, .missing field⟩

/-! ## The check of a condition goes through its parts -/

namespace Fields

open Verdict

variable {location : Location} {field : Field} {v : Violation}

/-- The check of a part by itself, those that it is made of left aside. -/
def checkPart (location : Location) : Condition → Verdict
  | .comparison test => checkComparison location test
  | .all conditions | .any conditions =>
    Verdict.require (!conditions.isEmpty) location (.missing .conditions)
  | .negation none => .reject location (.missing .condition)
  | .negation (some _) => .accept

mutual

theorem checkCondition_eq_each : (c : Condition) →
    checkCondition location c = each (checkPart location) c.parts
  | .comparison test => by
      rw [checkCondition, Condition.parts, each, each, bind_accept, checkPart]
  | .all cs => by
      rw [checkCondition, Condition.parts, each, checkPart,
        checkConditions_eq_each_parts cs]
  | .any cs => by
      rw [checkCondition, Condition.parts, each, checkPart,
        checkConditions_eq_each_parts cs]
  | .negation none => by
      rw [checkCondition, checkGivenCondition, Condition.parts,
        Condition.partsOption, each, each, bind_accept, checkPart]
  | .negation (some c) => by
      rw [checkCondition, checkGivenCondition, Condition.parts,
        Condition.partsOption, each, checkCondition_eq_each c]
      rfl

theorem checkConditions_eq_each_parts : (cs : List Condition) →
    checkConditions location cs =
      each (checkPart location) (Condition.partsEach cs)
  | [] => by rw [checkConditions, Condition.partsEach, each]
  | c :: cs => by
      rw [checkConditions, Condition.partsEach, each_append,
        checkCondition_eq_each c, checkConditions_eq_each_parts cs]

end

theorem checkComparison_eq_error_iff {test : Comparison} :
    checkComparison location test = .error v ↔
      ∃ field, (Condition.comparison test).OwnLack field ∧
        v = ⟨location, .missing field⟩ := by
  have hexpected :
      (test.expected.any fun value => !value.isNull) = false ↔
        ∀ value, test.expected = some value → value.isNull = true := by
    cases test.expected <;> simp
  rw [checkComparison, bind_eq_error_iff, requireText_eq_error_iff,
    requireText_eq_ok_iff, require_eq_error_iff, hexpected]
  constructor
  · intro h
    rcases h with ⟨hsubject, hv⟩ | ⟨hsubject, hvalue, hv⟩
    · exact ⟨.subject, ⟨.subject hsubject, by simp⟩, hv⟩
    · exact ⟨.expectedValue, ⟨.expectedValue hvalue, by simp [hsubject]⟩, hv⟩
  · intro h
    obtain ⟨field, ⟨hlack, hfirst⟩, hv⟩ := h
    cases hlack with
    | subject hsubject => exact .inl ⟨hsubject, hv⟩
    | expectedValue hvalue =>
        have hsubject : Given test.subject := by simpa using hfirst rfl
        exact .inr ⟨hsubject, hvalue, hv⟩

theorem checkPart_eq_error_iff {part : Condition} :
    checkPart location part = .error v ↔
      ∃ field, part.OwnLack field ∧ v = ⟨location, .missing field⟩ := by
  cases part with
  | comparison test => exact checkComparison_eq_error_iff
  | all cs => simp [checkPart, require_eq_error_iff, Condition.OwnLack]
  | any cs => simp [checkPart, require_eq_error_iff, Condition.OwnLack]
  | negation condition =>
      cases condition with
      | none =>
          simp [checkPart, reject, Condition.OwnLack, eq_comm (a := v)]
      | some c => simp [checkPart, accept, Condition.OwnLack]

theorem checkPart_eq_ok_iff {part : Condition} :
    checkPart location part = .ok () ↔ part.Complete := by
  rw [eq_ok_iff_forall_ne_error, Condition.complete_iff]
  constructor
  · intro h field hlack
    exact h _ (checkPart_eq_error_iff.mpr ⟨field, hlack, rfl⟩)
  · intro h v hv
    obtain ⟨field, hlack, -⟩ := checkPart_eq_error_iff.mp hv
    exact h field hlack

theorem checkCondition_eq_error_iff {c : Condition} :
    checkCondition location c = .error v ↔
      ∃ field, c.FirstLack field ∧ v = ⟨location, .missing field⟩ := by
  rw [checkCondition_eq_each, each_eq_error_iff]
  simp only [checkPart_eq_ok_iff, checkPart_eq_error_iff, Condition.FirstLack]
  constructor
  · intro h
    obtain ⟨before, part, after, hparts, hbefore, field, hlack, hv⟩ := h
    exact ⟨field, ⟨before, part, after, hparts, hbefore, hlack⟩, hv⟩
  · intro h
    obtain ⟨field, ⟨before, part, after, hparts, hbefore, hlack⟩, hv⟩ := h
    exact ⟨before, part, after, hparts, hbefore, field, hlack, hv⟩

/-! ## The check of the rules of a Choice state -/

theorem checkRule_eq_error_iff {rule : ChoiceRule} :
    checkRule location rule = .error v ↔
      ∃ field, rule.FirstLack field ∧ v = ⟨location, .missing field⟩ := by
  rw [checkRule, bind_eq_error_iff, requireText_eq_error_iff,
    requireText_eq_ok_iff]
  constructor
  · intro h
    rcases h with ⟨hnext, hv⟩ | ⟨hnext, h⟩
    · exact ⟨.next, .next hnext, hv⟩
    · cases hcondition : rule.condition with
      | none =>
          rw [hcondition] at h
          exact ⟨.condition, .noCondition hnext hcondition,
            eq_of_reject_error h⟩
      | some c =>
          rw [hcondition] at h
          obtain ⟨field, hlack, hv⟩ := checkCondition_eq_error_iff.mp h
          exact ⟨field, .part hnext hcondition hlack, hv⟩
  · intro h
    obtain ⟨field, hlack, rfl⟩ := h
    cases hlack with
    | next hnext => exact .inl ⟨hnext, rfl⟩
    | noCondition hnext hcondition =>
        rw [hcondition]
        exact .inr ⟨hnext, rfl⟩
    | part hnext hcondition hlack =>
        rw [hcondition]
        exact .inr ⟨hnext, checkCondition_eq_error_iff.mpr ⟨field, hlack, rfl⟩⟩

/-- Of the rules of a state the first that is not well formed is reported, at
its index. -/
theorem checkRules_eq_error_iff {rules : List ChoiceRule} :
    eachFrom (fun i rule => checkRule (location.choice i) rule) 0 rules =
        .error v ↔
      ∃ before rule after field, rules = before ++ rule :: after ∧
        (∀ earlier ∈ before, earlier.WellFormed) ∧ rule.FirstLack field ∧
        v = ⟨location.choice before.length, .missing field⟩ := by
  simp only [eachFrom_eq_error_iff, checkRules_eq_ok_iff, Nat.zero_add,
    checkRule_eq_error_iff, exists_and_left]

theorem checkDefault_eq_error_iff {name : Option String} :
    checkDefault location name = .error v ↔
      name = some "" ∧ v = ⟨location, .missing .default⟩ := by
  cases name with
  | none => simp [checkDefault, accept]
  | some name => simp [checkDefault, requireText_eq_error_iff]

/-- A Choice state is accepted if and only if it has rules, names its default
if it has one, and every rule is well formed down to the leaves of its
condition. Otherwise it is reported for the first of these that fails, and
among the rules for the first bad one and the first thing that it lacks. -/
theorem first_bad_rule (location : Location) (s : ChoiceState) :
    (checkChoice location s = .ok () ↔ s.WellFormed) ∧
      ∀ v, checkChoice location s = .error v ↔ s.Reports location v := by
  refine ⟨checkChoice_eq_ok_iff, fun v => ?_⟩
  rw [checkChoice, bind_eq_error_iff, bind_eq_error_iff, require_eq_error_iff,
    require_eq_ok_iff, checkDefault_eq_error_iff, checkDefault_eq_ok_iff,
    checkRules_eq_error_iff]
  simp only [Bool.not_eq_true', Bool.not_eq_false', List.isEmpty_iff,
    List.isEmpty_eq_false_iff]
  constructor
  · intro h
    rcases h with ⟨hrules, rfl⟩ | ⟨hrules, ⟨hdefault, rfl⟩ | ⟨hdefault, h⟩⟩
    · exact .noRules hrules
    · exact .default hrules hdefault
    · obtain ⟨before, rule, after, field, hrules, hbefore, hlack, rfl⟩ := h
      exact .rule hdefault hrules hbefore hlack
  · intro h
    cases h with
    | noRules hrules => exact .inl ⟨hrules, rfl⟩
    | default hrules hdefault => exact .inr ⟨hrules, .inl ⟨hdefault, rfl⟩⟩
    | rule hdefault hrules hbefore hlack =>
        exact .inr ⟨by simp [hrules],
          .inr ⟨hdefault, _, _, _, _, hrules, hbefore, hlack, rfl⟩⟩

end Fields

end Workflow

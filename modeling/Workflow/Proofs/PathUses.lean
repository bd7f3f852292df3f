import Workflow.Proofs.ConditionParts
import Workflow.Proofs.FirstViolation
import Workflow.StatePaths

/-!
# The paths of a state as one list

The check of a state's paths goes through the fields of the state, through its
catchers and, for a Choice state, down every condition. Here all these paths
stand in one list, each with the place, field and dialect it is checked under
(`State.pathUses`), and the check of the state turns out to be the check of
that list from front to back (`StatePaths.checkState_eq_each`).

So no path escapes: a state is accepted if and only if every path of its list
is written in its dialect, and else the first that is not is the one reported
(`StatePaths.first_bad_path`).
-/

namespace Workflow

/-! ## The list -/

/-- A path in a definition. -/
structure PathUse where
  location : Location
  field : Field
  dialect : Path.Dialect
  path : String

namespace PathUse

/-- Checks the syntax of a path in the place where it stands. -/
def check (u : PathUse) : Verdict :=
  match Path.check u.dialect u.path with
  | .ok () => .accept
  | .error fault =>
      .reject u.location (.badPath u.field u.path u.dialect fault)

/-- The uses of a path that may be absent. -/
def ofOption (location : Location) (field : Field) (dialect : Path.Dialect) :
    Option String → List PathUse
  | some path => [⟨location, field, dialect, path⟩]
  | none => []

/-- The result paths of catchers, each at its catcher. -/
def ofCatchers (location : Location) (index : Nat) :
    List Catcher → List PathUse
  | [] => []
  | c :: cs =>
    ofOption (location.catcher index) .resultPath .reference c.resultPath ++
      ofCatchers location (index + 1) cs

/-- The paths under test in the condition of a rule. -/
def ofRule (location : Location) (rule : ChoiceRule) : List PathUse :=
  (Condition.comparisonsOption rule.condition).flatMap fun test =>
    ofOption location .subject .reference test.subject

/-- The paths under test in rules, each at its rule. -/
def ofRules (location : Location) (index : Nat) :
    List ChoiceRule → List PathUse
  | [] => []
  | rule :: rules =>
    ofRule (location.choice index) rule ++ ofRules location (index + 1) rules

/-- The path that a Wait state reads its time from. -/
def ofWaitFor (location : Location) : Option WaitFor → List PathUse
  | some (.secondsPath path) => [⟨location, .secondsPath, .reference, path⟩]
  | some (.timestampPath path) =>
      [⟨location, .timestampPath, .reference, path⟩]
  | some (.seconds _) | some (.timestamp _) | none => []

/-- The paths by which a state reads its input and gives its output. -/
def ofEnds (location : Location) (input output : Option String) :
    List PathUse :=
  ofOption location .inputPath .general input ++
    ofOption location .outputPath .general output

/-- The path of a result, and those of catchers. -/
def ofResult (location : Location) (path : Option String)
    (catchers : List Catcher) : List PathUse :=
  ofOption location .resultPath .reference path ++
    ofCatchers location 0 catchers

end PathUse

/-- The paths of a state, kind by kind, in the order in which they are checked:
those of its input and output first, then what the kind has besides. -/
def State.pathUses (location : Location) : State → List PathUse
  | .pass s =>
    PathUse.ofEnds location s.inputPath s.outputPath ++
      PathUse.ofOption location .resultPath .reference s.resultPath
  | .task s =>
    PathUse.ofEnds location s.inputPath s.outputPath ++
      PathUse.ofResult location s.resultPath s.catchers
  | .wait s =>
    PathUse.ofEnds location s.inputPath s.outputPath ++
      PathUse.ofWaitFor location s.waitFor
  | .choice s =>
    PathUse.ofEnds location s.inputPath s.outputPath ++
      PathUse.ofRules location 0 s.rules
  | .succeed s => PathUse.ofEnds location s.inputPath s.outputPath
  | .fail _ => []
  | .parallel s =>
    PathUse.ofEnds location s.inputPath s.outputPath ++
      PathUse.ofResult location s.resultPath s.catchers

example (location : Location) (s : FailState) :
    (State.fail s).pathUses location = [] := rfl

/-! ## The check of a state goes through the list -/

namespace Verdict

/-- Lists that are checked member by member, each member by a list of its own,
are checked as one list. -/
theorem eachFrom_eq_each {α β : Type} {check : β → Verdict}
    {checkOne : Nat → α → Verdict} {one : Nat → α → List β}
    {whole : Nat → List α → List β}
    (hone : ∀ i a, checkOne i a = each check (one i a))
    (hnil : ∀ i, whole i [] = [])
    (hcons : ∀ i a as, whole i (a :: as) = one i a ++ whole (i + 1) as)
    (start : Nat) (as : List α) :
    eachFrom checkOne start as = each check (whole start as) := by
  induction as generalizing start with
  | nil => rw [eachFrom, hnil, each]
  | cons a as ih => rw [eachFrom, hcons, each_append, hone, ih]

end Verdict

namespace StatePaths

open Verdict

variable {location : Location}

theorem checkPath_eq_each (field : Field) (dialect : Path.Dialect)
    (path : Option String) :
    checkPath location field dialect path =
      each PathUse.check (PathUse.ofOption location field dialect path) := by
  cases path with
  | none => rfl
  | some p => exact (bind_accept _).symm

theorem checkCatchers_eq_each (catchers : List Catcher) :
    checkCatchers location catchers =
      each PathUse.check (PathUse.ofCatchers location 0 catchers) :=
  eachFrom_eq_each (fun _ _ => checkPath_eq_each _ _ _) (fun _ => rfl)
    (fun _ _ _ => rfl) 0 catchers

mutual

/-- A condition is gone through as deep as it goes, and its comparisons are
come to from left to right. -/
theorem checkCondition_eq_each : (c : Condition) →
    checkCondition location c =
      each (fun test => checkPath location .subject .reference test.subject)
        c.comparisons
  | .comparison test => by
      rw [checkCondition, Condition.comparisons, each, each, bind_accept]
  | .all cs => by
      rw [checkCondition, Condition.comparisons, checkConditions_eq_each cs]
  | .any cs => by
      rw [checkCondition, Condition.comparisons, checkConditions_eq_each cs]
  | .negation condition => by
      rw [checkCondition, Condition.comparisons,
        checkGivenCondition_eq_each condition]

theorem checkConditions_eq_each : (cs : List Condition) →
    checkConditions location cs =
      each (fun test => checkPath location .subject .reference test.subject)
        (Condition.comparisonsEach cs)
  | [] => by rw [checkConditions, Condition.comparisonsEach, each]
  | c :: cs => by
      rw [checkConditions, Condition.comparisonsEach, each_append,
        checkCondition_eq_each c, checkConditions_eq_each cs]

theorem checkGivenCondition_eq_each : (condition : Option Condition) →
    checkGivenCondition location condition =
      each (fun test => checkPath location .subject .reference test.subject)
        (Condition.comparisonsOption condition)
  | none => by rw [checkGivenCondition, Condition.comparisonsOption, each]
  | some c => by
      rw [checkGivenCondition, Condition.comparisonsOption,
        checkCondition_eq_each c]

end

theorem checkRule_eq_each (rule : ChoiceRule) :
    checkGivenCondition location rule.condition =
      each PathUse.check (PathUse.ofRule location rule) := by
  rw [checkGivenCondition_eq_each, PathUse.ofRule]
  induction Condition.comparisonsOption rule.condition with
  | nil => rfl
  | cons test tests ih =>
      rw [each, List.flatMap_cons, each_append, checkPath_eq_each, ih]

theorem checkRules_eq_each (rules : List ChoiceRule) :
    checkRules location rules =
      each PathUse.check (PathUse.ofRules location 0 rules) :=
  eachFrom_eq_each (fun _ _ => checkRule_eq_each _) (fun _ => rfl)
    (fun _ _ _ => rfl) 0 rules

theorem checkWaitFor_eq_each (waitFor : Option WaitFor) :
    checkWaitFor location waitFor =
      each PathUse.check (PathUse.ofWaitFor location waitFor) := by
  rcases waitFor with _ | _ | path | _ | path
  case some.secondsPath => exact checkPath_eq_each _ _ (some path)
  case some.timestampPath => exact checkPath_eq_each _ _ (some path)
  all_goals rfl

theorem checkResult_eq_each (path : Option String) (catchers : List Catcher) :
    checkResult location path catchers =
      each PathUse.check (PathUse.ofResult location path catchers) := by
  rw [checkResult, PathUse.ofResult, each_append, checkPath_eq_each,
    checkCatchers_eq_each]

/-- The paths of input and output come before what else there is. -/
theorem checkEnds_eq_each (input output : Option String) {rest : Verdict}
    {uses : List PathUse} (h : rest = each PathUse.check uses) :
    (do
      checkPath location .inputPath .general input
      checkPath location .outputPath .general output
      rest) =
      each PathUse.check (PathUse.ofEnds location input output ++ uses) := by
  rw [PathUse.ofEnds, List.append_assoc, each_append, each_append, ← h,
    checkPath_eq_each, checkPath_eq_each]

theorem checkState_eq_each (location : Location) (s : State) :
    checkState location s = each PathUse.check (s.pathUses location) := by
  cases s with
  | pass s =>
      exact checkEnds_eq_each s.inputPath s.outputPath
        (checkPath_eq_each _ _ _)
  | task s =>
      exact checkEnds_eq_each s.inputPath s.outputPath
        (checkResult_eq_each _ _)
  | wait s =>
      exact checkEnds_eq_each s.inputPath s.outputPath
        (checkWaitFor_eq_each _)
  | choice s =>
      exact checkEnds_eq_each s.inputPath s.outputPath
        (checkRules_eq_each _)
  | succeed s =>
      rw [State.pathUses, ← List.append_nil (PathUse.ofEnds ..)]
      exact checkEnds_eq_each s.inputPath s.outputPath rfl
  | fail s => rfl
  | parallel s =>
      exact checkEnds_eq_each s.inputPath s.outputPath
        (checkResult_eq_each _ _)

end StatePaths

/-! ## The first bad path -/

theorem PathUse.check_eq_ok_iff_path {u : PathUse} :
    u.check = .ok () ↔ Path.check u.dialect u.path = .ok () := by
  rw [PathUse.check]
  cases Path.check u.dialect u.path with
  | ok _ => simp [Verdict.accept]
  | error fault => simp [Verdict.reject]

theorem PathUse.check_eq_error_iff {u : PathUse} {v : Violation} :
    u.check = .error v ↔
      ∃ fault, Path.check u.dialect u.path = .error fault ∧
        v = ⟨u.location, .badPath u.field u.path u.dialect fault⟩ := by
  rw [PathUse.check]
  cases Path.check u.dialect u.path with
  | ok _ => simp [Verdict.accept]
  | error fault => simp [Verdict.reject, eq_comm (a := v)]

/-- A state's paths are accepted if and only if every path of its list is
written in its dialect. Otherwise the first that is not is reported, at its
place, with its field, its text, its dialect and the fault of its syntax. -/
theorem StatePaths.first_bad_path (location : Location) (s : State) :
    (checkState location s = .ok () ↔
      ∀ u ∈ s.pathUses location, Path.check u.dialect u.path = .ok ()) ∧
    ∀ v, checkState location s = .error v ↔
      ∃ before u after fault, s.pathUses location = before ++ u :: after ∧
        (∀ earlier ∈ before,
          Path.check earlier.dialect earlier.path = .ok ()) ∧
        Path.check u.dialect u.path = .error fault ∧
        v = ⟨u.location, .badPath u.field u.path u.dialect fault⟩ := by
  rw [checkState_eq_each]
  constructor
  · simp only [Verdict.each_eq_ok_iff, PathUse.check_eq_ok_iff_path]
  · intro v
    simp only [Verdict.each_eq_error_iff, PathUse.check_eq_ok_iff_path,
      PathUse.check_eq_error_iff, exists_and_left]

end Workflow

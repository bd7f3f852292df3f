import Workflow.Machine
import Workflow.Path.Scanner
import Workflow.Verdict

/-!
# Paths of a state

The check of every path that a state carries. Each path must keep to the dialect of the field it
stands in. What a state does with its input and output comes first, then the paths of its kind; a
catcher and a rule answer for the paths inside them.
-/

namespace Workflow

namespace StatePaths

/-- Checks the syntax of a path in the place where it stands. A path may be absent. -/
def checkPath (location : Location) (field : Field) (dialect : Path.Dialect) :
    Option String → Verdict
  | none => .accept
  | some path =>
    match Path.check dialect path with
    | .ok () => .accept
    | .error fault => .reject location (.badPath field path dialect fault)

/-- The result paths of catchers, each at its catcher. -/
def checkCatchers (location : Location) (catchers : List Catcher) : Verdict :=
  Verdict.eachFrom
    (fun i c => checkPath (location.catcher i) .resultPath .reference c.resultPath) 0 catchers

mutual

/-- The paths under test in a condition. -/
def checkCondition (location : Location) : Condition → Verdict
  | .comparison test => checkPath location .subject .reference test.subject
  | .all conditions => checkConditions location conditions
  | .any conditions => checkConditions location conditions
  | .negation condition => checkGivenCondition location condition

/-- The paths under test in the members of a conjunction or disjunction, in order. -/
def checkConditions (location : Location) : List Condition → Verdict
  | [] => .accept
  | c :: cs => do
    checkCondition location c
    checkConditions location cs

/-- The paths under test in a condition that may be missing. -/
def checkGivenCondition (location : Location) : Option Condition → Verdict
  | none => .accept
  | some c => checkCondition location c

end

/-- The paths under test in rules, each at its rule. -/
def checkRules (location : Location) (rules : List ChoiceRule) : Verdict :=
  Verdict.eachFrom (fun i rule => checkGivenCondition (location.choice i) rule.condition) 0 rules

/-- The path that a Wait state reads its time from. -/
def checkWaitFor (location : Location) : Option WaitFor → Verdict
  | some (.secondsPath path) => checkPath location .secondsPath .reference (some path)
  | some (.timestampPath path) => checkPath location .timestampPath .reference (some path)
  | some (.seconds _) | some (.timestamp _) | none => .accept

/-- The path of the result of a state that may fail, and those of its catchers. -/
def checkResult (location : Location) (resultPath : Option String) (catchers : List Catcher) :
    Verdict := do
  checkPath location .resultPath .reference resultPath
  checkCatchers location catchers

/-- The paths that only the given kind of state has. -/
def checkKind (location : Location) : State → Verdict
  | .pass s => checkPath location .resultPath .reference s.resultPath
  | .task s => checkResult location s.resultPath s.catchers
  | .parallel s => checkResult location s.resultPath s.catchers
  | .wait s => checkWaitFor location s.waitFor
  | .choice s => checkRules location s.rules
  | .succeed _ | .fail _ => .accept

/-- The paths of a state. -/
def checkState (location : Location) (s : State) : Verdict := do
  checkPath location .inputPath .general s.inputPath
  checkPath location .outputPath .general s.outputPath
  checkKind location s

/-- The paths of all states of a scope, in the order of their declaration. -/
def checkStates (location : Location) (states : States) : Verdict :=
  Verdict.each (fun e => checkState (location.state e.name) e.state) states

end StatePaths

end Workflow

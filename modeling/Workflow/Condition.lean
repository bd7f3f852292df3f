import Workflow.Literal

/-!
# Choice rules and their conditions

A condition is a tree: comparisons of the value at a path with a literal, joined by conjunction,
disjunction and negation. Every part may be missing, since a definition is judged as it was written.
-/

namespace Workflow

/-- How a comparison relates the value under test to the expected one. -/
inductive Operator where
  | stringEquals
  | stringLessThan
  | stringGreaterThan
  | stringLessThanEquals
  | stringGreaterThanEquals
  | numericEquals
  | numericLessThan
  | numericGreaterThan
  | numericLessThanEquals
  | numericGreaterThanEquals
  | booleanEquals
  | timestampEquals
  | timestampLessThan
  | timestampGreaterThan
  | timestampLessThanEquals
  | timestampGreaterThanEquals
deriving DecidableEq, Repr

namespace Operator

/-- All operators. -/
def all : List Operator :=
  [.stringEquals, .stringLessThan, .stringGreaterThan, .stringLessThanEquals,
   .stringGreaterThanEquals, .numericEquals, .numericLessThan, .numericGreaterThan,
   .numericLessThanEquals, .numericGreaterThanEquals, .booleanEquals, .timestampEquals,
   .timestampLessThan, .timestampGreaterThan, .timestampLessThanEquals,
   .timestampGreaterThanEquals]

/-- The name of an operator in a definition. -/
def name : Operator → String
  | .stringEquals => "StringEquals"
  | .stringLessThan => "StringLessThan"
  | .stringGreaterThan => "StringGreaterThan"
  | .stringLessThanEquals => "StringLessThanEquals"
  | .stringGreaterThanEquals => "StringGreaterThanEquals"
  | .numericEquals => "NumericEquals"
  | .numericLessThan => "NumericLessThan"
  | .numericGreaterThan => "NumericGreaterThan"
  | .numericLessThanEquals => "NumericLessThanEquals"
  | .numericGreaterThanEquals => "NumericGreaterThanEquals"
  | .booleanEquals => "BooleanEquals"
  | .timestampEquals => "TimestampEquals"
  | .timestampLessThan => "TimestampLessThan"
  | .timestampGreaterThan => "TimestampGreaterThan"
  | .timestampLessThanEquals => "TimestampLessThanEquals"
  | .timestampGreaterThanEquals => "TimestampGreaterThanEquals"

/-- The operator of a name. -/
def ofName? (s : String) : Option Operator := all.find? fun op => op.name == s

end Operator

/-- A comparison of the value at the path `subject` with a literal. -/
structure Comparison where
  subject : Option String
  operator : Operator
  expected : Option Literal
deriving BEq

/-- A condition of a choice rule. A negation without a condition was never given one. -/
inductive Condition where
  | comparison (test : Comparison)
  | all (conditions : List Condition)
  | any (conditions : List Condition)
  | negation (condition : Option Condition)

namespace Condition

/-- The comparison of the value at `subject` with a literal. -/
def compare (subject : String) (operator : Operator) (expected : Literal) : Condition :=
  .comparison ⟨some subject, operator, some expected⟩

/-- The comparison of the text at `subject` with a text. -/
def stringEquals (subject expected : String) : Condition :=
  compare subject .stringEquals (.string expected)

mutual

/-- Whether two conditions are the same tree with equal comparisons. -/
def equal : Condition → Condition → Bool
  | .comparison a, .comparison b => a == b
  | .all as, .all bs => equalEach as bs
  | .any as, .any bs => equalEach as bs
  | .negation a, .negation b => equalOption a b
  | _, _ => false

/-- Whether two lists hold equal conditions in the same order. -/
def equalEach : List Condition → List Condition → Bool
  | [], [] => true
  | a :: as, b :: bs => a.equal b && equalEach as bs
  | _, _ => false

/-- Whether two conditions are equal or both missing. -/
def equalOption : Option Condition → Option Condition → Bool
  | none, none => true
  | some a, some b => a.equal b
  | _, _ => false

end

instance : BEq Condition := ⟨equal⟩

end Condition

/-- A rule of a Choice state: where to go if the condition holds. -/
structure ChoiceRule where
  condition : Option Condition
  next : Option String
deriving BEq

/-- The rule that goes to `next` if the condition holds. -/
def ChoiceRule.to (next : String) (condition : Condition) : ChoiceRule :=
  ⟨some condition, some next⟩

end Workflow

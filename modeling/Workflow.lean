import Workflow.Building
import Workflow.Equality
import Workflow.Settings.Environment
import Workflow.Validation
import Workflow.Path.Cursor
import Workflow.Tables
import Workflow.Proofs.FirstViolation
import Workflow.Proofs.Lookup
import Workflow.Proofs.Spread
import Workflow.Proofs.Walk
import Workflow.Proofs.Course
import Workflow.Proofs.FixedPoint
import Workflow.Proofs.Reachability
import Workflow.Proofs.Scopes
import Workflow.Proofs.Tables.Filling
import Workflow.Proofs.Tables.QueueWalk
import Workflow.Proofs.Tables.Representation
import Workflow.Proofs.Path.Grammar
import Workflow.Proofs.Path.IndexBody
import Workflow.Proofs.Path.Reading
import Workflow.Proofs.Path.Acceptance
import Workflow.Proofs.Path.Dialects
import Workflow.Proofs.Path.Positions
import Workflow.Proofs.Path.Quoting
import Workflow.Proofs.Path.Truncation
import Workflow.Proofs.Path.Cursors
import Workflow.Proofs.Path.CursorReading
import Workflow.Proofs.FieldRules
import Workflow.Proofs.ConditionParts
import Workflow.Proofs.PathUses
import Workflow.Proofs.CarriedPaths
import Workflow.Proofs.WellFormed
import Workflow.Proofs.Edges
import Workflow.Proofs.TargetOrder
import Workflow.Proofs.Elements
import Workflow.Proofs.ChoiceRules
import Workflow.Proofs.Policies
import Workflow.Proofs.FieldDiagnosis
import Workflow.Proofs.Diagnosis
import Workflow.Proofs.Precedence
import Workflow.Proofs.LocationText
import Workflow.Proofs.NestingLimit
import Workflow.Proofs.Completion
import Workflow.Proofs.Renaming.Basic
import Workflow.Proofs.Renaming.Checks
import Workflow.Proofs.Renaming.Graph
import Workflow.Proofs.Renaming.Verdict
import Workflow.Proofs.Alike
import Workflow.Proofs.Slots
import Workflow.Proofs.Composition
import Workflow.Proofs.StateOrder
import Workflow.Proofs.Reordering
import Workflow.Proofs.Strictness
import Workflow.Proofs.SingleWay
import Workflow.Proofs.CircleEntry
import Workflow.Proofs.Styles
import Workflow.Proofs.Skeleton
import Workflow.Proofs.ClosedParts
import Workflow.Proofs.Pruning
import Workflow.Proofs.Extension
import Workflow.Proofs.UnknownTargets
import Workflow.Proofs.EventLog
import Workflow.Proofs.Numerals
import Workflow.Proofs.Settings.Documents
import Workflow.Proofs.Settings.Files
import Workflow.Proofs.Settings.Lines
import Workflow.Proofs.Yaml.Lines
import Workflow.Proofs.Yaml.Library
import Workflow.Proofs.Settings.Layers
import Workflow.Proofs.Equality.Values
import Workflow.Proofs.Equality.Machines
import Workflow.Proofs.Equality.Verdicts
import Workflow.Proofs.Settings.RoundTrip

import Workflow.DocumentLibrary
import Workflow.Settings.Basic

/-!
# Settings documents

Settings are read from the entries of a document. Those with other keys are passed over, a setting
that is left out takes its default, and a setting given twice is an error. They are saved as one
entry each.
-/

namespace Workflow

/-- The style of a name. -/
def Diagnostics.ofName? (s : String) : Option Diagnostics :=
  [Diagnostics.split, .unified].find? fun style => style.name == s

namespace Settings

open Document

/-! ## Reading -/

/-- The value of an entry that may be left out; nothing if it is given twice. -/
def lookUp? (entries : List (String × Value)) (key : String) : Option (Option Value) :=
  match entries.filter fun (k, _) => k == key with
  | [] => some none
  | [(_, value)] => some (some value)
  | _ => none

/-- The value of a setting, or the default if it is left out. -/
def setting? {α : Type} (entries : List (String × Value)) (key : String) (default : α)
    (read? : Value → Option α) : Option α := do
  match ← lookUp? entries key with
  | some value => read? value
  | none => return default

/-- A nesting depth: a whole number below `depthLimit`. -/
def depthOfValue? (v : Value) : Option Nat := v.number?.filter (· < depthLimit)

/-- A style, by its name. -/
def styleOfValue? (v : Value) : Option Diagnostics := v.name?.bind Diagnostics.ofName?

def depthKey : String := "max_nesting_depth"

def rejectKey : String := "reject_unreachable_states"

def diagnosticsKey : String := "diagnostics"

/-- The settings of the entries of a document. -/
def ofEntries? (entries : List (String × Value)) : Option Settings := do
  let depth ← setting? entries depthKey 0 depthOfValue?
  let reject ← setting? entries rejectKey false Value.truth?
  let style ← setting? entries diagnosticsKey .split styleOfValue?
  return ⟨depth, reject, style⟩

/-- The settings of a text. -/
def ofText? [DocumentLibrary] (text : String) : Option Settings :=
  (DocumentLibrary.read? text).bind ofEntries?

/-! ## Writing -/

/-- The entries that settings are saved as. -/
def entries (s : Settings) : List (String × Datum) :=
  [(depthKey, .number s.maxNestingDepth), (rejectKey, .truth s.rejectUnreachableStates),
   (diagnosticsKey, .name s.diagnostics.name)]

/-- The text that settings are saved as. -/
def text? [DocumentLibrary] (s : Settings) : Option String := DocumentLibrary.write? s.entries

end Settings

end Workflow

import Workflow.Event
import Workflow.Settings.Document
import Workflow.Settings.Files
import Workflow.Text.Lowercase
import Workflow.Yaml.Library

/-!
# Settings from the environment

Settings come in layers: the defaults, then the file that one environment variable names, then one
variable for each setting. A file that cannot be read is an error and nothing else is looked at; a
variable with a value that makes no sense is passed over with a warning.

The files are those of any file system and the documents those of any library. Where nothing else is
said, the files are a directory tree and the library is that of `Yaml.library`.
-/

namespace Workflow

/-- The environment variables and files that settings are read from. -/
structure Environment (φ : Type := Files) where
  bindings : List (String × String) := []
  files : φ := by exact {}

namespace Environment

variable {φ : Type}

/-- The value of a variable, if it is set. -/
def get? (env : Environment φ) (name : String) : Option String := env.bindings.lookup name

def unset (env : Environment φ) (name : String) : Environment φ :=
  { env with bindings := env.bindings.filter fun (n, _) => n != name }

def set (env : Environment φ) (name value : String) : Environment φ :=
  { env with bindings := (name, value) :: (env.unset name).bindings }

end Environment

namespace Settings

/-- Why settings cannot be read or saved, with the fault of the file system if that is why. -/
inductive Failure (ε : Type := FileFault) where
  /-- The text that `source` names does not hold settings, or there is no text to be saved there. -/
  | malformed (source : String)
  | file (name : String) (fault : ε)
deriving DecidableEq, Repr

/-- The message of a failure, up to what the reader of the text or the file system has to add. -/
def Failure.message {ε : Type} : Failure ε → String
  | .malformed source => "failed to parse config file '" ++ source ++ "': "
  | .file name _ => "failed to read config file '" ++ name ++ "': "

/-- A variable whose value is passed over. -/
inductive Warning where
  | depth (value : String)
  | reject (value : String)
  | diagnostics (value : String)
deriving DecidableEq, Repr

def configVariable : String := "STATECHECK_CONFIG"

def depthVariable : String := "STATECHECK_MAX_NESTING_DEPTH"

def rejectVariable : String := "STATECHECK_REJECT_UNREACHABLE"

def diagnosticsVariable : String := "STATECHECK_DIAGNOSTICS"

namespace Warning

def level (_ : Warning) : Level := .warn

def message : Warning → String
  | .depth value => "Ignoring unparseable " ++ depthVariable ++ " value '" ++ value ++ "'"
  | .reject value => "Ignoring unknown " ++ rejectVariable ++ " value '" ++ value ++ "'"
  | .diagnostics value => "Ignoring unknown " ++ diagnosticsVariable ++ " value '" ++ value ++ "'"

end Warning

/-- The depth that a variable gives: digits, perhaps after a plus, below `depthLimit`. -/
def depthOfVariable? (value : String) : Option Nat :=
  let digits := match value.toList with
    | '+' :: rest => rest
    | cs => cs
  if !digits.isEmpty && digits.all Char.isDigit then
    some (Decimal.digitsValue digits) |>.filter (· < depthLimit)
  else none

/-- The truth value that a variable gives, in letters of any case. -/
def rejectOfVariable? (value : String) : Option Bool :=
  match Text.lowercase value with
  | "1" => some true
  | "true" => some true
  | "0" => some false
  | "false" => some false
  | _ => none

/-- The style that a variable gives, in letters of any case. -/
def diagnosticsOfVariable? (value : String) : Option Diagnostics :=
  Diagnostics.ofName? (Text.lowercase value)

/-- What a variable overrides: its value if it is set and makes sense, else the given one, with a
warning if it is set. -/
def override {α : Type} (value? : Option String) (read? : String → Option α)
    (warning : String → Warning) (given : α) : α × List Warning :=
  match value? with
  | none => (given, [])
  | some value =>
    match read? value with
    | some a => (a, [])
    | none => (given, [warning value])

/-- The settings with the overrides of the environment, and the warnings about them in the order of
the settings. -/
def withOverrides {φ : Type} (s : Settings) (env : Environment φ) : Settings × List Warning :=
  let (depth, w₁) := override (env.get? depthVariable) depthOfVariable? .depth s.maxNestingDepth
  let (reject, w₂) := override (env.get? rejectVariable) rejectOfVariable?
    (fun value => .reject (Text.lowercase value)) s.rejectUnreachableStates
  let (style, w₃) := override (env.get? diagnosticsVariable) diagnosticsOfVariable?
    (fun value => .diagnostics (Text.lowercase value)) s.diagnostics
  (⟨depth, reject, style⟩, w₁ ++ w₂ ++ w₃)

/-- The settings of a text that is not in a file. -/
def ofInlineText {ε : Type} [DocumentLibrary] (text : String) : Except (Failure ε) Settings :=
  match ofText? text with
  | some s => .ok s
  | none => .error (.malformed "<inline>")

/-- The settings of the environment's variables alone. -/
def ofVariables {φ : Type} (env : Environment φ) : Settings × List Warning := withOverrides {} env

section Files

variable {φ ε : Type} [FileSystem φ ε] [DocumentLibrary]

/-- The settings of a file. -/
def ofFile (files : φ) (name : String) : Except (Failure ε) Settings :=
  match FileSystem.readText files name with
  | .error fault => .error (.file name fault)
  | .ok text =>
    match ofText? text with
    | some s => .ok s
    | none => .error (.malformed name)

/-- The settings of the environment: of the file that it names, or else the defaults, with the
overrides of its variables. -/
def load (env : Environment φ) : Except (Failure ε) Settings × List Warning :=
  match env.get? configVariable with
  | none =>
    let (s, warnings) := ofVariables env
    (.ok s, warnings)
  | some name =>
    match ofFile env.files name with
    | .error failure => (.error failure, [])
    | .ok s =>
      let (s, warnings) := s.withOverrides env
      (.ok s, warnings)

/-- Saves settings to a file. -/
def save (s : Settings) (files : φ) (name : String) : Except (Failure ε) φ :=
  match s.text? with
  | none => .error (.malformed name)
  | some text =>
    match FileSystem.writeText files name text with
    | .ok files => .ok files
    | .error fault => .error (.file name fault)

end Files

end Settings

end Workflow

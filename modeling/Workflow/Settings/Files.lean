import Workflow.FileSystem

/-!
# Files

A directory tree, with the operations on it that settings need. Files hold bytes; reading one as
text fails if the bytes are not UTF-8. Names are resolved step by step, from the root of the tree if
they start with a slash and else from the working directory: every step but the last must lead to a
directory.
-/

namespace Workflow

/-- What stands at a place of the tree. -/
inductive FileEntry where
  | file (bytes : ByteArray)
  | directory

/-- Why a file cannot be read or written. -/
inductive FileFault where
  | notFound
  | isDirectory
  | notDirectory
  | invalidText
deriving DecidableEq, Repr

/-- A directory tree: its places, by the names that lead to them from the root, and the place where
names start that are not given from the root. -/
structure Files where
  entries : List (List String × FileEntry) := []
  workingDirectory : List String := ["work"]

namespace Files

/-- What stands at a place. The working directory is there, and so is every directory around it. -/
def entry? (files : Files) (place : List String) : Option FileEntry :=
  if place.isPrefixOf files.workingDirectory then some .directory else files.entries.lookup place

/-- Puts an entry at a place, instead of what stands there. -/
def put (files : Files) (place : List String) (entry : FileEntry) : Files :=
  { files with entries := (place, entry) :: files.entries.filter fun (p, _) => p != place }

/-- Whether a place is a directory, as it must be to go on from it. -/
def enter (files : Files) (place : List String) : Except FileFault Unit :=
  match files.entry? place with
  | some .directory => .ok ()
  | some (.file _) => .error .notDirectory
  | none => .error .notFound

/-- Whether a part of a name stays in a directory. -/
def stays (part : String) : Bool := part = "" || part = "."

/-- The place that the parts of a name lead to from a directory. An empty part and `.` stay, `..`
goes back up; the root is above itself. -/
def resolveFrom (files : Files) (place : List String) : List String → Except FileFault (List String)
  | [] => .ok place
  | part :: rest => do
    files.enter place
    if stays part then files.resolveFrom place rest
    else if part = ".." then files.resolveFrom place.dropLast rest
    else files.resolveFrom (place ++ [part]) rest

/-- The parts of a name, which slashes separate. -/
def parts (name : String) : List String := (name.toList.splitOn '/').map String.ofList

/-- The directory from which a name is resolved. -/
def start (files : Files) (name : String) : List String :=
  if name.startsWith "/" then [] else files.workingDirectory

/-- The place of a name; the empty name has none. -/
def resolve (files : Files) (name : String) : Except FileFault (List String) :=
  if name.isEmpty then .error .notFound else files.resolveFrom (files.start name) (parts name)

/-- The name without the slashes that it ends in, unless it is that of the root. -/
def withoutSlashes (name : String) : String :=
  let stem := (name.dropEndWhile '/').copy
  if stem.isEmpty then name else stem

/-- The text of a file. -/
def readText (files : Files) (name : String) : Except FileFault String := do
  let place ← files.resolve name
  match files.entry? place with
  | none => throw .notFound
  | some .directory => throw .isDirectory
  | some (.file bytes) =>
    match String.fromUTF8? bytes with
    | some text => return text
    | none => throw .invalidText

/-- Writes a file, a new one or instead of the old one. A name that ends in slashes is that of a
directory. -/
def writeBytes (files : Files) (name : String) (bytes : ByteArray) : Except FileFault Files := do
  let place ← files.resolve (withoutSlashes name)
  if name.endsWith "/" then throw .isDirectory
  match files.entry? place with
  | some .directory => throw .isDirectory
  | _ => return files.put place (.file bytes)

/-- Writes a text to a file. -/
def writeText (files : Files) (name text : String) : Except FileFault Files :=
  files.writeBytes name text.toUTF8

/-- Makes the directories that the parts of a name lead through from a place, as far as no file is
in the way. One that `.` follows at the end of the name has to be there already. -/
def makeDirectories (files : Files) (place : List String) : List String → Files
  | [] => files
  | part :: rest =>
    if stays part then files.makeDirectories place rest
    else if part = ".." then files.makeDirectories place.dropLast rest
    else
      let next := place ++ [part]
      match files.entry? next with
      | some .directory => files.makeDirectories next rest
      | some (.file _) => files
      | none =>
        if rest.all stays && rest.contains "." then files
        else (files.put next .directory).makeDirectories next rest

/-- Makes a directory and those that lead to it. -/
def makeDirectory (files : Files) (name : String) : Files :=
  files.makeDirectories (files.start name) (parts name)

/-- Removes what a name leads to, with all below it. -/
def remove (files : Files) (name : String) : Files :=
  match files.resolve name with
  | .ok place => { files with entries := files.entries.filter fun (p, _) => !place.isPrefixOf p }
  | .error _ => files

instance : FileSystem Files FileFault where
  readText := readText
  writeText := writeText

end Files

end Workflow

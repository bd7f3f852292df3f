/-!
# File systems

Settings are kept in files. What files are and how a name leads to one is left open: a file system
gives the text of a file and replaces it, and both may fail with a fault of its own.
-/

namespace Workflow

/-- Files in a state `φ`, which fail with faults `ε`. -/
class FileSystem (φ : Type) (ε : outParam Type) where
  /-- The text of the file that a name leads to. -/
  readText : φ → (name : String) → Except ε String
  /-- The files after a text has been written to the file that a name leads to, a new one or instead
  of what it held. -/
  writeText : φ → (name text : String) → Except ε φ

/-- What has been written to a file is what is read from it. -/
class LawfulFileSystem (φ : Type) {ε : outParam Type} [FileSystem φ ε] : Prop where
  readText_of_writeText {files written : φ} {name text : String} :
    FileSystem.writeText files name text = .ok written →
      FileSystem.readText written name = .ok text

end Workflow

/-!
# Libraries for documents

Settings are written down in documents, which a library reads and writes. The library is not part of
this development. What it has to offer is a class: it finds the entries of the mapping that a text
holds, and it writes entries out. How a value is written in a text, and what counts as a number
there, is up to the library; it is asked for a value of a certain kind and has one or has none.
-/

namespace Workflow

namespace Document

/-- A value that has been read, by what it comes to when it is asked for: a number without a sign, a
truth value, or one of the names of something. -/
structure Value where
  number? : Option Nat := none
  truth? : Option Bool := none
  name? : Option String := none
deriving DecidableEq, Repr

/-- A value to be written. -/
inductive Datum where
  | number (n : Nat)
  | truth (b : Bool)
  | name (text : String)
deriving DecidableEq, Repr

/-- What a value looks like where it can be written as it is. -/
def Datum.text : Datum → String
  | .number n => toString n
  | .truth b => if b then "true" else "false"
  | .name text => text

end Document

/-- A library that reads and writes documents. -/
class DocumentLibrary where
  /-- The entries of the mapping in a text, in order and with all repetitions. There are none in an
  empty document, and nothing is read from a text that is no document or holds no mapping. -/
  read? : (text : String) → Option (List (String × Document.Value))
  /-- The text of a mapping, if it can be written. -/
  write? : (entries : List (String × Document.Datum)) → Option String

end Workflow

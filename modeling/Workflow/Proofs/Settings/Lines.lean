import Mathlib.Data.List.Forall2
import Workflow.Proofs.Numerals
import Workflow.Settings.Document

/-!
# What is relied on of a library

There is hardly anything to be said of a library for documents that would hold
of every one, and for most purposes nothing has to be. To read settings back,
two things are needed (`LineLibrary`). They are about the simplest documents,
of one line for each entry: a key, a colon and a value, where keys and values
are words of letters, digits and underscores. Such a document is read as the
entries that it shows, and settings are written as such a document.

A word is plain, which means that it is a name whatever else it is. Beyond that
not much is said about what it stands for (`Plain`): nothing is asked, say, of
digits with a zero in front.
-/

namespace Workflow

namespace Document

/-! ## Words and lines -/

/-- Letters, digits and the underscore, which mean nothing but themselves. -/
def isWordChar (c : Char) : Bool := c.isAlphanum || c = '_'

/-- A word, which is never empty. -/
structure IsWord (cs : List Char) : Prop where
  ne_nil : cs ≠ []
  chars : ∀ c ∈ cs, isWordChar c = true

/-- A key and a value that are words, the key not too long for one. -/
structure IsEntry (e : String × String) : Prop where
  key : IsWord e.1.toList
  short : e.1.toList.length ≤ 1024
  value : IsWord e.2.toList

/-- The line of an entry. -/
def line (e : String × String) : String := e.1 ++ ": " ++ e.2

/-- The text of some lines. -/
def ofLines (ls : List String) : String := String.join (ls.map (· ++ "\n"))

/-- What a word comes to as a value. It is a name as it stands. Digits are the
number that they denote, and two words are the truth values. -/
structure Plain (word : String) (v : Value) : Prop where
  name : v.name? = some word
  number : Numeral.Canonical word.toList →
    Numeral.denotes word.toList ≤ 2 ^ 64 - 1 →
    v.number? = some (Numeral.denotes word.toList)
  truth : word = "true" → v.truth? = some true
  falsity : word = "false" → v.truth? = some false

end Document

open Document

/-- A library that reads lines as the entries that they show, and that writes
settings as lines. -/
class LineLibrary [DocumentLibrary] : Prop where
  read?_lines {es : List (String × String)} :
    es ≠ [] → (∀ e ∈ es, IsEntry e) →
      ∃ entries, DocumentLibrary.read? (ofLines (es.map line)) = some entries ∧
        List.Forall₂ (fun e entry => entry.1 = e.1 ∧ Plain e.2 entry.2) es
          entries
  write?_entries {s : Settings} : s.maxNestingDepth ≤ 2 ^ 64 - 1 →
    DocumentLibrary.write? s.entries =
      some (ofLines (s.entries.map fun e => line (e.1, e.2.text)))

end Workflow

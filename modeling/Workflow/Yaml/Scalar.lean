import Workflow.Yaml.Characters
import Workflow.Yaml.Node

/-!
# YAML scalars

Plain and quoted scalars, read character by character. Line breaks inside a scalar are folded: one
break becomes a space, and of several the first is dropped; the blanks around them do not count.
-/

namespace Workflow

namespace Yaml

/-- What stands for a run of line breaks. -/
def folded (breaks : Nat) : List Char :=
  if breaks = 1 then [' '] else List.replicate (breaks - 1) '\n'

/-- What has been passed in a scalar since the last character that counts: blanks, the latest first,
or line breaks, of which the first may have been escaped. -/
inductive Gap where
  | blanks (cs : List Char)
  | breaks (count : Nat) (firstEscaped : Bool)

namespace Gap

/-- What a gap stands for, the latest character first. -/
def text : Gap → List Char
  | .blanks cs => cs
  | .breaks count firstEscaped =>
    if firstEscaped then List.replicate (count - 1) '\n' else folded count

/-- Whether nothing has been passed. -/
def isEmpty : Gap → Bool
  | .blanks cs => cs.isEmpty
  | .breaks .. => false

/-- Whether a line break has been passed. -/
def isBroken : Gap → Bool
  | .blanks _ => false
  | .breaks .. => true

/-- The gap after one more blank; those around line breaks do not count. -/
def addBlank (c : Char) : Gap → Gap
  | .blanks cs => .blanks (c :: cs)
  | g => g

/-- The gap after one more line break. -/
def addBreak : Gap → Gap
  | .blanks _ => .breaks 1 false
  | .breaks count firstEscaped => .breaks (count + 1) firstEscaped

end Gap

/-- A scalar as far as it has been read: its text, the latest character first, and the gap after
it. -/
structure Draft where
  text : List Char := []
  gap : Gap := .blanks []

namespace Draft

/-- The draft with its gap made part of the text. -/
def joined (d : Draft) : List Char := d.gap.text ++ d.text

/-- The draft after one more character that counts. -/
def add (d : Draft) (c : Char) : Draft := ⟨c :: d.joined, .blanks []⟩

/-- The draft after one more blank or line break. -/
def pass (d : Draft) (c : Char) : Draft :=
  ⟨d.text, if c = '\n' then d.gap.addBreak else d.gap.addBlank c⟩

/-- The draft after a line break that is escaped, and so stands for nothing. -/
def passEscaped (d : Draft) : Draft := ⟨d.joined, .breaks 1 true⟩

/-- The scalar that ends before the gap. -/
def trimmed (d : Draft) : String := String.ofList d.text.reverse

/-- The scalar that ends after the gap. -/
def whole (d : Draft) : String := String.ofList d.joined.reverse

end Draft

/-! ## Quoted scalars -/

/-- What a backslash and one character stand for. -/
def escape? : Char → Option Char
  | '0' => some '\x00'
  | 'a' => some '\x07'
  | 'b' => some '\x08'
  | 't' => some '\t'
  | '\t' => some '\t'
  | 'n' => some '\n'
  | 'v' => some '\x0B'
  | 'f' => some '\x0C'
  | 'r' => some '\r'
  | 'e' => some '\x1B'
  | ' ' => some ' '
  | '"' => some '"'
  | '/' => some '/'
  | '\\' => some '\\'
  | 'N' => some '\u0085'
  | '_' => some '\u00A0'
  | 'L' => some '\u2028'
  | 'P' => some '\u2029'
  | _ => none

/-- How many hexadecimal digits follow a backslash and the character. -/
def escapeLength? : Char → Option Nat
  | 'x' => some 2
  | 'u' => some 4
  | 'U' => some 8
  | _ => none

/-- The character of a code point, if it is one. -/
def charOf? (n : Nat) : Option Char := if n.isValidChar then some (Char.ofNat n) else none

/-- What the next character inside quotes is: text, the second of two quotes or the character after
a backslash, or one of the hexadecimal digits of an escape, of which `pending` follow it and those
before it write `value`. -/
inductive Reading where
  | text
  | escaped
  | code (pending value : Nat)
deriving DecidableEq

/-- The inside of a quoted scalar as far as it has been read. -/
structure Quoted where
  mark : Char
  draft : Draft := {}
  reading : Reading := .text

namespace Quoted

/-- Whether the scalar ends with a character. Two single quotes stand for one. -/
def endsWith (q : Quoted) (c : Char) (ahead : List Char) : Bool :=
  q.reading = .text && c = q.mark && !(c = '\'' && ahead.head? = some '\'')

/-- The scalar after one more character of its text. -/
def add (q : Quoted) (c : Char) : Quoted := { q with draft := q.draft.add c, reading := .text }

/-- The scalar after a character that is escaped. -/
def escaped? (q : Quoted) (c : Char) : Option Quoted :=
  if q.mark = '\'' then some (q.add c)
  else if c = '\n' then some { q with draft := q.draft.passEscaped, reading := .text }
  else
    match escapeLength? c with
    | some length => some { q with reading := .code (length - 1) 0 }
    | none => (escape? c).map q.add

/-- The scalar after one more character that does not end it. -/
def step? (q : Quoted) (c : Char) : Option Quoted :=
  match q.reading with
  | .text =>
    if c = '\n' || isBlank c then some { q with draft := q.draft.pass c }
    else if c = q.mark || (c = '\\' && q.mark = '"') then some { q with reading := .escaped }
    else some (q.add c)
  | .escaped => q.escaped? c
  | .code pending value => do
    let value := 16 * value + (← Node.digitIn? 16 c)
    match pending with
    | 0 => (charOf? value).map q.add
    | pending + 1 => some { q with reading := .code pending value }

end Quoted

end Yaml

end Workflow

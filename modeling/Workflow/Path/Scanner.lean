import Workflow.Path.Basic
import Workflow.Text.Blank

/-!
# Reading a path

A path is `$` followed by segments: `.name`, `.*`, `..name`, `..*`, quoted names, an index, a slice,
a union, a filter or a script in brackets. It is read one character at a time. What has been read so
far is summed up in a *stage*; each character leads to the next stage or shows a fault, and the end
of the text is a fault in the stages where something is left open.
-/

namespace Workflow

namespace Path

/-- The length of a text in bytes. -/
def byteLength : List Char → Nat
  | [] => 0
  | c :: cs => c.utf8Size + byteLength cs

theorem byteLength_append (cs ds : List Char) :
    byteLength (cs ++ ds) = byteLength cs + byteLength ds := by
  induction cs with
  | nil => simp [byteLength]
  | cons c cs ih => simp [byteLength, ih, Nat.add_assoc]

/-- What has been read of the current segment. `start` is where the segment starts; in an expression
`depth` counts the open parentheses, `quote` is the quote that is open, and `blank` says whether the
body has nothing but blanks so far. -/
inductive Stage where
  /-- A segment has just ended, or the root has been read. -/
  | between
  | dot (start : Nat)
  | deepDot (start : Nat)
  | name (start : Nat)
  | bracket (start : Nat)
  | quoted (start : Nat) (quote : Char) (isEmpty : Bool)
  | escaped (start : Nat) (quote : Char)
  | closedQuote (start : Nat) (quote : Char)
  | comma (start : Nat) (quote : Char)
  | question (start : Nat)
  | expression (start : Nat) (depth : Nat) (quote : Option Char) (blank : Bool)
  | closedExpression (start : Nat)
  | index (start : Nat) (body : List Char)
deriving DecidableEq, Repr

/-- One or more digits. -/
def isUnsigned (cs : List Char) : Bool := !cs.isEmpty && cs.all Char.isDigit

/-- Digits, perhaps after a minus. -/
def isSigned : List Char → Bool
  | '-' :: cs => isUnsigned cs
  | cs => isUnsigned cs

/-- Passes in a general path; in a reference path the construct at `position` is a fault. -/
def Dialect.allow (d : Dialect) (position : Nat) (construct : Construct) : Except Fault Unit :=
  match d with
  | .general => .ok ()
  | .reference => .error (.notAllowed position construct)

namespace Stage

/-- The stage between a `.` or `..` and its name, after one more character. -/
def startName (d : Dialect) (start position : Nat) (c : Char) : Except Fault Stage := do
  if c = '*' then
    d.allow position .wildcard
    return .between
  else if c = '.' ∨ c = '[' then throw (.emptySegment start)
  else if c = ']' ∨ Text.isBlank c then throw (.unexpectedChar position c)
  else return .name start

/-- The stage after the first character of a bracket. -/
def openBracket (d : Dialect) (start : Nat) (c : Char) : Except Fault Stage := do
  if c = ']' then throw (.emptySegment start)
  else if c = '\'' ∨ c = '"' then return .quoted start c true
  else if c = '?' then
    d.allow start .filterExpression
    return .question start
  else if c = '(' then
    d.allow start .scriptExpression
    return .expression start 1 none true
  else return .index start [c]

/-- One more character of a filter or script body. Quotes hide parentheses, and inside them a
backslash stands for itself. The parenthesis that closes the first one ends the body, which must not
be blank. -/
def expressionStep (start depth : Nat) (quote : Option Char) (blank : Bool) (c : Char) :
    Except Fault Stage :=
  let blank' := blank && Text.isBlank c
  match quote with
  | some q => .ok (.expression start depth (if c = q then none else some q) blank')
  | none =>
    if c = '\'' ∨ c = '"' then .ok (.expression start depth (some c) blank')
    else if c = '(' then .ok (.expression start (depth + 1) none blank')
    else if c = ')' then
      if 1 < depth then .ok (.expression start (depth - 1) none blank')
      else if blank then .error (.invalidBracket start)
      else .ok (.closedExpression start)
    else .ok (.expression start depth none blank')

/-- Judges the body of an index bracket: `*`, an index, a slice of two or three bounds that may be
left out, or a union of indices that blanks may surround. -/
def closeIndex (d : Dialect) (start : Nat) (body : List Char) : Except Fault Stage := do
  if body = ['*'] then
    d.allow start .wildcard
    return .between
  else if isUnsigned body then return .between
  else if ':' ∈ body then
    d.allow start .slice
    let bounds := body.splitOn ':'
    if bounds.length ≤ 3 ∧ bounds.all fun b => b.isEmpty || isSigned b then return .between
    else throw (.invalidBracket start)
  else if ',' ∈ body then
    d.allow start .union
    if (body.splitOn ',').all fun item => isSigned (Text.trim item) then return .between
    else throw (.invalidBracket start)
  else if isSigned body then
    d.allow start .negativeIndex
    return .between
  else throw (.invalidBracket start)

/-- The stage after one more character, which is at `position`. -/
def step (d : Dialect) (position : Nat) (c : Char) : Stage → Except Fault Stage
  | .between =>
    if c = '.' then .ok (.dot position)
    else if c = '[' then .ok (.bracket position)
    else .error (.unexpectedChar position c)
  | .dot start =>
    if c = '.' then do
      d.allow start .deepScan
      return .deepDot start
    else startName d start position c
  | .deepDot start => startName d start position c
  | .name start =>
    if c = '.' then .ok (.dot position)
    else if c = '[' then .ok (.bracket position)
    else if c = ']' ∨ Text.isBlank c then .error (.unexpectedChar position c)
    else .ok (.name start)
  | .bracket start => openBracket d start c
  | .quoted start quote isEmpty =>
    if c = quote then
      if isEmpty then .error (.emptySegment start) else .ok (.closedQuote start quote)
    else if c = '\\' then .ok (.escaped start quote)
    else .ok (.quoted start quote false)
  | .escaped start quote => .ok (.quoted start quote false)
  | .closedQuote start quote =>
    if c = ']' then .ok .between
    else if c = ',' then do
      d.allow start .union
      return .comma start quote
    else .error (.unexpectedChar position c)
  | .comma start quote =>
    if c = quote then .ok (.quoted start quote true) else .error (.invalidBracket start)
  | .question start =>
    if c = '(' then .ok (.expression start 1 none true) else .error (.invalidBracket start)
  | .expression start depth quote blank => expressionStep start depth quote blank c
  | .closedExpression start => if c = ']' then .ok .between else .error (.invalidBracket start)
  | .index start body =>
    if c = ']' then closeIndex d start body else .ok (.index start (body ++ [c]))

/-- Judges the end of the text. -/
def finish : Stage → Except Fault Unit
  | .between | .name _ => .ok ()
  | .dot start | .deepDot start => .error (.emptySegment start)
  | .bracket start | .quoted start _ _ | .escaped start _ | .closedQuote start _
  | .expression start _ _ _ | .index start _ => .error (.unterminatedBracket start)
  | .comma start _ | .question start | .closedExpression start => .error (.invalidBracket start)

end Stage

/-- The stage after the characters, the first of which is at `position`. -/
def scan (d : Dialect) (position : Nat) (stage : Stage) : List Char → Except Fault Stage
  | [] => .ok stage
  | c :: cs => do
    let next ← stage.step d position c
    scan d (position + c.utf8Size) next cs

/-- Checks a text that starts with the root marker. -/
def checkChars (d : Dialect) : List Char → Except Fault Unit
  | [] => .error .empty
  | c :: cs =>
    if c = '$' then do
      let last ← scan d 1 .between cs
      last.finish
    else .error .missingRoot

/-- Checks the syntax of a path. -/
def check (d : Dialect) (path : String) : Except Fault Unit := checkChars d path.toList

/-- Checks a path that may be absent; an absent path has no fault. -/
def checkOption (d : Dialect) : Option String → Except Fault Unit
  | some path => check d path
  | none => .ok ()

end Path

end Workflow

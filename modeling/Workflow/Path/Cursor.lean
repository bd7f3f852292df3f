import Workflow.Path.Scanner

/-!
# Reading a path at a cursor

The same paths, read segment by segment: a cursor moves over the text, and the characters behind it
decide what comes next. The cursor is a byte offset, and a part of a text is given by the offsets of
its two ends. Not every number is such an offset, so beside the faults of the text there are ways
for the reader itself to go wrong: it may ask for a part with ends in the wrong order or inside of a
character, lower a count that is zero, or go round a loop without end. In each of these cases it
gives nothing at all. A loop is taken to have no end once it has taken more turns than the text has
bytes.

What is done at the cursor is noted on the way, so that it can be spoken about.
-/

namespace Workflow

namespace Path

/-! ## Parts of a text -/

/-- What follows the first bytes of a text; nothing if they do not end with a character. -/
def dropBytes? : (bytes : Nat) → List Char → Option (List Char)
  | 0, cs => some cs
  | _ + 1, [] => none
  | bytes + 1, c :: cs =>
    if c.utf8Size ≤ bytes + 1 then dropBytes? (bytes + 1 - c.utf8Size) cs else none

/-- The first bytes of a text; nothing if they do not end with a character. -/
def takeBytes? : (bytes : Nat) → List Char → Option (List Char)
  | 0, _ => some []
  | _ + 1, [] => none
  | bytes + 1, c :: cs =>
    if c.utf8Size ≤ bytes + 1 then (takeBytes? (bytes + 1 - c.utf8Size) cs).map (c :: ·) else none

/-- The part of a text between two byte offsets; nothing if they are not in order or one of them is
not at the border of two characters. -/
def slice? (start stop : Nat) (text : List Char) : Option (List Char) :=
  if start ≤ stop then (dropBytes? start text).bind (takeBytes? (stop - start)) else none

/-! ## Readers -/

/-- Something that is done at a cursor. -/
inductive Act where
  /-- The cursor goes from one offset to another. -/
  | move (source target : Nat)
  /-- A part of the text is taken. -/
  | slice (start stop : Nat)
  /-- One is taken away from a number. -/
  | lower (count : Nat)
  /-- A loop goes round once more, after a turn from one offset to another. -/
  | turn (before after : Nat)
deriving DecidableEq, Repr

/-- A byte offset, and what has been done on the way to it. -/
structure Cursor where
  offset : Nat := 0
  acts : List Act := []
deriving DecidableEq, Repr

/-- Something that moves a cursor and comes to a result or a fault, or gives nothing at all. -/
abbrev Reader := ExceptT Fault (StateT Cursor Option)

/-- What a turn of a loop ends with. -/
inductive Turn (σ β : Type) where
  | again (state : σ)
  | leave (result : β)

namespace Reader

variable {α β σ : Type}

/-- What a reader comes to from a cursor. -/
def runAt (r : Reader α) (c : Cursor) : Option (Except Fault α × Cursor) := r.run.run c

/-- The value, if there is one. -/
def ofOption : Option α → Reader α
  | some a => pure a
  | none => ExceptT.mk fun _ => none

def note (a : Act) : Reader Unit := modify fun c => { c with acts := c.acts ++ [a] }

def offset : Reader Nat := return (← get).offset

def moveTo (target : Nat) : Reader Unit := do
  note (.move (← offset) target)
  modify fun c => { c with offset := target }

/-- Moves the cursor on by some bytes. -/
def advance (bytes : Nat) : Reader Unit := do moveTo ((← offset) + bytes)

def slice (text : List Char) (start stop : Nat) : Reader (List Char) := do
  note (.slice start stop)
  ofOption (slice? start stop text)

/-- One less; there is none below zero. -/
def lower (count : Nat) : Reader Nat := do
  note (.lower count)
  ofOption <| match count with
    | 0 => none
    | less + 1 => some less

/-- The text from the cursor on. -/
def rest (text : List Char) : Reader (List Char) := do slice text (← offset) (byteLength text)

/-- The character at the cursor. -/
def peek (text : List Char) : Reader (Option Char) := return (← rest text).head?

/-- Takes turns from a state on, until one leaves the loop or meets a fault; nothing if none of the
given number of turns does. -/
def loopFor (turn : σ → Reader (Turn σ β)) : (turns : Nat) → σ → Reader β
  | 0, _ => ofOption none
  | turns + 1, s => do
    let before ← offset
    match ← turn s with
    | .leave result => return result
    | .again next => do
      note (.turn before (← offset))
      loopFor turn turns next

/-- Takes turns from a state on, until one leaves the loop or meets a fault. -/
def loop (text : List Char) (turn : σ → Reader (Turn σ β)) (s : σ) : Reader β :=
  loopFor turn (byteLength text + 1) s

end Reader

/-! ## Segments -/

open Reader

variable (d : Dialect) (text : List Char)

/-- A turn over the characters of a name. -/
def nameTurn (_ : Unit) : Reader (Turn Unit Unit) := do
  match ← peek text with
  | none => return .leave ()
  | some c =>
    if c = '.' ∨ c = '[' then return .leave ()
    else if c = ']' ∨ Text.isBlank c then throw (.unexpectedChar (← offset) c)
    else do
      advance c.utf8Size
      return .again ()

/-- What follows the dots of a segment, which starts at `start`: `*` or a name. -/
def dottedWord (start : Nat) : Reader Unit := do
  if (← peek text) = some '*' then do
    ofExcept (d.allow (← offset) .wildcard)
    advance 1
  else do
    let nameStart ← offset
    loop text (nameTurn text) ()
    if (← offset) = nameStart then throw (.emptySegment start) else return ()

/-- `.name`, `.*`, `..name` or `..*`. -/
def dotSegment : Reader Unit := do
  let start ← offset
  if ['.', '.'].isPrefixOf (← rest text) then do
    ofExcept (d.allow start .deepScan)
    advance 2
    dottedWord d text start
  else do
    advance 1
    dottedWord d text start

/-- A turn over the characters of a quoted name, which leaves with the name if it is closed. -/
def quotedTurn (quote : Char) (start : Nat) (_ : Unit) :
    Reader (Turn Unit (Option (List Char))) := do
  match ← peek text with
  | none => return .leave none
  | some c =>
    if c = quote then do
      let name ← slice text start (← offset)
      advance 1
      return .leave (some name)
    else if c = '\\' then do
      advance 1
      match ← peek text with
      | none => return .leave none
      | some escaped =>
        advance escaped.utf8Size
        return .again ()
    else do
      advance c.utf8Size
      return .again ()

/-- A name between quotes. -/
def quotedName (bracket : Nat) (quote : Char) : Reader (List Char) := do
  advance 1
  let start ← offset
  match ← loop text (quotedTurn text quote start) () with
  | some name => return name
  | none => throw (.unterminatedBracket bracket)

/-- A turn over a quoted name and what follows it. -/
def unionTurn (bracket : Nat) (quote : Char) (_ : Unit) : Reader (Turn Unit Unit) := do
  let name ← quotedName text bracket quote
  if name.isEmpty then throw (.emptySegment bracket)
  else do
    match ← peek text with
    | none => throw (.unterminatedBracket bracket)
    | some c =>
      if c = ']' then do
        advance 1
        return .leave ()
      else if c = ',' then do
        ofExcept (d.allow bracket .union)
        advance 1
        if (← peek text) = some quote then return .again () else throw (.invalidBracket bracket)
      else throw (.unexpectedChar (← offset) c)

/-- A turn over the body of an expression, with the number of open parentheses and the quote that is
open. -/
def expressionTurn : Nat × Option Char → Reader (Turn (Nat × Option Char) Nat)
  | (depth, quote) => do
    match ← peek text with
    | none => return .leave depth
    | some c =>
      advance c.utf8Size
      match quote with
      | some q => return .again (depth, if c = q then none else some q)
      | none =>
        if c = '\'' ∨ c = '"' then return .again (depth, some c)
        else if c = '(' then return .again (depth + 1, none)
        else if c = ')' then do
          let less ← lower depth
          if less = 0 then return .leave 0 else return .again (less, none)
        else return .again (depth, none)

/-- An expression from its first parenthesis to the end of its bracket. -/
def expression (bracket : Nat) : Reader Unit := do
  advance 1
  let start ← offset
  let depth ← loop text (expressionTurn text) (1, none)
  if depth ≠ 0 then throw (.unterminatedBracket bracket)
  else do
    let body ← slice text start (← lower (← offset))
    if (Text.trim body).isEmpty then throw (.invalidBracket bracket)
    else if (← peek text) = some ']' then advance 1
    else throw (.invalidBracket bracket)

/-- What stands in a bracket of any other kind, to the end of the bracket. -/
def indexBody (bracket : Nat) : Reader Unit := do
  let start ← offset
  let ahead ← rest text
  if ']' ∈ ahead then do
    let stop := start + byteLength (ahead.takeWhile (· ≠ ']'))
    let body ← slice text start stop
    moveTo (stop + 1)
    let _ ← ofExcept (Stage.closeIndex d bracket body)
  else throw (.unterminatedBracket bracket)

def bracketSegment : Reader Unit := do
  let bracket ← offset
  advance 1
  match ← peek text with
  | none => throw (.unterminatedBracket bracket)
  | some c =>
    if c = ']' then throw (.emptySegment bracket)
    else if c = '\'' ∨ c = '"' then loop text (unionTurn d text bracket c) ()
    else if c = '?' then do
      ofExcept (d.allow bracket .filterExpression)
      advance 1
      if (← peek text) = some '(' then expression text bracket else throw (.invalidBracket bracket)
    else if c = '(' then do
      ofExcept (d.allow bracket .scriptExpression)
      expression text bracket
    else indexBody d text bracket

/-- A turn over one segment. -/
def segmentTurn (_ : Unit) : Reader (Turn Unit Unit) := do
  match ← peek text with
  | none => return .leave ()
  | some c =>
    if c = '.' then do
      dotSegment d text
      return .again ()
    else if c = '[' then do
      bracketSegment d text
      return .again ()
    else throw (.unexpectedChar (← offset) c)

/-- Reads a whole path. -/
def readPath : Reader Unit := do
  if text.isEmpty then throw .empty
  else if (← peek text) = some '$' then do
    advance 1
    loop text (segmentTurn d text) ()
  else throw .missingRoot

end Path

end Workflow

import Workflow.Yaml.Scalar

/-!
# YAML tokens

A text is cut into tokens character by character. What the text leaves to its layout becomes a token
too: where a collection that is laid out by indentation starts and ends, and where a key starts.
That a scalar or a pair of brackets is a key shows at the colon behind it; until then its tokens are
kept apart from those before.

Explicit keys, anchors, aliases, tags, block scalars and directives are outside the language.
-/

namespace Workflow

namespace Yaml

/-- A token of a document. -/
inductive Token where
  | scalar (plain : Bool) (text : String)
  | sequenceStart
  | mappingStart
  | collectionEnd
  | dash
  | key
  | colon
  | openBracket
  | closeBracket
  | openBrace
  | closeBrace
  | comma
  | documentStart
  | documentEnd
deriving DecidableEq, Repr

/-- A position in a text, and how many bytes lie before it. -/
structure Place where
  line : Nat := 0
  column : Nat := 0
  offset : Nat := 0

/-- The position after a character. -/
def Place.after (p : Place) (c : Char) : Place :=
  if c = '\n' then ⟨p.line + 1, 0, p.offset + 1⟩ else ⟨p.line, p.column + 1, p.offset + c.utf8Size⟩

/-- Where a key may have started, and whether it must have: a line in the column of an open
collection has to be an entry of it. -/
structure KeyStart where
  place : Place
  isRequired : Bool

/-- Whether a colon at a position may end the key, which is on one line and at most 1024 bytes
long. -/
def KeyStart.reaches (k : KeyStart) (p : Place) : Bool :=
  k.place.line = p.line && p.offset ≤ k.place.offset + 1024

/-- The tokens between two brackets, or outside all, the latest first: those before the last place
where a key may have started, and those since. -/
structure Level where
  before : List Token := []
  keyStart : Option KeyStart := none
  since : List Token := []

namespace Level

/-- All tokens, the latest first. -/
def tokens (l : Level) : List Token := l.since ++ l.before

/-- Adds a token. -/
def push (l : Level) (t : Token) : Level := { l with since := t :: l.since }

/-- Gives up that a key may have started, which must not be required. -/
def dropKey? (l : Level) : Option Level :=
  if l.keyStart.any (·.isRequired) then none else some { l with keyStart := none }

/-- Notes that a key may start here, and no longer before. -/
def startKey? (l : Level) (k : KeyStart) : Option Level :=
  l.dropKey?.map fun l => ⟨l.tokens, some k, []⟩

/-- Puts tokens in front of what has been read since a key started. -/
def insert (l : Level) (ts : List Token) : Level := ⟨l.since ++ (ts.reverse ++ l.before), none, []⟩

end Level

/-- What is being read. -/
inductive Mode where
  | between
  | comment
  | marker
  | plain (draft : Draft)
  | quoted (scalar : Quoted)

/-- A text as far as it has been read. `columns` are those of the open collections that are laid out
by indentation, and `outer` are the levels around the brackets, the innermost first. -/
structure Lexer where
  place : Place := {}
  columns : List Nat := []
  level : Level := {}
  outer : List Level := []
  keyAllowed : Bool := true
  mode : Mode := .between

namespace Lexer

/-- Whether a bracket is open. Inside brackets indentation does not count. -/
def inBrackets (s : Lexer) : Bool := !s.outer.isEmpty

/-- The least column where a plain scalar goes on in a further line. -/
def floor (s : Lexer) : Nat := s.columns.head?.elim 0 (· + 1)

/-- Whether a collection that starts in a column is inside those that are open. -/
def isDeeper (s : Lexer) (column : Nat) : Bool := s.columns.head?.all (· < column)

/-- Ends the open collections, from the innermost on, as long as their columns pass a test. -/
def closeWhile (s : Lexer) (isOver : Nat → Bool) : Lexer :=
  { s with
    columns := s.columns.dropWhile isOver
    level := (s.columns.takeWhile isOver).foldl (fun l _ => l.push .collectionEnd) s.level }

/-- Notes that a key may start here, if it may. -/
def startKey? (s : Lexer) : Option Lexer :=
  if s.keyAllowed then
    let isRequired := !s.inBrackets && s.columns.head? = some s.place.column
    (s.level.startKey? ⟨s.place, isRequired⟩).map fun level => { s with level }
  else some s

/-- Starts a scalar. -/
def startScalar? (s : Lexer) (mode : Mode) : Option Lexer :=
  s.startKey?.map fun s => { s with keyAllowed := false, mode }

/-- Ends a scalar. -/
def endScalar (s : Lexer) (plain : Bool) (text : String) : Lexer :=
  { s with level := s.level.push (.scalar plain text), mode := .between }

/-- Ends a plain scalar. If further lines have been looked at, a key may start. -/
def endPlain (s : Lexer) (draft : Draft) : Lexer :=
  { s.endScalar true draft.trimmed with keyAllowed := draft.gap.isBroken }

/-- Reads an opening bracket. -/
def openBracket? (s : Lexer) (t : Token) : Option Lexer :=
  s.startKey?.map fun s =>
    { s with level := {}, outer := s.level.push t :: s.outer, keyAllowed := true }

/-- Reads a closing bracket. -/
def closeBracket? (s : Lexer) (t : Token) : Option Lexer :=
  match s.outer with
  | [] => none
  | level :: outer =>
    let level := { level with since := t :: (s.level.tokens ++ level.since) }
    some { s with level, outer, keyAllowed := false }

/-- Reads a comma. -/
def comma? (s : Lexer) : Option Lexer :=
  if s.inBrackets then
    s.level.dropKey?.map fun level => { s with level := level.push .comma, keyAllowed := true }
  else none

/-- Reads the dash of an item. -/
def dash? (s : Lexer) : Option Lexer := do
  let column := s.place.column
  if s.inBrackets || !s.keyAllowed then none
  else
    let opens := s.isDeeper column
    let level ← (if opens then s.level.push .sequenceStart else s.level).dropKey?
    let columns := if opens then column :: s.columns else s.columns
    return { s with columns, level := level.push .dash, keyAllowed := true }

/-- Reads a colon, which makes a key of what has been read since one may have started. -/
def colon? (s : Lexer) : Option Lexer := do
  let start ← s.level.keyStart
  if start.reaches s.place then
    let column := start.place.column
    let opens := !s.inBrackets && s.isDeeper column
    let columns := if opens then column :: s.columns else s.columns
    let level := s.level.insert (if opens then [.mappingStart, .key] else [.key])
    return { s with columns, level := level.push .colon, keyAllowed := false }
  else none

/-- Reads the first character of a document marker, which ends all collections. -/
def marker? (s : Lexer) (t : Token) : Option Lexer :=
  if s.inBrackets then none
  else
    let s := s.closeWhile fun _ => true
    s.level.dropKey?.map fun level =>
      { s with level := level.push t, keyAllowed := false, mode := .marker }

/-- Reads the first character of a token. -/
def token? (s : Lexer) (c : Char) (ahead : List Char) : Option Lexer :=
  let s := if s.inBrackets then s else s.closeWhile (s.place.column < ·)
  if s.place.column = 0 && isMarker (c :: ahead) then
    s.marker? (if c = '-' then .documentStart else .documentEnd)
  else if c = '[' then s.openBracket? .openBracket
  else if c = '{' then s.openBracket? .openBrace
  else if c = ']' then s.closeBracket? .closeBracket
  else if c = '}' then s.closeBracket? .closeBrace
  else if c = ',' then s.comma?
  else if c = '-' && endsToken ahead then s.dash?
  else if c = ':' && (s.inBrackets || endsToken ahead) then s.colon?
  else if c = '\'' || c = '"' then s.startScalar? (.quoted ⟨c, {}, .text⟩)
  else if startsPlain s.inBrackets (c :: ahead) then s.startScalar? (.plain (({} : Draft).add c))
  else none

/-- Whether a character between tokens is passed over. A tab may not stand where a key may. -/
def skips (s : Lexer) (c : Char) : Bool :=
  c = ' ' || (c = '\t' && (s.inBrackets || !s.keyAllowed)) ||
    (c = byteOrderMark && s.place.column = 0)

/-- Reads a character between tokens. Outside brackets, a key may start in a new line. -/
def between? (s : Lexer) (c : Char) (ahead : List Char) : Option Lexer :=
  if c = '\n' then some { s with keyAllowed := s.keyAllowed || !s.inBrackets, mode := .between }
  else if c = '#' then some { s with mode := .comment }
  else if s.skips c then some { s with mode := .between }
  else s.token? c ahead

/-- Whether a plain scalar ends before a character that is not blank. -/
def endsPlain (s : Lexer) (draft : Draft) (c : Char) (ahead : List Char) : Bool :=
  (draft.gap.isBroken && !s.inBrackets && s.place.column < s.floor) ||
    (s.place.column = 0 && isMarker (c :: ahead)) ||
    (c = '#' && !draft.gap.isEmpty) ||
    (c = ':' && endsToken ahead) ||
    (s.inBrackets && isFlowIndicator c)

/-- Reads a character in or after a plain scalar. A tab may not indent a further line, and in
brackets a colon may not stand right before another indicator. -/
def plain? (s : Lexer) (draft : Draft) (c : Char) (ahead : List Char) : Option Lexer :=
  if c = '\n' || isBlank c then
    if c = '\t' && draft.gap.isBroken && s.place.column < s.floor then none
    else some { s with mode := .plain (draft.pass c) }
  else if s.endsPlain draft c ahead then (s.endPlain draft).between? c ahead
  else if s.inBrackets && c = ':' && ahead.head?.any fun d => isFlowIndicator d || d = '?' then none
  else some { s with mode := .plain (draft.add c) }

/-- Reads a character inside quotes, where no document marker may stand. -/
def quoted? (s : Lexer) (q : Quoted) (c : Char) (ahead : List Char) : Option Lexer :=
  if s.place.column = 0 && isMarker (c :: ahead) then none
  else if q.endsWith c ahead then some (s.endScalar false q.draft.whole)
  else (q.step? c).map fun q => { s with mode := .quoted q }

/-- Reads one character, with sight of those ahead. -/
def step? (s : Lexer) (c : Char) (ahead : List Char) : Option Lexer :=
  let next? := match s.mode with
    | .between => s.between? c ahead
    | .comment => if c = '\n' then s.between? c ahead else some s
    | .marker => if endsToken (c :: ahead) then s.between? c ahead else some s
    | .plain draft => s.plain? draft c ahead
    | .quoted q => s.quoted? q c ahead
  next?.map fun next => { next with place := s.place.after c }

/-- The tokens of a text that ends here, where no bracket or quote may be open. -/
def finish? (s : Lexer) : Option (List Token) :=
  let closed (s : Lexer) :=
    if s.inBrackets then none
    else (s.closeWhile fun _ => true).level.dropKey?.map fun level => level.tokens.reverse
  match s.mode with
  | .between | .comment | .marker => closed s
  | .plain draft => closed (s.endPlain draft)
  | .quoted _ => none

/-- The tokens of a text after reading the rest of it. -/
def run? (s : Lexer) : List Char → Option (List Token)
  | [] => s.finish?
  | c :: cs => (s.step? c cs).bind fun next => next.run? cs

end Lexer

/-- The tokens of a text whose line breaks are line feeds. -/
def tokens? (cs : List Char) : Option (List Token) := ({} : Lexer).run? cs

end Yaml

end Workflow

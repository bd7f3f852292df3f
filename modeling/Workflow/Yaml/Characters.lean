/-!
# YAML characters

The classes of characters that the layout of a document depends on. Texts are read with every line
break written as a line feed.
-/

namespace Workflow

namespace Yaml

/-- Whether a character may stand in a document. -/
def isPrintable (c : Char) : Bool :=
  let n := c.toNat
  n = 0x09 || n = 0x0A || n = 0x0D || (0x20 ≤ n && n ≤ 0x7E) || n = 0x85 ||
    (0xA0 ≤ n && n ≤ 0xFFFD) || 0x10000 ≤ n

/-- The text with every line break written as a line feed. -/
def normalizeBreaks : List Char → List Char
  | '\r' :: '\n' :: cs => '\n' :: normalizeBreaks cs
  | c :: cs =>
    (if c ∈ ['\r', '\u0085', '\u2028', '\u2029'] then '\n' else c) :: normalizeBreaks cs
  | [] => []

/-- The mark that may stand in front of a line, and says nothing. -/
def byteOrderMark : Char := '\uFEFF'

def isBlank (c : Char) : Bool := c = ' ' || c = '\t'

/-- Whether a token may end here: a blank, a line break or the end of the text follows. -/
def endsToken : List Char → Bool
  | [] => true
  | c :: _ => isBlank c || c = '\n'

/-- Whether a document marker starts here, `---` or `...`, if a line does. -/
def isMarker : List Char → Bool
  | '-' :: '-' :: '-' :: rest => endsToken rest
  | '.' :: '.' :: '.' :: rest => endsToken rest
  | _ => false

/-- The characters that end a plain scalar in brackets. -/
def isFlowIndicator (c : Char) : Bool := c ∈ [',', '[', ']', '{', '}']

/-- The characters that have another meaning than to start a plain scalar. -/
def isIndicator (c : Char) : Bool :=
  isFlowIndicator c ||
    c ∈ ['-', '?', ':', '#', '&', '*', '!', '|', '>', '\'', '"', '%', '@', '\x60']

/-- Whether a plain scalar starts here, in brackets or outside. -/
def startsPlain (inBrackets : Bool) : List Char → Bool
  | [] => false
  | c :: rest =>
    !(isIndicator c || isBlank c || c = '\n') || (c = '-' && !endsToken rest) ||
      (!inBrackets && (c = '?' || c = ':') && !endsToken rest)

end Yaml

end Workflow

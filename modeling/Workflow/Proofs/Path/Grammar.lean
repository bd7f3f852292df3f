import Workflow.Path.Scanner

/-!
# The grammar of paths

What a path looks like, without the reader: `$` and then segments, each of a
shape of its own. The shapes are data (`Segment`), a segment has one text, and
what must hold of its parts is a predicate beside it. Whether a text is a path
is then whether it is the text of well-formed segments (`Written`); a
reference path keeps to the segments that select one place (`Plain`).

The reader sums up in one stage what it has read of a segment. Nothing of that
is used here, so `Written` is what the reader is judged by.
-/

namespace Workflow

namespace Path

/-- A segment of a path. -/
inductive Segment where
  /-- `.name`, or `..name` if it is deep. -/
  | name (deep : Bool) (word : List Char)
  /-- `.*`, or `..*` if it is deep. -/
  | wildcard (deep : Bool)
  /-- `['a']` or `['a','b']`, with either quote. -/
  | quoted (quote : Char) (bodies : List (List Char))
  /-- `[?(body)]` if it is a filter, else `[(body)]`. -/
  | expression (filter : Bool) (body : List Char)
  /-- `[*]`. -/
  | all
  /-- `[0]`, or `[-1]` if it counts from the end. -/
  | index (negative : Bool) (digits : List Char)
  /-- `[1:5]` or `[::2]`. -/
  | slice (bounds : List (List Char))
  /-- `[0,2]`. -/
  | union (items : List (List Char))

/-- A body between quotes. -/
def quote (q : Char) (body : List Char) : List Char := q :: (body ++ [q])

/-- The dots in front of a name. -/
def dots (deep : Bool) : List Char := if deep then ['.', '.'] else ['.']

/-- The sign in front of an index. -/
def sign (negative : Bool) : List Char := if negative then ['-'] else []

/-- What stands in front of the parenthesis of an expression. -/
def mark (filter : Bool) : List Char := if filter then ['?'] else []

/-- A text in brackets. -/
def bracketed (body : List Char) : List Char := '[' :: (body ++ [']'])

/-- The text of a segment. -/
def Segment.text : Segment → List Char
  | .name deep word => dots deep ++ word
  | .wildcard deep => dots deep ++ ['*']
  | .quoted q bodies => bracketed ([','].intercalate (bodies.map (quote q)))
  | .expression filter body => bracketed (mark filter ++ '(' :: (body ++ [')']))
  | .all => bracketed ['*']
  | .index negative digits => bracketed (sign negative ++ digits)
  | .slice bounds => bracketed ([':'].intercalate bounds)
  | .union items => bracketed ([','].intercalate items)

/-- A character that a name may hold. -/
def NameChar (c : Char) : Prop :=
  c ≠ '.' ∧ c ≠ '[' ∧ c ≠ ']' ∧ Text.isBlank c = false

/-- What may stand between quotes: a backslash takes the next character along,
whichever it is, and the quote itself stands nowhere else. -/
inductive QuotedBody (q : Char) : List Char → Prop
  | nil : QuotedBody q []
  | escape {body : List Char} (c : Char) :
      QuotedBody q body → QuotedBody q ('\\' :: c :: body)
  | plain {body : List Char} {c : Char} :
      c ≠ q → c ≠ '\\' → QuotedBody q body → QuotedBody q (c :: body)

/-- How many parentheses are open and which quote is, one character later.
Parentheses count outside quotes only, and inside them a backslash stands for
itself. -/
def nest : Nat × Option Char → Char → Nat × Option Char
  | (depth, some q), c => (depth, if c = q then none else some q)
  | (depth, none), c =>
    if c = '\'' ∨ c = '"' then (depth, some c)
    else if c = '(' then (depth + 1, none)
    else if c = ')' then (depth - 1, none)
    else (depth, none)

/-- How many parentheses are open after a text. -/
def openAfter (start : Nat × Option Char) (cs : List Char) : Nat :=
  (cs.foldl nest start).1

/-- The parenthesis after the body is the first one to close what was open
before it. -/
def Closes (start : Nat × Option Char) (body : List Char) : Prop :=
  (∀ part, part <+: body → openAfter start part ≠ 0) ∧
    openAfter start (body ++ [')']) = 0

/-- One or more ASCII digits. -/
def Digits (cs : List Char) : Prop :=
  cs ≠ [] ∧ ∀ c ∈ cs, '0' ≤ c ∧ c ≤ '9'

/-- Digits, perhaps after a minus. -/
def Signed (cs : List Char) : Prop :=
  ∃ negative digits, cs = sign negative ++ digits ∧ Digits digits

/-- A number that blanks may surround. -/
def Padded (cs : List Char) : Prop :=
  ∃ before number after, cs = before ++ number ++ after ∧ Signed number ∧
    (∀ c ∈ before, Text.isBlank c = true) ∧
    ∀ c ∈ after, Text.isBlank c = true

namespace Segment

/-- What must hold of the parts of a segment. -/
def WellFormed : Segment → Prop
  | .name _ word =>
    word ≠ [] ∧ word.head? ≠ some '*' ∧ ∀ c ∈ word, NameChar c
  | .wildcard _ => True
  | .quoted q bodies =>
    (q = '\'' ∨ q = '"') ∧ bodies ≠ [] ∧
      ∀ body ∈ bodies, body ≠ [] ∧ QuotedBody q body
  | .expression _ body =>
    Closes (1, none) body ∧ ∃ c ∈ body, Text.isBlank c = false
  | .all => True
  | .index _ digits => Digits digits
  | .slice bounds =>
    (bounds.length = 2 ∨ bounds.length = 3) ∧
      ∀ bound ∈ bounds, bound = [] ∨ Signed bound
  | .union items => 2 ≤ items.length ∧ ∀ item ∈ items, Padded item

/-- The segment selects one place: a name, one quoted name or an index from
the front. -/
def Plain : Segment → Prop
  | .name deep _ => deep = false
  | .quoted _ bodies => bodies.length = 1
  | .index negative _ => negative = false
  | .wildcard _ | .expression .. | .all | .slice _ | .union _ => False

/-- The dialect has this segment. -/
def Allowed (d : Dialect) (s : Segment) : Prop := d = .reference → s.Plain

theorem allowed_general (s : Segment) : s.Allowed .general := by
  intro h
  cases h

theorem Allowed.eq_general {d : Dialect} {s : Segment} (h : s.Allowed d)
    (hplain : ¬ s.Plain) : d = .general := by
  cases d with
  | general => rfl
  | reference => exact absurd (h rfl) hplain

end Segment

/-- The text is a path of the dialect: the root and the texts of well-formed
segments that the dialect has. -/
def Written (d : Dialect) (path : String) : Prop :=
  ∃ segments : List Segment,
    (∀ s ∈ segments, s.WellFormed ∧ s.Allowed d) ∧
      path.toList = '$' :: segments.flatMap Segment.text

end Path

end Workflow

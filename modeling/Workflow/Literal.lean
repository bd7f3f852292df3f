import Workflow.Double.Shortest

/-!
# Literals

JSON values as they stand in a definition: the result a Pass state injects and the value a
comparison expects. A number is either a whole number of 64 bits or a finite double, and the two
kinds never equal each other (`1` is not `1.0`). Objects compare as finite maps: the order of their
keys does not count, and of a repeated key the last value does.
-/

namespace Workflow

/-- A JSON number. -/
inductive Number where
  | whole (value : Int)
  | double (value : Double.Finite)
deriving DecidableEq

namespace Number

/-- The whole numbers kept exactly: those of 64 bits, with a sign or without. -/
def isExact (n : Int) : Bool := -9223372036854775808 ≤ n && n < 18446744073709551616

/-- The number that a JSON number text stands for. It is a double if the text has a point or an
exponent, if it is out of the exact range, or if it is minus zero. -/
def ofText? (s : String) : Option Number := do
  let cs := s.toList
  let decimal ← Decimal.read? cs
  let value := if decimal.negative then -(decimal.digits : Int) else decimal.digits
  let plain := cs.all fun c => c.isDigit || c = '-'
  if plain && isExact value && !(decimal.negative && decimal.digits = 0) then
    some (.whole value)
  else
    match decimal.toDouble with
    | .finite x => some (.double x)
    | _ => none

/-- The JSON text of a number; a double keeps a point. -/
def text : Number → String
  | .whole n => toString n
  | .double x =>
    let cs := x.text
    String.ofList (if '.' ∈ cs then cs else cs ++ ['.', '0'])

/-- The number with the sign of a zero removed, so that equal numbers are the same value. -/
def normal : Number → Number
  | .whole n => .whole n
  | .double x => .double (if x.isZero then .zero false else x)

end Number

/-- A JSON value. -/
inductive Literal where
  | null
  | bool (value : Bool)
  | number (value : Number)
  | string (value : String)
  | array (items : List Literal)
  | object (members : List (String × Literal))

namespace Literal

/-- Adds a member in front, in key order, unless the key is already there. -/
def insertMember (key : String) (value : Literal) :
    List (String × Literal) → List (String × Literal)
  | [] => [(key, value)]
  | (k, v) :: rest =>
    if key = k then (k, v) :: rest
    else if key < k then (key, value) :: (k, v) :: rest
    else (k, v) :: insertMember key value rest

mutual

/-- The same value with every object's keys sorted, each with the last of its values, and with zeros
without sign. -/
def normal : Literal → Literal
  | .number n => .number n.normal
  | .array items => .array (normalItems items)
  | .object members => .object (normalMembers members)
  | .null => .null
  | .bool b => .bool b
  | .string s => .string s

/-- The items in normal form. -/
def normalItems : List Literal → List Literal
  | [] => []
  | item :: rest => item.normal :: normalItems rest

/-- The members in normal form. -/
def normalMembers : List (String × Literal) → List (String × Literal)
  | [] => []
  | (key, value) :: rest => insertMember key value.normal (normalMembers rest)

end

mutual

/-- Whether two values are built alike, member for member. -/
def same : Literal → Literal → Bool
  | .null, .null => true
  | .bool a, .bool b => a == b
  | .number a, .number b => a == b
  | .string a, .string b => a == b
  | .array as, .array bs => sameItems as bs
  | .object as, .object bs => sameMembers as bs
  | _, _ => false

/-- Whether two lists of items are built alike. -/
def sameItems : List Literal → List Literal → Bool
  | [], [] => true
  | a :: as, b :: bs => a.same b && sameItems as bs
  | _, _ => false

/-- Whether two lists of members are built alike. -/
def sameMembers : List (String × Literal) → List (String × Literal) → Bool
  | [], [] => true
  | (k, a) :: as, (l, b) :: bs => k == l && a.same b && sameMembers as bs
  | _, _ => false

end

/-- Equality of JSON values. -/
def equal (a b : Literal) : Bool := a.normal.same b.normal

instance : BEq Literal := ⟨equal⟩

def isNull : Literal → Bool
  | .null => true
  | _ => false

end Literal

end Workflow

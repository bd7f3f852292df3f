/-!
# YAML nodes

The content of a YAML document: scalars, sequences and mappings. A scalar keeps whether it was
written plain, since only a plain scalar can stand for a number or a truth value.
-/

namespace Workflow

namespace Yaml

/-- A node of a document. -/
inductive Node where
  | scalar (plain : Bool) (text : String)
  | sequence (items : List Node)
  | mapping (entries : List (Node × Node))

namespace Node

/-- The node of a place where nothing is written. -/
def empty : Node := .scalar true ""

/-- The text of a scalar. -/
def text? : Node → Option String
  | .scalar _ text => some text
  | .sequence _ | .mapping _ => none

/-- The text of a plain scalar. -/
def plainText? : Node → Option String
  | .scalar true text => some text
  | .scalar false _ | .sequence _ | .mapping _ => none

/-- The truth value that a node stands for. -/
def bool? (n : Node) : Option Bool :=
  match n.plainText? with
  | some "true" => some true
  | some "True" => some true
  | some "TRUE" => some true
  | some "false" => some false
  | some "False" => some false
  | some "FALSE" => some false
  | _ => none

/-- The value of a digit in the given base. -/
def digitIn? (base : Nat) (c : Char) : Option Nat :=
  let value :=
    if c.isDigit then c.toNat - '0'.toNat
    else if 'a' ≤ c ∧ c ≤ 'f' then c.toNat - 'a'.toNat + 10
    else if 'A' ≤ c ∧ c ≤ 'F' then c.toNat - 'A'.toNat + 10
    else base
  if value < base then some value else none

/-- The number that one or more digits write in the given base. -/
def numberIn? (base : Nat) (cs : List Char) : Option Nat :=
  if cs.isEmpty then none
  else cs.foldlM (fun n c => (digitIn? base c).map (base * n + ·)) 0

/-- The number that a text writes: an optional plus, then decimal digits without a leading zero, or
digits of base 16, 8 or 2 after `0x`, `0o` or `0b`. -/
def unsigned? (cs : List Char) : Option Nat :=
  let digits := match cs with
    | '+' :: rest => rest
    | _ => cs
  match digits with
  | '0' :: 'x' :: rest => numberIn? 16 rest
  | '0' :: 'o' :: rest => numberIn? 8 rest
  | '0' :: 'b' :: rest => numberIn? 2 rest
  | ['0'] => some 0
  | '0' :: _ => none
  | _ => numberIn? 10 digits

/-- The number, without a sign, that a node stands for. -/
def unsignedValue? (n : Node) : Option Nat := n.plainText?.bind fun s => unsigned? s.toList

end Node

end Yaml

end Workflow

import Workflow.Double.Basic

/-!
# Decimal text

Reading a number written in decimal, with an optional sign, point and exponent, as the exact value
`digits * 10 ^ exponent`, and rounding that value to the nearest double.
-/

namespace Workflow

/-- The exact value of a decimal text: `digits * 10 ^ exponent` with a sign. -/
structure Decimal where
  negative : Bool
  digits : Nat
  exponent : Int
deriving DecidableEq, Repr

namespace Decimal

/-- The whole number that the digits write in base ten, after those already read. -/
def digitsValue (cs : List Char) : Nat :=
  cs.foldl (fun n c => 10 * n + (c.toNat - '0'.toNat)) 0

/-- An optional sign: whether it is a minus, and what follows. -/
def takeSign : List Char → Bool × List Char
  | '-' :: cs => (true, cs)
  | '+' :: cs => (false, cs)
  | cs => (false, cs)

/-- An exponent with nothing after it; an empty text stands for exponent zero. -/
def readExponent? : List Char → Option Int
  | [] => some 0
  | c :: cs =>
    if c = 'e' ∨ c = 'E' then
      let (negative, ds) := takeSign cs
      if ds ≠ [] ∧ ds.all Char.isDigit then
        some (if negative then -(digitsValue ds : Int) else digitsValue ds)
      else none
    else none

/-- Digits with at most one point among them, at least one digit in all, then an exponent. -/
def readMagnitude? (negative : Bool) (cs : List Char) : Option Decimal := do
  let whole := cs.takeWhile Char.isDigit
  let (fraction, rest) :=
    match cs.dropWhile Char.isDigit with
    | '.' :: rest => (rest.takeWhile Char.isDigit, rest.dropWhile Char.isDigit)
    | rest => ([], rest)
  if whole = [] ∧ fraction = [] then none
  else
    let exponent ← readExponent? rest
    some ⟨negative, digitsValue (whole ++ fraction), exponent - fraction.length⟩

/-- The value of a decimal text with an optional sign. -/
def read? (cs : List Char) : Option Decimal :=
  let (negative, rest) := takeSign cs
  readMagnitude? negative rest

/-- The nearest double. A value of `10 ^ 400` and more, or below `10 ^ -400`, is told from its size
alone. -/
def toDouble (d : Decimal) : Double :=
  if d.digits = 0 then .finite (.zero d.negative)
  else if 400 ≤ d.exponent then .infinity d.negative
  else if d.exponent + d.digits.log2 + 1 < -400 then .finite (.zero d.negative)
  else
    .ofRatio d.negative (d.digits * Nat.pow 10 d.exponent.toNat) (Nat.pow 10 (-d.exponent).toNat)

end Decimal

namespace Double

/-- The number that a text writes: decimal text, or the name of an infinity or a NaN in letters of
any case. -/
def ofText? (s : String) : Option Double :=
  let (negative, rest) := Decimal.takeSign s.toList
  match String.ofList (rest.map Char.toLower) with
  | "nan" => some .nan
  | "inf" => some (.infinity negative)
  | "infinity" => some (.infinity negative)
  | _ => (Decimal.readMagnitude? negative rest).map Decimal.toDouble

end Double

end Workflow

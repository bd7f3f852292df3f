import Workflow.Double.Decimal

/-!
# Shortest decimal text

A finite double is written with the fewest digits that read back as the same double, and of those
with the digits nearest to its exact value; an exact tie goes up. The text never has an exponent.

The decimals that read back form an interval around the value, its ends included iff the mantissa is
even. Of all grids of multiples of a power of ten, the coarsest one with a point in that interval
gives the fewest digits, and if a grid has such a point, one of the value's two neighbours on the
grid is one.
-/

namespace Workflow

namespace Double.Finite

/-- The lower end of the interval, in quarters of the distance `2 ^ exponent` between neighbours;
the value itself is `4 * mantissa` of them. Below a power of two the neighbour is nearer. -/
def low (x : Finite) : Nat :=
  if x.mantissa = Nat.pow 2 52 ∧ x.exponent ≠ 0 then 4 * x.mantissa - 1 else 4 * x.mantissa - 2

/-- The upper end of the interval, in the same quarters. -/
def high (x : Finite) : Nat := 4 * x.mantissa + 2

/-- The length of a quarter in a measure where a step of the grid `10 ^ power` is whole too. -/
def quarter (x : Finite) (power : Int) : Nat := Nat.pow 2 x.exponent * Nat.pow 10 (-power).toNat

/-- The length of a step of the grid `10 ^ power` in the same measure. -/
def step (power : Int) : Nat := Nat.pow 10 power.toNat * (4 * unitsPerOne)

/-- Whether the grid point `d * 10 ^ power` reads back as `x`. -/
def readsBack (x : Finite) (power : Int) (d : Nat) : Bool :=
  let point := d * step power
  let low := x.low * x.quarter power
  let high := x.high * x.quarter power
  if x.mantissa % 2 = 0 then low ≤ point && point ≤ high else low < point && point < high

/-- The grid point of `10 ^ power` nearest to `x` that reads back as `x`, if there is one. -/
def nearestOnGrid? (x : Finite) (power : Int) : Option Nat :=
  let value := 4 * x.mantissa * x.quarter power
  let below := value / step power
  let above := below + 1
  match x.readsBack power below, x.readsBack power above with
  | true, true =>
    if value - below * step power < above * step power - value then some below else some above
  | true, false => some below
  | false, true => some above
  | false, false => none

/-- The first grid, from `10 ^ power` down through `fuel` of them, with a point that reads back. -/
def coarsestGrid (x : Finite) : (fuel : Nat) → (power : Int) → Nat × Int
  | 0, power => (0, power)
  | fuel + 1, power =>
    match x.nearestOnGrid? power with
    | some d => (d, power)
    | none => x.coarsestGrid fuel (power - 1)

/-- The digits and the power of ten of the shortest decimal of a value that is not zero. No double
reaches `10 ^ 309`, and each one is a multiple of `10 ^ -1074`. -/
def shortest (x : Finite) : Nat × Int :=
  x.coarsestGrid (309 + 1074 + 1) 309

end Double.Finite

/-- The decimal `digits * 10 ^ power` written without an exponent. -/
def positional (digits : Nat) (power : Int) : List Char :=
  let ds := Nat.toDigits 10 digits
  if 0 ≤ power then ds ++ List.replicate power.toNat '0'
  else
    let places := (-power).toNat
    let padded := List.replicate (places + 1 - ds.length) '0' ++ ds
    padded.take (padded.length - places) ++ '.' :: padded.drop (padded.length - places)

namespace Double

/-- The text of a finite double. -/
def Finite.text (x : Finite) : List Char :=
  let magnitude :=
    if x.isZero then ['0']
    else let (digits, power) := x.shortest; positional digits power
  if x.negative then '-' :: magnitude else magnitude

/-- The text of a double; a NaN is written without its sign. -/
def toText : Double → String
  | .nan => "NaN"
  | .infinity negative => if negative then "-inf" else "inf"
  | .finite x => String.ofList x.text

example : (Double.ofText? "0.10000000000000001").map toText = some "0.1" := by decide +kernel
example : (Double.ofText? "1.50").map toText = some "1.5" := by decide +kernel
example : (Double.ofText? "-0").map toText = some "-0" := by decide +kernel

end Double

end Workflow

/-!
# Double-precision numbers

The values of the 64-bit binary floating-point format, without its bit patterns: a finite value is a
sign and a whole number of units `2 ^ -1074`, the distance between the smallest values. Comparison
is that of the format: a NaN equals nothing, and the two zeros equal each other.
-/

namespace Workflow

namespace Double

/-- The number of units `2 ^ -1074` in one. -/
def unitsPerOne : Nat := Nat.pow 2 1074

/-- A finite value, `mantissa * 2 ^ exponent` units with a sign. The bounds give every value one
representation, the two zeros apart. -/
structure Finite where
  negative : Bool
  mantissa : Nat
  exponent : Nat
  mantissa_lt : mantissa < Nat.pow 2 53
  exponent_le : exponent ≤ 2045
  normal : exponent = 0 ∨ Nat.pow 2 52 ≤ mantissa
deriving DecidableEq

namespace Finite

/-- The size of the value, in units. -/
def units (x : Finite) : Nat := x.mantissa * Nat.pow 2 x.exponent

def isZero (x : Finite) : Bool := x.mantissa == 0

/-- Equality of values: the sign of a zero does not count. -/
def equal (x y : Finite) : Bool := (x.isZero && y.isZero) || x == y

def zero (negative : Bool) : Finite :=
  ⟨negative, 0, 0, by decide, by decide, .inl rfl⟩

end Finite

end Double

/-- A double-precision number. -/
inductive Double where
  | nan
  | infinity (negative : Bool)
  | finite (value : Double.Finite)
deriving DecidableEq

namespace Double

/-- Equality of the format. -/
def equal : Double → Double → Bool
  | .infinity s, .infinity t => s == t
  | .finite x, .finite y => x.equal y
  | _, _ => false

instance : BEq Double := ⟨equal⟩

/-- Whether the number is one or more; a NaN is not. -/
def atLeastOne : Double → Bool
  | .nan => false
  | .infinity negative => !negative
  | .finite x => !x.negative && unitsPerOne ≤ x.units

/-- The whole number nearest to `num / den`, of two equally near ones the even one. -/
def roundHalfEven (num den : Nat) : Nat :=
  let floor := num / den
  let twice := 2 * (num % den)
  if twice < den then floor
  else if den < twice then floor + 1
  else floor + floor % 2

/-- The double nearest to `num / den`, ties to the even mantissa; past the largest finite value the
infinity. -/
def ofRatio (negative : Bool) (num den : Nat) : Double :=
  let scaled := num * unitsPerOne
  let exponent := (scaled / den).log2 - 52
  let mantissa := roundHalfEven scaled (den * Nat.pow 2 exponent)
  let (mantissa, exponent) :=
    if mantissa = Nat.pow 2 53 then (Nat.pow 2 52, exponent + 1) else (mantissa, exponent)
  if h : mantissa < Nat.pow 2 53 ∧ exponent ≤ 2045 ∧ (exponent = 0 ∨ Nat.pow 2 52 ≤ mantissa) then
    .finite ⟨negative, mantissa, exponent, h.1, h.2.1, h.2.2⟩
  else
    .infinity negative

/-- The double nearest to a whole number. -/
def ofNat (n : Nat) : Double := ofRatio false n 1

end Double

end Workflow

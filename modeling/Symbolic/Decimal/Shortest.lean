import Symbolic.Decimal.Binary
import Symbolic.Decimal.Digits

/-!
# Shortest decimal fractions

Every finite double is written with the fewest decimal digits that read back as
the same double.  On the grid of decimals with `count` significant digits only
the two neighbours of the exact value can be the right ones, the nearer one
being tried first.  If no grid of up to seventeen digits had a hit, the exact
decimal expansion would still read back.
-/

namespace Symbolic
namespace Decimal

/-- The decimal fraction `coefficient * 10 ^ exponent`. -/
structure Fraction where
  coefficient : Nat
  exponent : Int
deriving DecidableEq

namespace Fraction

/-- The bit pattern of the double nearest to a decimal fraction.  Fractions far
outside the range of doubles are settled by their number of digits. -/
def nearestBits (fraction : Fraction) : Nat :=
  if fraction.coefficient = 0 then 0
  else
    let point : Int := (digits fraction.coefficient).length + fraction.exponent
    if 400 < point then infinityBits
    else if point < -400 then 0
    else
      Decimal.nearestBits
        (fraction.coefficient * Nat.pow 10 fraction.exponent.toNat)
        (Nat.pow 10 (-fraction.exponent).toNat)

/-- The fraction without trailing zeros in its coefficient. -/
def normalize (fraction : Fraction) : Fraction :=
  if small : fraction.coefficient < 10 then fraction
  else if fraction.coefficient % 10 = 0 then
    normalize ⟨fraction.coefficient / 10, fraction.exponent + 1⟩
  else fraction
termination_by fraction.coefficient
decreasing_by omega

end Fraction

/-- The exact value of a magnitude as a decimal fraction. -/
def Magnitude.exactFraction (value : Magnitude) : Fraction :=
  if 0 ≤ value.exponent then
    ⟨value.mantissa * Nat.pow 2 value.exponent.toNat, 0⟩
  else ⟨value.mantissa * Nat.pow 5 (-value.exponent).toNat, value.exponent⟩

/-- The position of the decimal point in front of the leading digit of a
positive magnitude: the value lies between `10 ^ (point - 1)` and
`10 ^ point`. -/
def Magnitude.point (value : Magnitude) : Int :=
  ((digits
    (value.numerator * Nat.pow 10 400 / value.denominator)).length : Int) - 400

/-- The two neighbours of a positive magnitude on the grid of decimal fractions
with `count` significant digits, the nearer one first. -/
def Magnitude.neighbours (value : Magnitude) (point : Int) (count : Nat) :
    List Fraction :=
  let exponent := point - count
  let numerator := value.numerator * Nat.pow 10 (-exponent).toNat
  let denominator := value.denominator * Nat.pow 10 exponent.toNat
  let below := numerator / denominator
  if roundHalfEven numerator denominator = below then
    [⟨below, exponent⟩, ⟨below + 1, exponent⟩]
  else
    [⟨below + 1, exponent⟩, ⟨below, exponent⟩]

/-- The shortest decimal fraction that reads back as the double with the given
finite unsigned bit pattern. -/
def shortest (bits : Nat) : Fraction :=
  let value := Magnitude.ofBits bits
  let point := value.point
  let candidates :=
    (List.range 17).flatMap fun index => value.neighbours point (index + 1)
  let found := candidates.find? fun fraction => fraction.nearestBits == bits
  (found.getD value.exactFraction).normalize

end Decimal
end Symbolic

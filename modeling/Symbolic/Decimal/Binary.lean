/-!
# Double precision numbers as fractions

A finite double is a sign, a natural mantissa and a power of two.  In the other
direction `nearest` rounds an exact quotient of natural numbers to the nearest
double, a tie going to the even mantissa.  Both work on bit patterns in exact
arithmetic, so that reading, printing and mixed comparison of numbers share one
notion of value.
-/

namespace Symbolic
namespace Decimal

/-- The magnitude of a finite double: `mantissa * 2 ^ exponent`. -/
structure Magnitude where
  mantissa : Nat
  exponent : Int

/-- The bit that marks a negative double. -/
def signBit : Nat :=
  Nat.pow 2 63

/-- One unit of the exponent in a bit pattern; the fraction takes the 52 bits
below it. -/
def exponentUnit : Nat :=
  Nat.pow 2 52

/-- The sign of a double is negative; a zero has a sign too. -/
def isNegative (x : Float) : Bool :=
  decide (signBit ≤ x.toBits.toNat)

/-- The bit pattern of a double without its sign. -/
def unsignedBits (x : Float) : Nat :=
  x.toBits.toNat % signBit

/-- The bit pattern of positive infinity. -/
def infinityBits : Nat :=
  2047 * exponentUnit

/-- A double that is neither infinite nor undefined. -/
def isFinite (x : Float) : Bool :=
  decide (unsignedBits x < infinityBits)

/-- A double of infinite magnitude. -/
def isInfinite (x : Float) : Bool :=
  unsignedBits x == infinityBits

/-- A double that is not a number. -/
def isUndefined (x : Float) : Bool :=
  decide (infinityBits < unsignedBits x)

/-- The magnitude that a finite unsigned bit pattern stands for. -/
def Magnitude.ofBits (bits : Nat) : Magnitude :=
  if bits < exponentUnit then ⟨bits, -1074⟩
  else ⟨exponentUnit + bits % exponentUnit, (bits / exponentUnit : Nat) - 1075⟩

/-- The magnitude of a finite double. -/
def magnitude (x : Float) : Magnitude :=
  Magnitude.ofBits (unsignedBits x)

/-- The numerator of a magnitude written as a quotient. -/
def Magnitude.numerator (value : Magnitude) : Nat :=
  value.mantissa * Nat.pow 2 value.exponent.toNat

/-- The denominator of a magnitude written as a quotient, a power of two. -/
def Magnitude.denominator (value : Magnitude) : Nat :=
  Nat.pow 2 (-value.exponent).toNat

/-- A quotient rounded to the nearest natural number, a tie to the even one. -/
def roundHalfEven (numerator denominator : Nat) : Nat :=
  let quotient := numerator / denominator
  let remainder := numerator % denominator
  if 2 * remainder < denominator then quotient
  else if 2 * remainder = denominator then quotient + quotient % 2
  else quotient + 1

/-- The binary exponent of the leading bit of a positive quotient. -/
def leadingExponent (numerator denominator : Nat) : Int :=
  let estimate : Int := (Nat.log2 numerator : Int) - Nat.log2 denominator
  if denominator * Nat.pow 2 estimate.toNat ≤
      numerator * Nat.pow 2 (-estimate).toNat then
    estimate
  else estimate - 1

/-- The bit pattern of the double nearest to a quotient; a quotient beyond the
largest double gives the pattern of infinity. -/
def nearestBits (numerator denominator : Nat) : Nat :=
  if numerator = 0 then 0
  else
    let exponent : Int :=
      max (-1074) (leadingExponent numerator denominator - 52)
    let mantissa :=
      roundHalfEven
        (numerator * Nat.pow 2 (-exponent).toNat)
        (denominator * Nat.pow 2 exponent.toNat)
    min infinityBits ((exponent + 1074).toNat * exponentUnit + mantissa)

/-- The double with the given sign and unsigned bit pattern. -/
def ofSignAndBits (negative : Bool) (bits : Nat) : Float :=
  Float.ofBits (UInt64.ofNat (if negative then signBit + bits else bits))

/-- The double nearest to a quotient with the given sign. -/
def nearest (negative : Bool) (numerator denominator : Nat) : Float :=
  ofSignAndBits negative (nearestBits numerator denominator)

/-- The double nearest to an integer. -/
def nearestInt (n : Int) : Float :=
  nearest (decide (n < 0)) n.natAbs 1

/-- The double that equals an integer up to rounding, if it is finite. -/
def nearestInt? (n : Int) : Option Float :=
  let x := nearestInt n
  if isFinite x then some x else none

end Decimal
end Symbolic

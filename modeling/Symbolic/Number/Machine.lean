import Symbolic.Number.Arithmetic

/-!
# Machine arithmetic

Evaluation at given values works on machine numbers.  Two words are combined in
64 bits with wrap-around, doubles by the rules of binary floating point, and no
operation on doubles fails.
-/

namespace Symbolic
namespace Number

/-- Why two machine words could not be combined. -/
inductive WordFault where
  | negativeExponent
deriving DecidableEq, Repr

/-- The outcome of combining two machine words. -/
abbrev WordOutcome := Except WordFault Number

/-- A word as a number. -/
def ofWord (word : Int64) : Number :=
  int word.toInt

/-- A word as a double. -/
def wordToDouble (word : Int64) : Float :=
  Decimal.nearestInt word.toInt

/-- A word operation that cannot fail. -/
def wordwise
    (combine : Int64 -> Int64 -> Int64)
    (left right : Int64) : WordOutcome :=
  .ok (ofWord (combine left right))

/-- The quotient of two words, always a double. -/
def wordQuotient (left right : Int64) : WordOutcome :=
  .ok (real (wordToDouble left / wordToDouble right))

/-- A power of a word by repeated squaring, with wrap-around. -/
def wordPower (base : Int64) (exponent : Nat) : Int64 :=
  if exponent = 0 then 1
  else
    let half := wordPower (base * base) (exponent / 2)
    if exponent % 2 = 1 then base * half else half
termination_by exponent

/-- A power of two words; a negative exponent is refused. -/
def wordPow (left right : Int64) : WordOutcome :=
  if right < 0 then .error .negativeExponent
  else .ok (ofWord (wordPower left right.toInt.toNat))

/-- The remainder of two words with the sign of the divisor, zero for a zero
divisor. -/
def wordRemainder (left right : Int64) : Int64 :=
  if right = 0 then 0 else Int64.ofInt (Int.fmod left.toInt right.toInt)

/-- The larger of two doubles; an undefined operand wins. -/
def largerDouble (x y : Float) : Float :=
  if Decimal.isUndefined x || decide (y ≤ x) then x else y

/-- The smaller of two doubles; an undefined operand wins. -/
def smallerDouble (x y : Float) : Float :=
  if Decimal.isUndefined x || decide (x ≤ y) then x else y

end Number
end Symbolic

import Symbolic.Decimal.Layout

/-!
# Numbers

A number is an integer of any size or a double.  The two kinds never compare
equal: `1` and `1.0` are different constants.  An integer of more than 4300
digits is never written out.
-/

namespace Symbolic

/-- A constant of the expression language. -/
inductive Number where
  | int (value : Int)
  | real (value : Float)

namespace Number

/-- The most decimal digits that an integer may have to be written or read. -/
def digitLimit : Nat := 4300

/-- The value is zero, of either sign. -/
def isZero : Number -> Bool
  | int value => value == 0
  | real value => value == 0.0

/-- The value is one. -/
def isOne : Number -> Bool
  | int value => value == 1
  | real value => value == 1.0

/-- The value is less than zero; a negative zero is not. -/
def isNegative : Number -> Bool
  | int value => decide (value < 0)
  | real value => decide (value < 0.0)

/-- The number with the opposite sign. -/
def neg : Number -> Number
  | int value => int (-value)
  | real value => real (-value)

/-- Numbers of the same kind with the same integer or the same bit pattern.
`Float` has a single value that is not a number: constants that are no numbers,
and differ only in the bits that say so, are one constant here. -/
def same : Number -> Number -> Bool
  | int left, int right => left == right
  | real left, real right => left.toBits == right.toBits
  | _, _ => false

/-- The integer that stands for a number in a fingerprint: its value, or its bit
pattern read as a signed word.  The one value that is not a number has the
pattern `0x7ff8000000000000`, without a sign. -/
def token : Number -> Int
  | int value => value
  | real value => value.toBits.toInt64.toInt

/-- The nearest double. -/
def toDouble : Number -> Float
  | int value => Decimal.nearestInt value
  | real value => value

/-- The nearest double, unless the number is an integer beyond all doubles. -/
def toDouble? : Number -> Option Float
  | int value => Decimal.nearestInt? value
  | real value => some value

/-- A number that may be written out: a double, or an integer that is short
enough. -/
def isWritable : Number -> Bool
  | int value => decide (value.natAbs < Nat.pow 10 digitLimit)
  | real _ => true

/-- The text of a number. -/
def text : Number -> String
  | int value => Decimal.signedNumeral value
  | real value => Decimal.doubleText value

/-- Integers are the same if they are equal. -/
@[simp] theorem same_int
    (left right : Int) :
    same (int left) (int right) = (left == right) := rfl

@[simp] theorem isZero_int (value : Int) :
    isZero (int value) = (value == 0) := rfl

@[simp] theorem isOne_int (value : Int) :
    isOne (int value) = (value == 1) := rfl

/-- An integer is negated exactly. -/
@[simp] theorem neg_int (value : Int) : neg (int value) = int (-value) := rfl

end Number
end Symbolic

import Symbolic.Number.Basic

/-!
# Exact and mixed arithmetic on numbers

Integers are combined exactly.  As soon as one side is a double the other side
is rounded to a double first.  A quotient of integers stays an integer when it
is exact and is otherwise the nearest double; a power of integers stays an
integer when the exponent is not negative.
-/

namespace Symbolic
namespace Number

/-- Why two numbers could not be combined. -/
inductive Fault where
  | divisionByZero
  | realDivisionByZero
  | remainderByZero
  | realRemainderByZero
  | zeroToNegativePower
  | powerTooLarge
  | complexPowerTooLarge
  | complexPower
  | integerTooLarge
  | quotientTooLarge
deriving DecidableEq, Repr

/-- The outcome of combining two numbers. -/
abbrev Outcome := Except Fault Number

/-- Combine two numbers as doubles. -/
def asDoubles
    (combine : Float -> Float -> Outcome)
    (left right : Number) : Outcome :=
  match left.toDouble?, right.toDouble? with
  | some x, some y => combine x y
  | _, _ => .error .integerTooLarge

/-- The sum of two numbers. -/
def add : Number -> Number -> Outcome
  | int a, int b => .ok (int (a + b))
  | left, right => asDoubles (fun x y => .ok (real (x + y))) left right

/-- The difference of two numbers. -/
def sub : Number -> Number -> Outcome
  | int a, int b => .ok (int (a - b))
  | left, right => asDoubles (fun x y => .ok (real (x - y))) left right

/-- The product of two numbers. -/
def mul : Number -> Number -> Outcome
  | int a, int b => .ok (int (a * b))
  | left, right => asDoubles (fun x y => .ok (real (x * y))) left right

/-- The double nearest to a quotient of integers. -/
def quotient (a b : Int) : Outcome :=
  let x := Decimal.nearest (decide (a < 0) != decide (b < 0)) a.natAbs b.natAbs
  if Decimal.isFinite x then .ok (real x) else .error .quotientTooLarge

/-- The quotient of two numbers. -/
def div : Number -> Number -> Outcome
  | int a, int b =>
    if b = 0 then .error .divisionByZero
    else if a % b = 0 then .ok (int (a / b))
    else quotient a b
  | left, right =>
    asDoubles
      (fun x y => if y == 0.0 then .error .realDivisionByZero
        else .ok (real (x / y)))
      left right

/-- A power of an integer.  The bases of magnitude at most one are settled by
the parity of the exponent, whatever its size. -/
def integerPower (base : Int) (exponent : Nat) : Int :=
  if base.natAbs ≤ 1 then
    if exponent = 0 then 1 else if exponent % 2 = 0 then base * base else base
  else Int.pow base exponent

/-- A finite double without a fractional part. -/
def isWhole (x : Float) : Bool :=
  let value := Decimal.magnitude x
  value.numerator % value.denominator == 0

/-- A power of doubles.  Infinite and undefined operands never fail; between
finite ones a zero base has no negative power, a negative base has only whole
powers, and a power may be too large. -/
def realPower (x y : Float) : Outcome :=
  if Decimal.isFinite x && Decimal.isFinite y then
    if x == 0.0 && decide (y < 0.0) then .error .zeroToNegativePower
    else if decide (x < 0.0) && !isWhole y then
      if Decimal.isFinite (Float.pow (-x) y) then .error .complexPower
      else .error .complexPowerTooLarge
    else
      let power := Float.pow x y
      if Decimal.isFinite power then .ok (real power) else .error .powerTooLarge
  else .ok (real (Float.pow x y))

/-- A power of two numbers. -/
def pow : Number -> Number -> Outcome
  | int a, int b =>
    if 0 ≤ b then .ok (int (integerPower a b.toNat))
    else asDoubles realPower (int a) (int b)
  | left, right => asDoubles realPower left right

/-- The remainder of finite doubles with the sign of the dividend, exactly. -/
def truncatedRemainder (x y : Float) : Float :=
  let dividend := Decimal.magnitude x
  let divisor := Decimal.magnitude y
  Decimal.nearest (Decimal.isNegative x)
    ((dividend.numerator * divisor.denominator) %
      (divisor.numerator * dividend.denominator))
    (dividend.denominator * divisor.denominator)

/-- An undefined double. -/
def undefined : Float :=
  Float.ofBits 0x7FF8000000000000

/-- The remainder of doubles with the sign of the divisor, a zero included.  It
is undefined for a zero divisor, an infinite dividend and undefined operands. -/
def realRemainder (x y : Float) : Float :=
  if y == 0.0 || !Decimal.isFinite x || Decimal.isUndefined y then undefined
  else
    let remainder := if Decimal.isInfinite y then x else truncatedRemainder x y
    if remainder == 0.0 then Decimal.ofSignAndBits (Decimal.isNegative y) 0
    else if decide (y < 0.0) != decide (remainder < 0.0) then remainder + y
    else remainder

/-- The remainder of two numbers, with the sign of the divisor. -/
def remainder : Number -> Number -> Outcome
  | int a, int b =>
    if b = 0 then .error .remainderByZero else .ok (int (Int.fmod a b))
  | left, right =>
    asDoubles
      (fun x y =>
        if y == 0.0 then .error .realRemainderByZero
        else .ok (real (realRemainder x y)))
      left right

/-- An integer is less than a double, compared exactly. -/
def intLessThanReal (a : Int) (y : Float) : Bool :=
  if Decimal.isUndefined y then false
  else if Decimal.isInfinite y then !Decimal.isNegative y
  else
    let value := Decimal.magnitude y
    let signed : Int :=
      if Decimal.isNegative y then -value.numerator else value.numerator
    decide (a * value.denominator < signed)

/-- A double is less than an integer, compared exactly. -/
def realLessThanInt (x : Float) (b : Int) : Bool :=
  if Decimal.isUndefined x then false
  else if Decimal.isInfinite x then Decimal.isNegative x
  else
    let value := Decimal.magnitude x
    let signed : Int :=
      if Decimal.isNegative x then -value.numerator else value.numerator
    decide (signed < b * value.denominator)

/-- The exact order of numbers; an undefined double is less than nothing. -/
def lessThan : Number -> Number -> Bool
  | int a, int b => decide (a < b)
  | int a, real y => intLessThanReal a y
  | real x, int b => realLessThanInt x b
  | real x, real y => decide (x < y)

/-- The larger of two numbers, the first one unless the second exceeds it. -/
def larger (left right : Number) : Outcome :=
  .ok (if lessThan left right then right else left)

/-- The smaller of two numbers, the first one unless the second is below it. -/
def smaller (left right : Number) : Outcome :=
  .ok (if lessThan right left then right else left)

/-- Sums of integers are exact. -/
@[simp] theorem add_int (a b : Int) :
    add (int a) (int b) = .ok (int (a + b)) := rfl

/-- Differences of integers are exact. -/
@[simp] theorem sub_int (a b : Int) :
    sub (int a) (int b) = .ok (int (a - b)) := rfl

/-- Products of integers are exact. -/
@[simp] theorem mul_int (a b : Int) :
    mul (int a) (int b) = .ok (int (a * b)) := rfl

/-- The powers of zero, one and minus one are written down, all others are
multiplied out; all of them are powers of integers. -/
theorem integerPower_eq_pow
    (base : Int)
    (exponent : Nat) :
    integerPower base exponent = Int.pow base exponent := by
  change integerPower base exponent = base ^ exponent
  unfold integerPower
  split
  · next small =>
    have cases : base = 0 ∨ base = 1 ∨ base = -1 := by omega
    rcases cases with rfl | rfl | rfl
    · by_cases zeroExponent : exponent = 0
      · simp [zeroExponent]
      · simp [zeroExponent, Int.zero_pow zeroExponent]
    · rw [Int.one_pow]
      by_cases zeroExponent : exponent = 0 <;> simp [zeroExponent]
    · have square : (-1 : Int) ^ 2 = 1 := rfl
      by_cases zeroExponent : exponent = 0
      · simp [zeroExponent]
      · by_cases even : exponent % 2 = 0
        · obtain ⟨half, rfl⟩ : ∃ half, exponent = 2 * half :=
            ⟨exponent / 2, by omega⟩
          rw [Int.pow_mul, square, Int.one_pow]
          simp [zeroExponent]
        · obtain ⟨half, rfl⟩ : ∃ half, exponent = 2 * half + 1 :=
            ⟨exponent / 2, by omega⟩
          rw [Int.pow_succ, Int.pow_mul, square, Int.one_pow]
          simp
  · rfl

end Number
end Symbolic

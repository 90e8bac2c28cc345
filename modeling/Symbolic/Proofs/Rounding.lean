import Mathlib.Tactic.Ring
import Symbolic.Decimal.Shortest

/-!
# Rounding quotients to doubles

The nearest double depends on the value of a quotient and not on how the
quotient is written, and the quotient that a bit pattern stands for rounds to
that bit pattern. So does every decimal fraction that was found to be shortest,
with or without trailing zeros.
-/

namespace Symbolic
namespace Decimal

/-! ## The leading exponent -/

/-- The quotient is at least a power of two. -/
def ReachesPower (numerator denominator : Nat) (exponent : Int) : Prop :=
  denominator * 2 ^ exponent.toNat ≤ numerator * 2 ^ (-exponent).toNat

theorem ReachesPower.pred
    {numerator denominator : Nat}
    {exponent : Int}
    (reaches : ReachesPower numerator denominator (exponent + 1)) :
    ReachesPower numerator denominator exponent := by
  unfold ReachesPower at reaches ⊢
  by_cases negative : exponent < 0
  · have zero : exponent.toNat = 0 := by omega
    have zero' : (exponent + 1).toNat = 0 := by omega
    have step : (-exponent).toNat = (-(exponent + 1)).toNat + 1 := by omega
    rw [zero'] at reaches
    rw [zero, step, Nat.pow_succ]
    calc
      denominator * 2 ^ 0 ≤ numerator * 2 ^ (-(exponent + 1)).toNat := reaches
      _ ≤ numerator * (2 ^ (-(exponent + 1)).toNat * 2) := by
        apply Nat.mul_le_mul_left
        omega
  · have zero : (-exponent).toNat = 0 := by omega
    have zero' : (-(exponent + 1)).toNat = 0 := by omega
    have step : (exponent + 1).toNat = exponent.toNat + 1 := by omega
    rw [zero', step, Nat.pow_succ] at reaches
    rw [zero]
    calc
      denominator * 2 ^ exponent.toNat ≤
        denominator * (2 ^ exponent.toNat * 2) := by
        apply Nat.mul_le_mul_left
        omega
      _ ≤ numerator * 2 ^ 0 := reaches

/-- What reaches a power of two reaches all lower ones. -/
theorem ReachesPower.mono
    {numerator denominator : Nat}
    {exponent exponent' : Int}
    (reaches : ReachesPower numerator denominator exponent)
    (lower : exponent' ≤ exponent) :
    ReachesPower numerator denominator exponent' := by
  obtain ⟨distance, rfl⟩ := Int.le.dest lower
  induction distance with
  | zero => simpa using reaches
  | succ distance inductive_step =>
    apply inductive_step
    · apply ReachesPower.pred
      have sum : exponent' + (distance : Int) + 1 =
          exponent' + ((distance + 1 : Nat) : Int) := by
        omega
      rw [sum]
      exact reaches
    · omega

/-- The leading exponent is the highest power of two that a quotient reaches. -/
theorem leadingExponent_spec
    {numerator denominator : Nat}
    (numeratorPositive : numerator ≠ 0)
    (denominatorPositive : denominator ≠ 0) :
    ReachesPower numerator denominator (leadingExponent numerator denominator) ∧
      ¬ReachesPower numerator denominator
        (leadingExponent numerator denominator + 1) := by
  have numeratorLow := Nat.log2_self_le numeratorPositive
  have numeratorHigh := @Nat.lt_log2_self numerator
  have denominatorLow := Nat.log2_self_le denominatorPositive
  have denominatorHigh := @Nat.lt_log2_self denominator
  generalize isEstimate : (numerator.log2 : Int) - denominator.log2 = estimate
  have notAbove : ¬ReachesPower numerator denominator (estimate + 1) := by
    intro reaches
    have powers : 2 ^ (denominator.log2 + (estimate + 1).toNat) <
        2 ^ (numerator.log2 + 1 + (-(estimate + 1)).toNat) := by
      calc
        2 ^ (denominator.log2 + (estimate + 1).toNat) =
            2 ^ denominator.log2 * 2 ^ (estimate + 1).toNat := Nat.pow_add ..
        _ ≤ denominator * 2 ^ (estimate + 1).toNat :=
          Nat.mul_le_mul_right _ denominatorLow
        _ ≤ numerator * 2 ^ (-(estimate + 1)).toNat := reaches
        _ < 2 ^ (numerator.log2 + 1) * 2 ^ (-(estimate + 1)).toNat :=
          Nat.mul_lt_mul_of_pos_right numeratorHigh (Nat.two_pow_pos _)
        _ = 2 ^ (numerator.log2 + 1 + (-(estimate + 1)).toNat) :=
          (Nat.pow_add ..).symm
    have exponents := (Nat.pow_lt_pow_iff_right (by decide)).1 powers
    omega
  have below : ReachesPower numerator denominator (estimate - 1) := by
    unfold ReachesPower
    calc
      denominator * 2 ^ (estimate - 1).toNat ≤
          2 ^ (denominator.log2 + 1) * 2 ^ (estimate - 1).toNat :=
        Nat.mul_le_mul_right _ denominatorHigh.le
      _ = 2 ^ (denominator.log2 + 1 + (estimate - 1).toNat) :=
        (Nat.pow_add ..).symm
      _ = 2 ^ (numerator.log2 + (-(estimate - 1)).toNat) := by
        congr 1
        omega
      _ = 2 ^ numerator.log2 * 2 ^ (-(estimate - 1)).toNat := Nat.pow_add ..
      _ ≤ numerator * 2 ^ (-(estimate - 1)).toNat :=
        Nat.mul_le_mul_right _ numeratorLow
  unfold leadingExponent
  simp only [isEstimate]
  split
  · next reaches => exact ⟨reaches, notAbove⟩
  · next stays =>
    refine ⟨below, ?_⟩
    rw [Int.sub_add_cancel]
    exact stays

/-- Only one exponent is the highest that a quotient reaches. -/
theorem leadingExponent_eq
    {numerator denominator : Nat}
    (numeratorPositive : numerator ≠ 0)
    (denominatorPositive : denominator ≠ 0)
    {exponent : Int}
    (reaches : ReachesPower numerator denominator exponent)
    (highest : ¬ReachesPower numerator denominator (exponent + 1)) :
    leadingExponent numerator denominator = exponent := by
  obtain ⟨leads, notAbove⟩ :=
    leadingExponent_spec numeratorPositive denominatorPositive
  by_contra different
  rcases Int.lt_or_gt_of_ne different with lower | higher
  · exact notAbove (reaches.mono (by omega))
  · exact highest (leads.mono (by omega))

/-- Whether a fraction reaches a power does not depend on how it is expanded. -/
theorem reachesPower_scale
    (numerator denominator : Nat)
    {scale : Nat}
    (scalePositive : scale ≠ 0)
    (exponent : Int) :
    ReachesPower (scale * numerator) (scale * denominator) exponent ↔
      ReachesPower numerator denominator exponent := by
  unfold ReachesPower
  rw [Nat.mul_assoc, Nat.mul_assoc]
  exact Nat.mul_le_mul_left_iff (by omega)

/-! ## The nearest double of a quotient -/

/-- Nor does its rounding. -/
theorem roundHalfEven_scale
    (numerator denominator : Nat)
    {scale : Nat}
    (scalePositive : scale ≠ 0) :
    roundHalfEven (scale * numerator) (scale * denominator) =
      roundHalfEven numerator denominator := by
  have positive : 0 < scale := by omega
  unfold roundHalfEven
  rw [Nat.mul_div_mul_left _ _ positive, Nat.mul_mod_mul_left]
  simp only [Nat.mul_left_comm 2 scale, Nat.mul_lt_mul_left positive,
    Nat.mul_right_inj scalePositive]

/-- A whole number is not rounded. -/
theorem roundHalfEven_mul
    (quotient : Nat)
    {denominator : Nat}
    (denominatorPositive : denominator ≠ 0) :
    roundHalfEven (quotient * denominator) denominator = quotient := by
  have positive : 0 < denominator := by omega
  unfold roundHalfEven
  rw [Nat.mul_div_cancel _ positive, Nat.mul_mod_left]
  simp [positive]

theorem nearestBits_zero (denominator : Nat) :
    nearestBits 0 denominator = 0 := by
  unfold nearestBits
  rw [if_pos rfl]

/-- Below a whole number nothing is rounded beyond it. -/
theorem roundHalfEven_le
    {numerator denominator bound : Nat}
    (below : numerator < bound * denominator) :
    roundHalfEven numerator denominator ≤ bound := by
  have quotientBelow : numerator / denominator < bound :=
    Nat.div_lt_of_lt_mul (by
    rwa [Nat.mul_comm])
  unfold roundHalfEven
  dsimp only
  split
  · omega
  · split <;> omega

/-- A number of `power + 1` binary digits has at most 53 digits in front of the
point if the point is moved `power - 52` digits to the left. -/
theorem mul_two_pow_lt
    {n power : Nat}
    (below : n < 2 ^ (power + 1)) :
    n * 2 ^ (-((power : Int) - 52)).toNat <
      2 ^ 53 * 2 ^ ((power : Int) - 52).toNat := by
  rcases Nat.le_total power 52 with small | large
  · rw [show ((power : Int) - 52).toNat = 0 by omega,
      show (-((power : Int) - 52)).toNat = 52 - power by omega]
    calc
      n * 2 ^ (52 - power) < 2 ^ (power + 1) * 2 ^ (52 - power) :=
        Nat.mul_lt_mul_of_pos_right below (Nat.two_pow_pos _)
      _ = 2 ^ 53 * 2 ^ 0 := by
        rw [← Nat.pow_add, ← Nat.pow_add]
        congr 1
        omega
  · rw [show ((power : Int) - 52).toNat = power - 52 by omega,
      show (-((power : Int) - 52)).toNat = 0 by omega]
    calc
      n * 2 ^ 0 < 2 ^ (power + 1) := by omega
      _ = 2 ^ 53 * 2 ^ (power - 52) := by
        rw [← Nat.pow_add]
        congr 1
        omega

/-- An integer of 64 bits is not beyond all doubles. -/
theorem nearestBits_lt_infinityBits
    {n : Nat}
    (bounded : n < 2 ^ 64) :
    nearestBits n 1 < infinityBits := by
  unfold nearestBits
  split
  · decide
  · next positive =>
    obtain ⟨leads, notAbove⟩ := leadingExponent_spec positive Nat.one_ne_zero
    generalize leadingExponent n 1 = leading at leads notAbove ⊢
    have lower : 0 ≤ leading := by
      by_contra negative
      have reachesOne : ReachesPower n 1 0 := by
        simp only [ReachesPower, neg_zero, Int.toNat_zero]
        omega
      exact notAbove (reachesOne.mono (by omega))
    have upper : leading ≤ 63 := by
      by_contra large
      have reaches : ReachesPower n 1 64 := leads.mono (by omega)
      change 1 * 2 ^ 64 ≤ n * 1 at reaches
      omega
    obtain ⟨power, rfl⟩ := Int.eq_ofNat_of_zero_le lower
    have below : n < 2 ^ (power + 1) := by
      unfold ReachesPower at notAbove
      rw [show ((power : Int) + 1).toNat = power + 1 by omega,
        show (-((power : Int) + 1)).toNat = 0 by omega] at notAbove
      omega
    have mantissaBound :
        roundHalfEven (n * Nat.pow 2 (-((power : Int) - 52)).toNat)
        (1 * Nat.pow 2 ((power : Int) - 52).toNat) ≤ 2 ^ 53 := by
      rw [Nat.one_mul]
      exact roundHalfEven_le (mul_two_pow_lt below)
    rw [show max (-1074) ((power : Int) - 52) = (power : Int) - 52 by omega]
    dsimp only
    generalize roundHalfEven _ _ = mantissa at mantissaBound
    change min (2047 * 2 ^ 52)
      (((power : Int) - 52 + 1074).toNat * 2 ^ 52 + mantissa) <
      2047 * 2 ^ 52
    omega

/-- The nearest double does not depend on how a fraction is expanded. -/
theorem nearestBits_scale
    (numerator : Nat)
    {denominator scale : Nat}
    (denominatorPositive : denominator ≠ 0)
    (scalePositive : scale ≠ 0) :
    nearestBits (scale * numerator) (scale * denominator) =
      nearestBits numerator denominator := by
  by_cases numeratorZero : numerator = 0
  · rw [numeratorZero, Nat.mul_zero, nearestBits_zero, nearestBits_zero]
  have scaledNumerator : scale * numerator ≠ 0 :=
    Nat.mul_ne_zero scalePositive numeratorZero
  have scaledDenominator : scale * denominator ≠ 0 :=
    Nat.mul_ne_zero scalePositive denominatorPositive
  have leads : leadingExponent (scale * numerator) (scale * denominator) =
      leadingExponent numerator denominator := by
    obtain ⟨reaches, highest⟩ :=
      leadingExponent_spec numeratorZero denominatorPositive
    apply leadingExponent_eq scaledNumerator scaledDenominator
    · exact (reachesPower_scale _ _ scalePositive _).2 reaches
    · exact fun above =>
        highest ((reachesPower_scale _ _ scalePositive _).1 above)
  unfold nearestBits
  rw [if_neg scaledNumerator, if_neg numeratorZero]
  simp only [leads, Nat.mul_assoc, roundHalfEven_scale _ _ scalePositive]

/-- Quotients of one value have one nearest double. -/
theorem nearestBits_congr
    {numerator denominator numerator' denominator' : Nat}
    (positive : denominator ≠ 0)
    (positive' : denominator' ≠ 0)
    (sameValue : numerator * denominator' = numerator' * denominator) :
    nearestBits numerator denominator =
      nearestBits numerator' denominator' := by
  calc
    nearestBits numerator denominator =
        nearestBits (denominator' * numerator) (denominator' * denominator) :=
      (nearestBits_scale numerator positive positive').symm
    _ = nearestBits (denominator * numerator')
      (denominator * denominator') := by
      rw [Nat.mul_comm denominator' numerator, sameValue,
        Nat.mul_comm numerator', Nat.mul_comm denominator']
    _ = nearestBits numerator' denominator' :=
      nearestBits_scale numerator' positive' positive

/-- A magnitude reaches the powers of two that its mantissa reaches, shifted by
its exponent. -/
theorem Magnitude.reachesPower_iff
    (value : Magnitude)
    (shift : Nat) :
    ReachesPower value.numerator value.denominator (value.exponent + shift) ↔
      2 ^ shift ≤ value.mantissa := by
  have left : value.denominator * 2 ^ (value.exponent + shift).toNat =
      2 ^ shift * 2 ^ (value.exponent.toNat +
        (-(value.exponent + shift)).toNat) := by
    change 2 ^ (-value.exponent).toNat * _ = _
    rw [← Nat.pow_add, ← Nat.pow_add]
    congr 1
    omega
  have right : value.numerator * 2 ^ (-(value.exponent + shift)).toNat =
      value.mantissa *
        2 ^ (value.exponent.toNat + (-(value.exponent + shift)).toNat) := by
    change value.mantissa * 2 ^ value.exponent.toNat * _ = _
    rw [Nat.mul_assoc, ← Nat.pow_add]
  unfold ReachesPower
  rw [left, right]
  exact Nat.mul_le_mul_right_iff (Nat.two_pow_pos _)

/-- A magnitude with a mantissa of 53 bits, or of fewer bits and the lowest
exponent. -/
structure Magnitude.IsNormal (value : Magnitude) : Prop where
  positive : value.mantissa ≠ 0
  bounded : value.mantissa < 2 ^ 53
  lowest : -1074 ≤ value.exponent
  full : value.exponent = -1074 ∨ 2 ^ 52 ≤ value.mantissa

theorem Magnitude.denominator_ne_zero (value : Magnitude) :
    value.denominator ≠ 0 :=
  Nat.two_pow_pos _ |>.ne'

/-- No rounding takes place for a normal magnitude. -/
theorem Magnitude.IsNormal.nearestBits_eq
    {value : Magnitude}
    (normal : value.IsNormal) :
    nearestBits value.numerator value.denominator =
      min infinityBits
        ((value.exponent + 1074).toNat * exponentUnit + value.mantissa) := by
  have numeratorPositive : value.numerator ≠ 0 :=
    Nat.mul_ne_zero normal.positive (Nat.two_pow_pos _).ne'
  have leads : leadingExponent value.numerator value.denominator =
      value.exponent + value.mantissa.log2 := by
    apply leadingExponent_eq numeratorPositive value.denominator_ne_zero
    · exact (value.reachesPower_iff _).2 (Nat.log2_self_le normal.positive)
    · intro above
      have tooLarge := (value.reachesPower_iff (value.mantissa.log2 + 1)).1 (by
        rw [Int.natCast_add, ← Int.add_assoc]
        exact above)
      have := @Nat.lt_log2_self value.mantissa
      omega
  have exponent : max (-1074) (value.exponent + value.mantissa.log2 - 52) =
      value.exponent := by
    have high : value.mantissa.log2 < 53 :=
      (Nat.log2_lt normal.positive).2 normal.bounded
    have lowest := normal.lowest
    rcases normal.full with isLowest | full
    · omega
    · have low := (Nat.le_log2 normal.positive).2 full
      omega
  have mantissa :
      roundHalfEven (value.numerator * Nat.pow 2 (-value.exponent).toNat)
      (value.denominator * Nat.pow 2 value.exponent.toNat) =
        value.mantissa := by
    have numerator : value.numerator * Nat.pow 2 (-value.exponent).toNat =
        value.mantissa *
          (value.denominator * Nat.pow 2 value.exponent.toNat) := by
      change value.mantissa * 2 ^ value.exponent.toNat *
        2 ^ (-value.exponent).toNat =
        value.mantissa *
          (2 ^ (-value.exponent).toNat * 2 ^ value.exponent.toNat)
      ring
    rw [numerator]
    apply roundHalfEven_mul
    exact Nat.mul_ne_zero value.denominator_ne_zero (Nat.two_pow_pos _).ne'
  unfold nearestBits
  rw [if_neg numeratorPositive]
  simp only [leads, exponent, mantissa]

theorem Magnitude.isNormal_ofBits
    {bits : Nat}
    (positive : bits ≠ 0) :
    (Magnitude.ofBits bits).IsNormal := by
  unfold Magnitude.ofBits
  split
  · next small =>
    change bits < 2 ^ 52 at small
    exact ⟨positive, by change bits < 2 ^ 53; omega, le_refl _, .inl rfl⟩
  · next large =>
    change ¬bits < 2 ^ 52 at large
    refine ⟨?_, ?_, ?_, .inr ?_⟩
    · change 2 ^ 52 + bits % 2 ^ 52 ≠ 0
      omega
    · change 2 ^ 52 + bits % 2 ^ 52 < 2 ^ 53
      omega
    · change -1074 ≤ ((bits / 2 ^ 52 : Nat) : Int) - 1075
      omega
    · change 2 ^ 52 ≤ 2 ^ 52 + bits % 2 ^ 52
      omega

/-- The quotient that a finite bit pattern stands for rounds to the pattern. -/
theorem nearestBits_ofBits
    {bits : Nat}
    (bounded : bits < infinityBits) :
    nearestBits (Magnitude.ofBits bits).numerator
      (Magnitude.ofBits bits).denominator = bits := by
  by_cases zero : bits = 0
  · subst zero
    rfl
  · rw [(Magnitude.isNormal_ofBits zero).nearestBits_eq]
    suffices exact :
        ((Magnitude.ofBits bits).exponent + 1074).toNat * exponentUnit +
        (Magnitude.ofBits bits).mantissa = bits by
      rw [exact]
      exact min_eq_right bounded.le
    unfold Magnitude.ofBits
    split
    · change (-1074 + 1074 : Int).toNat * exponentUnit + bits = bits
      simp
    · next large =>
      change ¬bits < 2 ^ 52 at large
      change (((bits / 2 ^ 52 : Nat) : Int) - 1075 + 1074).toNat * 2 ^ 52 +
        (2 ^ 52 + bits % 2 ^ 52) = bits
      omega

/-! ## Decimal fractions -/

theorem digits_mul_ten
    {n : Nat}
    (positive : n ≠ 0) :
    digits (n * 10) = digits n ++ [digitChar 0] := by
  rw [digits, if_neg (by omega), Nat.mul_div_cancel n (by decide),
    Nat.mul_mod_left]

theorem length_digits_le
    {n count : Nat}
    (bounded : n < 10 ^ (count + 1)) :
    (digits n).length ≤ count + 1 := by
  induction count generalizing n with
  | zero =>
    rw [digits, if_pos (by simpa using bounded)]
    exact le_refl 1
  | succ count inductive_step =>
    rw [digits]
    split
    · simp
    · have shorter : (digits (n / 10)).length ≤ count + 1 := by
        apply inductive_step
        rw [Nat.pow_succ] at bounded
        omega
      rw [List.length_append, List.length_singleton]
      omega

theorem lt_length_digits
    {n count : Nat}
    (large : 10 ^ count ≤ n) :
    count < (digits n).length := by
  induction count generalizing n with
  | zero => exact List.length_pos_iff.2 (digits_ne_nil n)
  | succ count inductive_step =>
    have notDigit : ¬n < 10 := by
      have : 10 ^ 1 ≤ 10 ^ (count + 1) :=
        Nat.pow_le_pow_right (by decide) (by omega)
      omega
    have longer : count < (digits (n / 10)).length := by
      apply inductive_step
      rw [Nat.pow_succ] at large
      omega
    rw [digits, if_neg notDigit, List.length_append, List.length_singleton]
    omega

namespace Fraction

/-- A fraction within the range of doubles is rounded as a quotient. -/
theorem nearestBits_eq
    {fraction : Fraction}
    {numerator denominator : Nat}
    (positive : fraction.coefficient ≠ 0)
    (below :
      ((digits fraction.coefficient).length : Int) + fraction.exponent ≤ 400)
    (above :
      -400 ≤ ((digits fraction.coefficient).length : Int) + fraction.exponent)
    (denominatorPositive : denominator ≠ 0)
    (sameValue :
      fraction.coefficient * 10 ^ fraction.exponent.toNat * denominator =
      numerator * 10 ^ (-fraction.exponent).toNat) :
    fraction.nearestBits = Decimal.nearestBits numerator denominator := by
  unfold nearestBits
  rw [if_neg positive]
  dsimp only
  rw [if_neg (by omega), if_neg (by omega)]
  exact nearestBits_congr (Nat.pow_pos (by decide)).ne' denominatorPositive
    sameValue

/-- A zero behind the coefficient and a lower exponent leave the value alone. -/
theorem nearestBits_mul_ten
    (coefficient : Nat)
    (exponent : Int) :
    nearestBits ⟨coefficient * 10, exponent - 1⟩ =
      nearestBits ⟨coefficient, exponent⟩ := by
  unfold nearestBits
  by_cases zero : coefficient = 0
  · rw [if_pos (by simp [zero]), if_pos zero]
  · rw [if_neg (by simpa using zero), if_neg zero]
    have point :
        (((digits (coefficient * 10)).length : Nat) : Int) + (exponent - 1) =
        (digits coefficient).length + exponent := by
      rw [digits_mul_ten zero, List.length_append, List.length_singleton]
      omega
    simp only [point]
    split
    · rfl
    · split
      · rfl
      · apply nearestBits_congr (Nat.pow_pos (by decide)).ne'
          (Nat.pow_pos (by decide)).ne'
        change coefficient * 10 * 10 ^ (exponent - 1).toNat *
          10 ^ (-exponent).toNat =
          coefficient * 10 ^ exponent.toNat * 10 ^ (-(exponent - 1)).toNat
        have exponents : (exponent - 1).toNat + 1 + (-exponent).toNat =
            exponent.toNat + (-(exponent - 1)).toNat := by
          omega
        calc
          coefficient * 10 * 10 ^ (exponent - 1).toNat *
            10 ^ (-exponent).toNat =
              coefficient * 10 ^ ((exponent - 1).toNat + 1 +
                (-exponent).toNat) := by ring
          _ = coefficient * 10 ^ exponent.toNat *
            10 ^ (-(exponent - 1)).toNat := by
            rw [exponents]
            ring

/-- Zeros behind the coefficient leave the value alone. -/
theorem nearestBits_mul_pow
    (coefficient : Nat)
    (exponent : Int)
    (zeros : Nat) :
    nearestBits ⟨coefficient * 10 ^ zeros, exponent - zeros⟩ =
      nearestBits ⟨coefficient, exponent⟩ := by
  induction zeros with
  | zero => simp
  | succ zeros inductive_step =>
    have exponents :
        exponent - ((zeros + 1 : Nat) : Int) = exponent - zeros - 1 := by omega
    rw [exponents, Nat.pow_succ, ← Nat.mul_assoc, nearestBits_mul_ten,
      inductive_step]

/-- Nor on whether it is in lowest terms. -/
theorem nearestBits_normalize (fraction : Fraction) :
    fraction.normalize.nearestBits = fraction.nearestBits := by
  fun_induction normalize fraction with
  | case1 fraction small => rfl
  | case2 fraction large divides inductive_step =>
    rw [inductive_step, ← nearestBits_mul_ten]
    have coefficient :
        fraction.coefficient / 10 * 10 = fraction.coefficient := by omega
    rw [coefficient, Int.add_sub_cancel]
  | case3 fraction large stays => rfl

end Fraction

theorem two_pow_le_five_pow
    {m n : Nat}
    (bounded : m ≤ 2 * n) :
    2 ^ m ≤ 5 ^ n := by
  calc
    2 ^ m ≤ 2 ^ (2 * n) := Nat.pow_le_pow_right (by decide) bounded
    _ = (2 ^ 2) ^ n := Nat.pow_mul 2 2 n
    _ ≤ 5 ^ n := Nat.pow_le_pow_left (by decide) n

/-- A mantissa that is shifted up has no more digits than the largest double. -/
theorem length_digits_mul_two_pow
    {mantissa exponent : Nat}
    (bounded : mantissa < 2 ^ 53)
    (highest : exponent ≤ 971) :
    (digits (mantissa * 2 ^ exponent)).length ≤ 400 := by
  have bound : mantissa * 2 ^ exponent < 10 ^ (399 + 1) := by
    calc
      mantissa * 2 ^ exponent < 2 ^ 53 * 2 ^ exponent :=
        Nat.mul_lt_mul_of_pos_right bounded (Nat.two_pow_pos _)
      _ ≤ 2 ^ 53 * 2 ^ 971 :=
        Nat.mul_le_mul_left _ (Nat.pow_le_pow_right (by decide) highest)
      _ ≤ 10 ^ (399 + 1) := by decide +kernel
  exact length_digits_le bound

/-- A mantissa that is divided by a power of two has only a few digits in front
of its point. -/
theorem length_digits_mul_five_pow
    {mantissa : Nat}
    (bounded : mantissa < 2 ^ 53)
    (places : Nat) :
    (digits (mantissa * 5 ^ places)).length ≤ places + 16 := by
  have bound : mantissa * 5 ^ places < 10 ^ (places + 15 + 1) := by
    calc
      mantissa * 5 ^ places < 2 ^ 53 * 5 ^ places :=
        Nat.mul_lt_mul_of_pos_right bounded (Nat.pow_pos (by decide))
      _ ≤ 10 ^ 16 * 10 ^ places :=
        Nat.mul_le_mul (by decide) (Nat.pow_le_pow_left (by decide) _)
      _ = 10 ^ (places + 15 + 1) := by ring
  exact length_digits_le bound

/-- A mantissa that is divided by a power of two as high as for doubles has only
so many zeros behind its point. -/
theorem places_le_length_digits
    {mantissa places : Nat}
    (positive : mantissa ≠ 0)
    (lowest : places ≤ 1074) :
    places ≤ 400 + (digits (mantissa * 5 ^ places)).length := by
  by_cases few : places ≤ 400
  · omega
  · obtain ⟨more, rfl⟩ : ∃ more, places = more + 400 := ⟨places - 400, by omega⟩
    have large : 10 ^ more ≤ mantissa * 5 ^ (more + 400) := by
      calc
        10 ^ more = 2 ^ more * 5 ^ more := Nat.mul_pow 2 5 more
        _ ≤ 5 ^ 400 * 5 ^ more :=
          Nat.mul_le_mul_right _ (two_pow_le_five_pow (by omega))
        _ = 1 * 5 ^ (more + 400) := by
          rw [Nat.one_mul, Nat.add_comm, Nat.pow_add]
        _ ≤ mantissa * 5 ^ (more + 400) := Nat.mul_le_mul_right _ (by omega)
    have := lt_length_digits large
    omega

/-- The exponent of a finite bit pattern is not too high. -/
theorem Magnitude.exponent_ofBits_le
    {bits : Nat}
    (bounded : bits < infinityBits) :
    (Magnitude.ofBits bits).exponent ≤ 971 := by
  unfold Magnitude.ofBits
  split
  · exact (by decide : (-1074 : Int) ≤ 971)
  · change bits < 2047 * 2 ^ 52 at bounded
    change ((bits / 2 ^ 52 : Nat) : Int) - 1075 ≤ 971
    omega

/-- The exact expansion of a finite bit pattern rounds to the pattern. -/
theorem nearestBits_exactFraction
    {bits : Nat}
    (positive : bits ≠ 0)
    (bounded : bits < infinityBits) :
    (Magnitude.ofBits bits).exactFraction.nearestBits = bits := by
  have normal := Magnitude.isNormal_ofBits positive
  have exact := nearestBits_ofBits bounded
  have highest := Magnitude.exponent_ofBits_le bounded
  generalize Magnitude.ofBits bits = value at normal exact highest ⊢
  obtain ⟨mantissa, exponent⟩ := value
  obtain ⟨mantissaPositive, mantissaBounded, lowest, -⟩ := normal
  dsimp only at mantissaPositive mantissaBounded lowest highest
  unfold Magnitude.exactFraction
  split
  · next notNegative =>
    change 0 ≤ exponent at notNegative
    have short : (digits (mantissa * 2 ^ exponent.toNat)).length ≤ 400 :=
      length_digits_mul_two_pow mantissaBounded (by omega)
    rw [← exact]
    apply Fraction.nearestBits_eq
    · exact Nat.mul_ne_zero mantissaPositive (Nat.two_pow_pos _).ne'
    · change ((digits (mantissa * 2 ^ exponent.toNat)).length : Int) + 0 ≤ 400
      omega
    · change -400 ≤ ((digits (mantissa * 2 ^ exponent.toNat)).length : Int) + 0
      omega
    · exact Magnitude.denominator_ne_zero _
    · change mantissa * 2 ^ exponent.toNat * 10 ^ 0 * 2 ^ (-exponent).toNat =
        mantissa * 2 ^ exponent.toNat * 10 ^ 0
      have zero : (-exponent).toNat = 0 := by omega
      rw [zero]
      ring
  · next negative =>
    change ¬0 ≤ exponent at negative
    obtain ⟨places, isPlaces⟩ : ∃ places : Nat, exponent = -places :=
      ⟨(-exponent).toNat, by omega⟩
    subst isPlaces
    have toNat : (- -(places : Int)).toNat = places := by omega
    have short := length_digits_mul_five_pow mantissaBounded places
    have long : places ≤ 400 + (digits (mantissa * 5 ^ places)).length :=
      places_le_length_digits mantissaPositive (by omega)
    rw [← exact]
    apply Fraction.nearestBits_eq
    · exact Nat.mul_ne_zero mantissaPositive (Nat.pow_pos (by decide)).ne'
    · change ((digits (mantissa * 5 ^ (- -(places : Int)).toNat)).length :
        Int) + -places ≤ 400
      rw [toNat]
      omega
    · change -400 ≤ ((digits
        (mantissa * 5 ^ (- -(places : Int)).toNat)).length : Int) + -places
      rw [toNat]
      omega
    · exact Magnitude.denominator_ne_zero _
    · change mantissa * 5 ^ (- -(places : Int)).toNat *
        10 ^ (-(places : Int)).toNat * 2 ^ (- -(places : Int)).toNat =
          mantissa * 2 ^ (-(places : Int)).toNat *
            10 ^ (- -(places : Int)).toNat
      have zero : (-(places : Int)).toNat = 0 := by omega
      have ten : 10 ^ places = 2 ^ places * 5 ^ places := Nat.mul_pow 2 5 places
      rw [toNat, zero, ten]
      ring

/-- The shortest fraction of a finite bit pattern rounds to the pattern.  A
candidate is only taken if it rounds to the pattern, whatever the candidates
are. -/
theorem nearestBits_shortest
    {bits : Nat}
    (positive : bits ≠ 0)
    (bounded : bits < infinityBits) :
    (shortest bits).nearestBits = bits := by
  have hit (candidates : List Fraction) :
      ((candidates.find? fun fraction => fraction.nearestBits == bits).getD
        (Magnitude.ofBits bits).exactFraction).nearestBits = bits := by
    cases found : candidates.find? fun fraction =>
      fraction.nearestBits == bits with
    | none => exact nearestBits_exactFraction positive bounded
    | some fraction =>
      have rounds := List.find?_some found
      exact eq_of_beq rounds
  rw [shortest, Fraction.nearestBits_normalize]
  exact hit _

end Decimal
end Symbolic

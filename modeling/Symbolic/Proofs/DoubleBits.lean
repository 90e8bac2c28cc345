import Mathlib
import Symbolic.Decimal.Binary

/-!
# Bit patterns of doubles

A double is determined by its sign and its unsigned bit pattern, and negating a
finite one changes nothing but the sign.  The second fact follows from the model
of doubles, in which negation unpacks a bit pattern into sign, exponent and
mantissa and packs the outcome again.  The library's lemmas about packing come
with no smaller import than that of all of it.
-/

namespace Symbolic
namespace Decimal

open Float.Model Float.Model.UnpackedFloat

/-- The value of a bit pattern that is put together from its parts. -/
theorem toNat_packComponents
    (sign : Sign)
    (exponent : BitVec 11)
    (mantissa : BitVec 52) :
    (packComponents .binary64 sign exponent mantissa).toNat =
      sign.toBitVec.toNat * 2 ^ 63 + exponent.toNat * 2 ^ 52 +
        mantissa.toNat := by
  have exponentBound := exponent.isLt
  have mantissaBound := mantissa.isLt
  rw [packComponents, BitVec.toNat_append,
    ← Nat.shiftLeft_add_eq_or_of_lt mantissaBound,
    BitVec.toNat_append, ← Nat.shiftLeft_add_eq_or_of_lt exponentBound,
      Nat.shiftLeft_eq,
    Nat.shiftLeft_eq]
  omega

/-- The sign bit is unpacked apart from all others. -/
theorem unpack_packComponents_neg
    (sign : Sign)
    (exponent : BitVec 11)
    (mantissa : BitVec 52) :
    UnpackedFloat.unpack .binary64
      (packComponents .binary64 (-sign) exponent mantissa) =
      (UnpackedFloat.unpack .binary64
        (packComponents .binary64 sign exponent mantissa)).neg := by
  unfold UnpackedFloat.unpack
  simp only [unpackSign_packComponents, unpackExponent_packComponents,
    unpackMantissa_packComponents, Sign.ofBitVec_toBitVec]
  split
  · split <;> rfl
  · split
    · split <;> rfl
    · rfl

/-- The sign of a double as a part of its bit pattern. -/
def signOf (negative : Bool) : Sign :=
  if negative then .negative else .positive

/-- A finite bit pattern with any sign is put together from parts that make no
undefined double. -/
theorem exists_components
    {bits : Nat}
    (bounded : bits < infinityBits) :
    ∃ (exponent : BitVec 11) (mantissa : BitVec 52),
      (∀ sign, isNaNBits (packComponents .binary64 sign exponent mantissa) =
        false) ∧
      ∀ negative,
        (UInt64.ofNat (if negative then signBit + bits else bits)).toBitVec =
        packComponents .binary64 (signOf negative) exponent mantissa := by
  change bits < 2047 * 2 ^ 52 at bounded
  have notHighest : BitVec.ofNat 11 (bits / 2 ^ 52) ≠ -1#_ := by
    intro highest
    have values := congrArg BitVec.toNat highest
    rw [BitVec.toNat_ofNat] at values
    change bits / 2 ^ 52 % 2048 = 2047 at values
    omega
  refine ⟨BitVec.ofNat 11 (bits / 2 ^ 52),
    BitVec.ofNat 52 (bits % 2 ^ 52), ?_, ?_⟩
  · intro sign
    rw [isNaNBits, unpackExponent_packComponents, decide_eq_false_iff_not]
    exact fun undefined => notHighest undefined.1
  · intro negative
    apply BitVec.eq_of_toNat_eq
    rw [toNat_packComponents, BitVec.toNat_ofNat, BitVec.toNat_ofNat,
      UInt64.toNat_toBitVec]
    cases negative with
    | false =>
      have small : bits < UInt64.size := by
        change bits < 2 ^ 64
        omega
      have sign : (signOf false).toBitVec.toNat = 0 := rfl
      rw [sign, if_neg Bool.false_ne_true, UInt64.toNat_ofNat_of_lt' small]
      omega
    | true =>
      have small : signBit + bits < UInt64.size := by
        change 2 ^ 63 + bits < 2 ^ 64
        omega
      have sign : (signOf true).toBitVec.toNat = 1 := rfl
      have isSignBit : signBit = 2 ^ 63 := rfl
      rw [sign, if_pos rfl, UInt64.toNat_ofNat_of_lt' small, isSignBit]
      omega

/-- The bit pattern of a finite double is the one that it was made from. -/
theorem toBits_ofSignAndBits
    (negative : Bool)
    {bits : Nat}
    (bounded : bits < infinityBits) :
    (ofSignAndBits negative bits).toBits =
      UInt64.ofNat (if negative then signBit + bits else bits) := by
  obtain ⟨exponent, mantissa, defined, components⟩ := exists_components bounded
  rw [← UInt64.toBitVec_inj]
  change UnpackedFloat.pack .binary64 (UnpackedFloat.unpack .binary64
    (UInt64.ofNat (if negative then signBit + bits else bits)).toBitVec) = _
  rw [components negative, UnpackedFloat.pack_unpack, defined,
    if_neg (by decide)]

theorem isFinite_ofSignAndBits
    (negative : Bool)
    {bits : Nat}
    (bounded : bits < infinityBits) :
    isFinite (ofSignAndBits negative bits) = true := by
  have magnitude : unsignedBits (ofSignAndBits negative bits) = bits := by
    rw [unsignedBits, toBits_ofSignAndBits negative bounded]
    change bits < 2047 * 2 ^ 52 at bounded
    change _ % 2 ^ 63 = _
    have isSignBit : signBit = 2 ^ 63 := rfl
    rw [isSignBit, UInt64.toNat_ofNat_of_lt']
    · cases negative <;>
        simp only [Bool.false_eq_true, if_true, if_false] <;> omega
    · change _ < 2 ^ 64
      split <;> omega
  rw [isFinite, magnitude]
  exact decide_eq_true bounded

/-- Negation changes the sign of a finite double and nothing else. -/
theorem neg_ofSignAndBits
    {bits : Nat}
    (bounded : bits < infinityBits) :
    -(ofSignAndBits false bits) = ofSignAndBits true bits := by
  obtain ⟨exponent, mantissa, defined, components⟩ := exists_components bounded
  rw [← Float.toBits_inj, ← UInt64.toBitVec_inj]
  change UnpackedFloat.pack .binary64 (UnpackedFloat.unpack .binary64
      (UnpackedFloat.pack .binary64 (UnpackedFloat.unpack .binary64
        (UInt64.ofNat (if false = true then signBit + bits
          else bits)).toBitVec))).neg =
    UnpackedFloat.pack .binary64 (UnpackedFloat.unpack .binary64
      (UInt64.ofNat (if true = true then signBit + bits else bits)).toBitVec)
  rw [components false, components true, UnpackedFloat.pack_unpack, defined,
    if_neg (by decide)]
  exact congrArg _ (unpack_packComponents_neg .positive exponent mantissa).symm

/-- A double is determined by its sign and its unsigned bit pattern. -/
theorem ofSignAndBits_parts (x : Float) :
    ofSignAndBits (isNegative x) (unsignedBits x) = x := by
  have sameBits : UInt64.ofNat (if isNegative x then signBit + unsignedBits x
      else unsignedBits x) =
      x.toBits := by
    apply UInt64.toNat_inj.1
    have bound := x.toBits.toNat_lt
    have value :
        (if isNegative x then signBit + unsignedBits x else unsignedBits x) =
        x.toBits.toNat := by
      simp only [isNegative, unsignedBits, decide_eq_true_eq]
      change (if 2 ^ 63 ≤ x.toBits.toNat then 2 ^ 63 + x.toBits.toNat % 2 ^ 63
        else x.toBits.toNat % 2 ^ 63) = x.toBits.toNat
      split <;> omega
    rw [value]
    exact UInt64.toNat_ofNat_of_lt bound
  rw [ofSignAndBits, sameBits, Float.ofBits_toBits]

end Decimal
end Symbolic

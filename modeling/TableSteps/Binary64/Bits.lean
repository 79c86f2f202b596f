import Mathlib
import TableSteps.Binary64.Order

/-! # Doubles and their bit patterns

A double is determined by its bit pattern, and every pattern up to infinity, of either sign, is the
pattern of a double; those beyond are no number and make one double together. So `ofMagnitude` and
the pair of `isNegative` and `magnitude` go back and forth between doubles and the row of exact
values. -/

namespace TableSteps.Binary64

open Float.Model Float.Model.UnpackedFloat

/-- The patterns that are no number are those beyond infinity, of either sign. -/
theorem isNaNBits_iff {b : BitVec 64} :
    @isNaNBits Format.binary64 b = true ↔ limit < b.toNat % signBit := by
  have hb : b.toNat < 2 ^ 64 := b.isLt
  have hexponent : @unpackExponent Format.binary64 b = -1#11 ↔
      b.toNat / 2 ^ 52 % 2 ^ 11 = 2047 := by
    rw [unpackExponent_def, ← BitVec.toNat_inj, BitVec.extractLsb'_toNat, Nat.shiftRight_eq_div_pow]
    rfl
  have hmantissa : @unpackMantissa Format.binary64 b = 0#52 ↔ b.toNat % 2 ^ 52 = 0 := by
    rw [unpackMantissa_def, ← BitVec.toNat_inj, BitVec.extractLsb'_toNat, Nat.shiftRight_eq_div_pow]
    simp
  simp only [isNaNBits, decide_eq_true_eq]
  rw [hexponent, ne_eq, hmantissa, limit, signBit]
  omega

/-- Up to infinity every pattern is that of a double. -/
theorem toBits_ofBits {bits : UInt64} (h : below bits ≤ limit) :
    (Float.ofBits bits).toBits = bits := by
  have hnumber : ¬ @isNaNBits Format.binary64 bits.toBitVec = true :=
    fun hnan => Nat.not_lt.mpr h (isNaNBits_iff.mp hnan)
  have hpack := @pack_unpack Format.binary64 bits.toBitVec (by decide)
  exact congrArg UInt64.ofBitVec (hpack.trans (if_neg hnumber))

/-- Beyond infinity every pattern makes the same double. -/
theorem toBits_ofBits_of_not_number {bits : UInt64} (h : limit < below bits) :
    (Float.ofBits bits).toBits = 0x7FF8000000000000 := by
  have hnan : @isNaNBits Format.binary64 bits.toBitVec = true := isNaNBits_iff.mpr h
  have hpack := @pack_unpack Format.binary64 bits.toBitVec (by decide)
  exact congrArg UInt64.ofBitVec (hpack.trans (if_pos hnan))

private theorem toNat_ofMagnitude {negative : Bool} {k : Nat} (h : k ≤ limit) :
    (ofMagnitude negative k).toBits.toNat = if negative then signBit + k else k := by
  have hk : (if negative then signBit + k else k) < 2 ^ 64 := by
    simp only [limit, signBit] at *
    split <;> omega
  have hv : (UInt64.ofNat (if negative then signBit + k else k)).toNat
      = if negative then signBit + k else k := by
    rw [UInt64.toNat_ofNat']
    exact Nat.mod_eq_of_lt hk
  rw [ofMagnitude, toBits_ofBits, hv]
  rw [below, hv]
  simp only [limit, signBit] at *
  split <;> omega

theorem magnitude_ofMagnitude {negative : Bool} {k : Nat} (h : k ≤ limit) :
    magnitude (ofMagnitude negative k) = k := by
  rw [magnitude, below, toNat_ofMagnitude h]
  simp only [limit, signBit] at *
  split <;> omega

theorem isNegative_ofMagnitude {negative : Bool} {k : Nat} (h : k ≤ limit) :
    isNegative (ofMagnitude negative k) = negative := by
  rw [isNegative, toNat_ofMagnitude h]
  cases negative with
  | true => simp
  | false =>
    simp only [limit, signBit] at *
    simp
    omega

/-- A pattern is its sign and the bits below. -/
theorem toNat_eq_below (bits : UInt64) :
    bits.toNat = if signBit ≤ bits.toNat then signBit + below bits else below bits := by
  have hbits : bits.toNat < 2 ^ 64 := bits.toNat_lt
  unfold below signBit
  split <;> omega

theorem ofMagnitude_magnitude (x : Float) : ofMagnitude (isNegative x) (magnitude x) = x := by
  have hbits : (if isNegative x then signBit + magnitude x else magnitude x) = x.toBits.toNat := by
    rw [toNat_eq_below x.toBits]
    simp [isNegative, magnitude]
  rw [ofMagnitude, hbits, UInt64.ofNat_toNat, Float.ofBits_toBits]

end TableSteps.Binary64
